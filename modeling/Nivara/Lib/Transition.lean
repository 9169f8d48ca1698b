import Mathlib

/-!
# Runs of a transition system

`step s a t`: the system goes from `s` to `t` with the label `a`, which says who
moves and with what input. `Run step cond s t`: from `s` the system reaches `t` by
steps that all meet `cond`, a condition on the state before the step and its label.

Results:

* `Run.invariant`: what holds at the start and is kept by every step of the run
  holds in every state reached.
* `Run.trans`: runs compose.
* `Run.simulate`: a run whose every step is a run of another system, under a view of
  the states, is a run of that system.
* `Run.of_foldl`, `Run.of_foldlM`, `Run.of_foldlM_guarded`: executing a list of labels gives a run.
-/

namespace Nivara.Transition

variable {σ α : Type*}

/-- `t` is reached from `s` by steps that meet `cond`. -/
inductive Run (step : σ → α → σ → Prop) (cond : σ → α → Prop) (s : σ) : σ → Prop
  | refl : Run step cond s s
  | tail {t u : σ} (a : α) : Run step cond s t → cond t a → step t a u → Run step cond s u

/-- Runs on fixed inputs number their parties in `Fin 2` or `Fin 3`. Under a name the instance
    leaves no proof of its own in each list of labels. -/
instance twoParties : NeZero 2 := ⟨two_ne_zero⟩

instance threeParties : NeZero 3 := ⟨three_ne_zero⟩

/-- No condition on the steps. -/
def Unconditional (_ : σ) (_ : α) : Prop := True

variable {step : σ → α → σ → Prop} {cond : σ → α → Prop} {s t u : σ}

/-- A property kept by the steps of a run holds in every state reached. -/
theorem Run.invariant {I : σ → Prop} (h : Run step cond s t) (h₀ : I s)
    (hstep : ∀ s a t, I s → cond s a → step s a t → I t) : I t := by
  induction h with
  | refl => exact h₀
  | tail a _ hc hs ih => exact hstep _ a _ ih hc hs

theorem Run.trans (h : Run step cond s t) (h' : Run step cond t u) : Run step cond s u := by
  induction h' with
  | refl => exact h
  | tail a _ hc hs ih => exact .tail a ih hc hs

/-- A view of the states under which each step is a run of another system. -/
theorem Run.simulate {τ β : Type*} {step' : τ → β → τ → Prop} {cond' : τ → β → Prop} {view : σ → τ}
    (h : Run step cond s t)
    (hsim : ∀ s a t, cond s a → step s a t → Run step' cond' (view s) (view t)) :
    Run step' cond' (view s) (view t) := by
  induction h with
  | refl => exact .refl
  | tail a _ hc hs ih => exact ih.trans (hsim _ a _ hc hs)

/-- A list of labels is a run of a total step function. -/
theorem Run.of_foldl (f : σ → α → σ) (l : List α) :
    Run (fun s a t => f s a = t) Unconditional s (l.foldl f s) := by
  induction l generalizing s with
  | nil => exact .refl
  | cons a l ih => exact (Run.tail a .refl trivial rfl).trans ih

/-- A list of labels that a partial step function accepts, each where it meets the
    condition, is a run. -/
theorem Run.of_foldlM_guarded {f : σ → α → Option σ} [∀ s a, Decidable (cond s a)] (l : List α)
    (h : l.foldlM (fun s a => if cond s a then f s a else none) s = some t) :
    Run (fun s a t => f s a = some t) cond s t := by
  induction l generalizing s with
  | nil => cases h; exact .refl
  | cons a l ih =>
    rw [List.foldlM_cons] at h
    obtain ⟨u, hu, hl⟩ := Option.bind_eq_some_iff.mp h
    by_cases hc : cond s a
    · rw [if_pos hc] at hu
      exact (Run.tail a .refl hc hu).trans (ih hl)
    · rw [if_neg hc] at hu
      cases hu

/-- A list of labels that a partial step function accepts is a run. -/
theorem Run.of_foldlM {f : σ → α → Option σ} (l : List α) (h : l.foldlM f s = some t) :
    Run (fun s a t => f s a = some t) Unconditional s t := by
  induction l generalizing s with
  | nil => cases h; exact .refl
  | cons a l ih =>
    rw [List.foldlM_cons] at h
    obtain ⟨u, hu, hl⟩ := Option.bind_eq_some_iff.mp h
    exact (Run.tail a .refl trivial hu).trans (ih hl)

end Nivara.Transition
