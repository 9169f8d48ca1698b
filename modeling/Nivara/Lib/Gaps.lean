import Mathlib

/-!
# Gaps and their filling

A series with gaps, the lengths of the runs of gaps, and the filling of each run, up to a limit,
with the observation before it.

Results:

* `countP_forwardFill`: each run after an observation is filled as far as the limit lets it.
* `none_mem_forwardFill_iff`: what is left after the filling.
-/

namespace Nivara.Gaps

variable {α : Type*}

/-- The filling of a series that goes on after `last` and `n` gaps. -/
def fillFrom (limit : ℕ) : Option α → ℕ → List (Option α) → List (Option α)
  | _, _, [] => []
  | _, _, some x :: s => some x :: fillFrom limit (some x) 0 s
  | last, n, none :: s => (if n < limit then last else none) :: fillFrom limit last (n + 1) s

/-- Each gap after an observation takes its value, at most `limit` of them in a row. -/
def forwardFill (limit : ℕ) (s : List (Option α)) : List (Option α) := fillFrom limit none 0 s

/-- The lengths of the runs of gaps: of the one that leads, and of the one after each observation. -/
def gapLengths (s : List (Option α)) : List ℕ := (s.splitOnP Option.isSome).map List.length

/-- The lengths of the runs that do not lead. -/
def innerGaps (s : List (Option α)) : List ℕ := (gapLengths s).tail

variable {limit : ℕ} {s : List (Option α)} {g : ℕ} {gs : List ℕ}

/-- A series by its runs: `g` gaps lead, and after the observations there are `gs`. -/
inductive Runs : List (Option α) → ℕ → List ℕ → Prop
  | nil : Runs [] 0 []
  | observation {x : α} {s : List (Option α)} {g : ℕ} {gs : List ℕ} (h : Runs s g gs) :
    Runs (some x :: s) 0 (g :: gs)
  | gap {s : List (Option α)} {g : ℕ} {gs : List ℕ} (h : Runs s g gs) : Runs (none :: s) (g + 1) gs

theorem exists_runs (s : List (Option α)) : ∃ g gs, gapLengths s = g :: gs ∧ Runs s g gs := by
  induction s with
  | nil => exact ⟨0, [], rfl, .nil⟩
  | cons y s ih =>
    obtain ⟨g, gs, hlengths, hruns⟩ := ih
    unfold gapLengths at hlengths ⊢
    rw [List.splitOnP_cons_eq_if_modifyHead]
    cases y with
    | some x => exact ⟨0, g :: gs, congrArg (0 :: ·) hlengths, .observation hruns⟩
    | none =>
      refine ⟨g + 1, gs, ?_, .gap hruns⟩
      cases hpieces : s.splitOnP Option.isSome with
      | nil => exact absurd hpieces (List.splitOnP_ne_nil _ s)
      | cons piece pieces =>
        rw [hpieces] at hlengths
        obtain ⟨rfl, rfl⟩ := List.cons.inj hlengths
        rfl

/-- A gap leads when the leading run is not empty. -/
theorem Runs.head_iff (h : Runs s g gs) : s.head? = some none ↔ 0 < g := by
  cases h <;> simp

/-! ## How much is filled -/

/-- After an observation and `n` gaps, the run that goes on is filled as far as the limit is not
    used up. -/
theorem Runs.countP_fillFrom (h : Runs s g gs) (x : α) (n : ℕ) :
    (fillFrom limit (some x) n s).countP Option.isSome =
      s.countP Option.isSome + (min g (limit - n) + (gs.map (min · limit)).sum) := by
  induction h generalizing x n with
  | nil => simp [fillFrom]
  | @observation y s g gs _ ih =>
    rw [fillFrom, List.countP_cons_of_pos rfl, List.countP_cons_of_pos rfl, ih y 0, List.map_cons,
      List.sum_cons]
    omega
  | @gap s g gs _ ih =>
    rw [fillFrom, List.countP_cons_of_neg (a := none) Bool.false_ne_true]
    by_cases hn : n < limit
    · rw [if_pos hn, List.countP_cons_of_pos rfl, ih x (n + 1)]
      omega
    · rw [if_neg hn, List.countP_cons_of_neg Bool.false_ne_true, ih x (n + 1)]
      omega

/-- Before the first observation nothing is filled. -/
theorem Runs.countP_fillFrom_none (h : Runs s g gs) (n : ℕ) :
    (fillFrom limit none n s).countP Option.isSome = s.countP Option.isSome +
      (gs.map (min · limit)).sum := by
  induction h generalizing n with
  | nil => simp [fillFrom]
  | @observation y s g gs hruns _ =>
    rw [fillFrom, List.countP_cons_of_pos rfl, List.countP_cons_of_pos rfl, hruns.countP_fillFrom y 0,
      List.map_cons, List.sum_cons, Nat.sub_zero]
    omega
  | gap _ ih =>
    rw [fillFrom, ite_self, List.countP_cons_of_neg Bool.false_ne_true,
      List.countP_cons_of_neg Bool.false_ne_true, ih (n + 1)]

/-- Each run after an observation is filled as far as the limit lets it. -/
theorem countP_forwardFill (limit : ℕ) (s : List (Option α)) :
    (forwardFill limit s).countP Option.isSome =
      s.countP Option.isSome + ((innerGaps s).map (min · limit)).sum := by
  obtain ⟨g, gs, hlengths, hruns⟩ := exists_runs s
  unfold innerGaps
  rw [hlengths]
  exact hruns.countP_fillFrom_none 0

theorem length_fillFrom (limit : ℕ) (last : Option α) (n : ℕ) (s : List (Option α)) :
    (fillFrom limit last n s).length = s.length := by
  fun_induction fillFrom limit last n s <;> simp_all

/-! ## What is left -/

/-- What a filling holds was observed. -/
theorem mem_of_mem_fillFrom {last : Option α} {n : ℕ} {x : α} (h : some x ∈ fillFrom limit last n s) :
    last = some x ∨ some x ∈ s := by
  induction s generalizing last n with
  | nil => cases h
  | cons y s ih =>
    cases y with
    | some y =>
      rcases List.mem_cons.mp h with hy | hs
      · exact .inr (hy ▸ List.mem_cons_self)
      · rcases ih hs with hy | hmem
        · exact .inr (hy ▸ List.mem_cons_self)
        · exact .inr (List.mem_cons_of_mem _ hmem)
    | none =>
      rcases List.mem_cons.mp h with hlast | hs
      · split_ifs at hlast
        exact .inl hlast.symm
      · exact (ih hs).imp_right (List.mem_cons_of_mem _)

theorem Runs.none_mem_fillFrom_iff (h : Runs s g gs) (x : α) (n : ℕ) :
    none ∈ fillFrom limit (some x) n s ↔ limit - n < g ∨ ∃ run ∈ gs, limit < run := by
  induction h generalizing x n with
  | nil => simp [fillFrom]
  | @observation y s g gs _ ih => simp [fillFrom, ih y 0]
  | @gap s g gs _ ih =>
    by_cases hn : n < limit
    · have hstep : limit - (n + 1) < g ↔ limit - n < g + 1 := by omega
      simp [fillFrom, hn, ih x (n + 1), hstep]
    · have hused : limit - n < g + 1 := by omega
      simp [fillFrom, hn, hused]

theorem Runs.none_mem_fillFrom_none_iff (h : Runs s g gs) (n : ℕ) :
    none ∈ fillFrom limit none n s ↔ 0 < g ∨ ∃ run ∈ gs, limit < run := by
  cases h with
  | nil => simp [fillFrom]
  | @observation y s g gs hruns => simp [fillFrom, hruns.none_mem_fillFrom_iff y 0]
  | gap => simp [fillFrom]

/-- What is left after the filling is a run that leads, or the end of one that is too long. -/
theorem none_mem_forwardFill_iff (limit : ℕ) (s : List (Option α)) :
    none ∈ forwardFill limit s ↔ s.head? = some none ∨ ∃ run ∈ innerGaps s, limit < run := by
  obtain ⟨g, gs, hlengths, hruns⟩ := exists_runs s
  unfold innerGaps
  rw [hlengths, hruns.head_iff]
  exact hruns.none_mem_fillFrom_none_iff 0

end Nivara.Gaps
