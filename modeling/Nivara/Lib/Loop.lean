import Mathlib

/-!
# Loops that may raise

A loop over a list in `Except ε`, with a state that has a closed form `after c l`
in the rows `l` it has read and a part `c` that the closed form leaves open.

Results:

* `of_bind_eq_ok`, `of_bind_eq_error`, `map_bind_congr`: what the end of a bind says about
  its halves.
* `forall₂_of_mapM`: a `mapM` that returns has computed every element.
* `foldlM_filter`: rows that change nothing of a view of the state can be left out.
* `foldlM_closedForm`: the loop reaches its closed form or raises what one of its
  rounds can raise.
-/

namespace Nivara.Loop

variable {ε σ β γ : Type*} {step : σ → β → Except ε σ}

theorem eq_ok_of_toOption {ε α : Type*} {x : Except ε α} {a : α} (h : x.toOption = some a) : x = .ok a := by
  cases x <;> cases h
  rfl

/-- A computation that returns has passed through a value of its first part. -/
theorem of_bind_eq_ok {ε α δ : Type} {x : Except ε α} {f : α → Except ε δ} {d : δ}
    (h : (x >>= f) = .ok d) : ∃ a, x = .ok a ∧ f a = .ok d := by
  cases x with
  | error e => cases h
  | ok a => exact ⟨a, rfl, h⟩

theorem of_map_eq_ok {ε α δ : Type} {x : Except ε α} {f : α → δ} {d : δ} (h : x.map f = .ok d) :
    ∃ a, x = .ok a ∧ f a = d := by
  cases x with
  | error e => cases h
  | ok a => exact ⟨a, rfl, Except.ok.inj h⟩

/-- An exception comes from the first part or from what follows a value of it. -/
theorem of_bind_eq_error {ε α δ : Type} {x : Except ε α} {f : α → Except ε δ} {e : ε}
    (h : (x >>= f) = .error e) : x = .error e ∨ ∃ a, x = .ok a ∧ f a = .error e := by
  cases x with
  | error e' => cases h; exact .inl rfl
  | ok a => exact .inr ⟨a, rfl, h⟩

/-- What follows two computations with one view, as far as a view of its end goes. -/
theorem map_bind_congr {ε α δ τ υ : Type} {view : α → τ} {view' : δ → υ} {x y : Except ε α}
    {f : α → Except ε δ} (h : x.map view = y.map view)
    (hf : ∀ a b, view a = view b → (f a).map view' = (f b).map view') :
    (x >>= f).map view' = (y >>= f).map view' := by
  cases x with
  | error e =>
    cases y with
    | error e' =>
      cases h
      rfl
    | ok b => cases h
  | ok a =>
    cases y with
    | error e => cases h
    | ok b => exact hf a b (Except.ok.inj h)

/-- A comprehension that returns has computed every element. -/
theorem forall₂_of_mapM {ε α δ : Type} {f : α → Except ε δ} :
    ∀ {l : List α} {r : List δ}, l.mapM f = .ok r → List.Forall₂ (fun a b => f a = .ok b) l r
  | [], _, h => by
    cases h
    exact .nil
  | a :: l, r, h => by
    rw [List.mapM_cons] at h
    obtain ⟨b, hb, h⟩ := of_bind_eq_ok h
    obtain ⟨bs, hbs, h⟩ := of_bind_eq_ok h
    cases h
    exact .cons hb (forall₂_of_mapM hbs)

/-- An element on the right is related to one on the left. -/
theorem exists_mem_of_forall₂ {α δ : Type*} {R : α → δ → Prop} {l : List α} {r : List δ} {b : δ}
    (h : List.Forall₂ R l r) (hb : b ∈ r) : ∃ a ∈ l, R a b := by
  induction h with
  | nil => cases hb
  | @cons a' b' l r hab _ ih =>
    rcases List.mem_cons.mp hb with rfl | hb
    · exact ⟨a', by simp, hab⟩
    · obtain ⟨a, ha, hR⟩ := ih hb
      exact ⟨a, List.mem_cons_of_mem _ ha, hR⟩

theorem foldlM_append_singleton (l : List β) (b : β) (s : σ) :
    (l ++ [b]).foldlM step s = (l.foldlM step s).bind fun s' => step s' b := by
  rw [List.foldlM_append]
  cases l.foldlM step s with
  | error e => rfl
  | ok s' =>
    simp only [bind, Except.bind, List.foldlM_cons, List.foldlM_nil]
    cases step s' b <;> rfl

/-- A loop whose rounds read the state through a view: the rows whose round leaves the view alone
    can be left out. -/
theorem foldlM_filter {τ : Type*} (step : σ → β → Except ε σ) (view : σ → τ) (good : β → Bool)
    (Inv : σ → Prop)
    (hview : ∀ s t b, view s = view t → (step s b).map view = (step t b).map view)
    (hkeep : ∀ s b s', Inv s → step s b = .ok s' → Inv s') {l : List β}
    (hskip : ∀ s, ∀ b ∈ l, Inv s → good b = false → ∃ s', step s b = .ok s' ∧ view s' = view s)
    {s t : σ} (hs : Inv s) (hst : view s = view t) :
    (l.foldlM step s).map view = ((l.filter good).foldlM step t).map view := by
  induction l generalizing s t with
  | nil => exact congrArg Except.ok hst
  | cons b l ih =>
    have ih := fun {s t} => @ih (fun s b hb => hskip s b (List.mem_cons_of_mem _ hb)) s t
    cases hb : good b with
    | false =>
      obtain ⟨s', hs', hview'⟩ := hskip s b (by simp) hs hb
      rw [List.filter_cons_of_neg (by simp [hb]), List.foldlM_cons, hs']
      exact ih (hkeep s b s' hs hs') (hview'.trans hst)
    | true =>
      have hround := hview s t b hst
      rw [List.filter_cons_of_pos hb, List.foldlM_cons, List.foldlM_cons]
      cases hsb : step s b with
      | error e =>
        rw [hsb] at hround
        cases htb : step t b with
        | error e' =>
          rw [htb] at hround
          cases hround
          rfl
        | ok t' =>
          rw [htb] at hround
          cases hround
      | ok s' =>
        rw [hsb] at hround
        cases htb : step t b with
        | error e' =>
          rw [htb] at hround
          cases hround
        | ok t' =>
          rw [htb] at hround
          exact ih (hkeep s b s' hs hsb) (Except.ok.inj hround)

/-- A round on a good row goes from the closed form of the rows read to that of one
    row more, or raises `e` because of the rows before (`Bad`); a round on any other
    row raises `e'`. So does the loop. -/
theorem foldlM_closedForm {after : γ → List β → σ} {Inv : γ → Prop} {Bad : List β → Prop}
    {e e' : ε} {P : β → Prop} {c₀ : γ} (h₀ : Inv c₀)
    (hstep : ∀ c l b, Inv c → P b →
      (∃ c', Inv c' ∧ step (after c l) b = .ok (after c' (l ++ [b]))) ∨
      (Bad l ∧ step (after c l) b = .error e))
    (hraise : ∀ c l b, Inv c → ¬ P b → step (after c l) b = .error e')
    (hbad : ∀ l b, Bad l → Bad (l ++ [b])) (l : List β) :
    (∃ c, Inv c ∧ (∀ b ∈ l, P b) ∧ l.foldlM step (after c₀ []) = .ok (after c l)) ∨
      (Bad l ∧ l.foldlM step (after c₀ []) = .error e) ∨
      ((∃ b ∈ l, ¬ P b) ∧ l.foldlM step (after c₀ []) = .error e') := by
  induction l using List.reverseRecOn with
  | nil => exact .inl ⟨c₀, h₀, by simp, rfl⟩
  | append_singleton l b ih =>
    rw [foldlM_append_singleton]
    rcases ih with ⟨c, hc, hP, hl⟩ | ⟨hb, hl⟩ | ⟨⟨a, ha, hPa⟩, hl⟩
    · rw [hl]
      by_cases hPb : P b
      · rcases hstep c l b hc hPb with ⟨c', hc', hs⟩ | ⟨hb, hs⟩
        · refine .inl ⟨c', hc', ?_, hs⟩
          intro a ha
          rcases List.mem_append.mp ha with ha | ha
          · exact hP a ha
          · rw [List.mem_singleton.mp ha]; exact hPb
        · exact .inr (.inl ⟨hbad l b hb, hs⟩)
      · exact .inr (.inr ⟨⟨b, by simp, hPb⟩, hraise c l b hc hPb⟩)
    · exact .inr (.inl ⟨hbad l b hb, by rw [hl]; rfl⟩)
    · exact .inr (.inr ⟨⟨a, List.mem_append_left _ ha, hPa⟩, by rw [hl]; rfl⟩)

end Nivara.Loop
