import Nivara.Common.Literals

/-!
# Dates in their order

The comparison of `datetime.date`, and the date that is some days later.

Results:

* `eq_of_not_before`: of two dates, one is before the other.
* `exists_addDays`, `between_of_addDays`: the dates from one to another are those that are counted on
  the way.
-/

namespace Nivara.Date

/-! ## The order -/

/-- `d < e`. -/
def Before (d e : Date) : Prop :=
  d.year < e.year ∨ d.year = e.year ∧ (d.month < e.month ∨ d.month = e.month ∧ d.day < e.day)

instance decidableBefore (d e : Date) : Decidable (d.Before e) :=
  inferInstanceAs (Decidable (_ ∨ _ ∧ (_ ∨ _ ∧ _)))

/-- Two dates of which neither is before the other are one. -/
theorem eq_of_not_before {d e : Date} (h : ¬ d.Before e) (h' : ¬ e.Before d) : d = e := by
  unfold Before at h h'
  obtain ⟨year, month, day, _, _, _⟩ := d
  obtain ⟨year', month', day', _, _, _⟩ := e
  dsimp only at h h'
  obtain ⟨rfl, rfl, rfl⟩ : year = year' ∧ month = month' ∧ day = day' := by omega
  rfl

theorem not_before_self (d : Date) : ¬ d.Before d := by
  unfold Before
  omega

theorem not_before_trans {d e f : Date} (h : ¬ e.Before d) (h' : ¬ f.Before e) : ¬ f.Before d := by
  unfold Before at h h' ⊢
  omega

theorem before_of_not_before {d e f : Date} (h : ¬ e.Before d) (h' : e.Before f) : d.Before f := by
  unfold Before at h h' ⊢
  omega

theorem not_before_of_before {d e : Date} (h : d.Before e) : ¬ e.Before d := by
  unfold Before at h ⊢
  omega

/-! ## Dates in a row -/

/-- The constructor of `date` accepts it. -/
def IsValid (d : Date) : Prop := ofYmd d.year d.month d.day = some d

/-- `d + timedelta(days=1)`; `none` is an `OverflowError`. -/
def nextDay (d : Date) : Option Date :=
  if d.day < daysInMonth d.year d.month then ofYmd d.year d.month (d.day + 1)
  else if d.month < 12 then ofYmd d.year (d.month + 1) 1
  else ofYmd (d.year + 1) 1 1

/-- `_add_days`. -/
def addDays (d : Date) : ℕ → Option Date
  | 0 => some d
  | n + 1 => d.nextDay.bind fun e => e.addDays n

example : (ofYmd 2023 12 31).bind (·.addDays 60) = ofYmd 2024 2 29 := by decide +kernel

theorem addDays_one (d : Date) : d.addDays 1 = d.nextDay := by
  unfold addDays
  cases d.nextDay <;> rfl

theorem ofYmd_eq_some {year month day : ℕ} {d : Date} (h : ofYmd year month day = some d) :
    d.year = year ∧ d.month = month ∧ d.day = day := by
  unfold ofYmd at h
  split_ifs at h
  cases h
  exact ⟨rfl, rfl, rfl⟩

theorem IsValid.bounds {d : Date} (h : d.IsValid) :
    1 ≤ d.month ∧ 1 ≤ d.day ∧ d.day ≤ daysInMonth d.year d.month := by
  unfold IsValid ofYmd at h
  split_ifs at h with hbounds
  exact ⟨hbounds.2.1.1, hbounds.2.2.1, hbounds.2.2.2⟩

/-- There is no date between a date and the next one. -/
theorem not_before_nextDay {d e f : Date} (hnext : d.nextDay = some f) (he : e.IsValid)
    (hde : d.Before e) : ¬ e.Before f := by
  obtain ⟨hmonth, hday, hle⟩ := he.bounds
  have hmonth' := e.month_le
  unfold Before at hde ⊢
  unfold nextDay at hnext
  split_ifs at hnext with hroom hyear
  · obtain ⟨hfy, hfm, hfd⟩ := ofYmd_eq_some hnext
    omega
  · obtain ⟨hfy, hfm, hfd⟩ := ofYmd_eq_some hnext
    -- a later day of the same month would be one that the month does not have
    by_cases hsame : e.year = d.year ∧ e.month = d.month
    · rw [hsame.1, hsame.2] at hle
      omega
    · omega
  · obtain ⟨hfy, hfm, hfd⟩ := ofYmd_eq_some hnext
    by_cases hsame : e.year = d.year ∧ e.month = d.month
    · rw [hsame.1, hsame.2] at hle
      omega
    · omega

/-- The dates from `d` up to `e` are those that are counted on the way. -/
theorem exists_addDays {d e f : Date} {k : ℕ} (he : e.IsValid) (hfrom : ¬ e.Before d)
    (hto : d.addDays k = some f) (hbefore : e.Before f) : ∃ j < k, d.addDays j = some e := by
  induction k generalizing d with
  | zero =>
    cases hto
    exact absurd hbefore hfrom
  | succ k ih =>
    by_cases hde : d.Before e
    · obtain ⟨d', hnext, hto⟩ := Option.bind_eq_some_iff.mp hto
      obtain ⟨j, hj, hje⟩ := ih (not_before_nextDay hnext he hde) hto
      exact ⟨j + 1, Nat.succ_lt_succ hj, Option.bind_eq_some_iff.mpr ⟨d', hnext, hje⟩⟩
    · exact ⟨0, Nat.succ_pos k, congrArg some (eq_of_not_before hde hfrom)⟩

theorem before_nextDay {d e : Date} (h : d.nextDay = some e) : d.Before e := by
  unfold nextDay at h
  unfold Before
  split_ifs at h
  all_goals
    obtain ⟨hy, hm, hd⟩ := ofYmd_eq_some h
    omega

theorem before_trans {d e f : Date} (h : d.Before e) (h' : e.Before f) : d.Before f := by
  unfold Before at h h' ⊢
  omega

theorem addDays_add (d : Date) (j k : ℕ) : d.addDays (j + k) = (d.addDays j).bind fun e => e.addDays k := by
  induction j generalizing d with
  | zero => rw [Nat.zero_add, addDays, Option.bind_some]
  | succ j ih =>
    rw [Nat.succ_add, addDays, addDays, Option.bind_assoc]
    simp only [ih]

theorem before_addDays {d e : Date} {k : ℕ} (h : d.addDays (k + 1) = some e) : d.Before e := by
  induction k generalizing d with
  | zero => exact before_nextDay (d.addDays_one.symm.trans h)
  | succ k ih =>
    obtain ⟨f, hf, he⟩ := Option.bind_eq_some_iff.mp h
    exact before_trans (before_nextDay hf) (ih he)

/-- A date that is counted on the way lies between both ends. -/
theorem between_of_addDays {d e f : Date} {j n : ℕ} (hj : j ≤ n) (he : d.addDays j = some e)
    (hf : d.addDays n = some f) : ¬ e.Before d ∧ ¬ f.Before e := by
  constructor
  · cases j with
    | zero =>
      cases he
      exact not_before_self d
    | succ j => exact not_before_of_before (before_addDays he)
  · obtain ⟨k, rfl⟩ := Nat.exists_eq_add_of_le hj
    rw [addDays_add, he, Option.bind_some] at hf
    cases k with
    | zero =>
      cases hf
      exact not_before_self e
    | succ k => exact not_before_of_before (before_addDays hf)

/-- Counting different numbers of days leads to different dates. -/
theorem addDays_injective {d e : Date} {j k : ℕ} (hj : d.addDays j = some e) (hk : d.addDays k = some e) :
    j = k := by
  have hlt : ∀ {j k : ℕ}, d.addDays j = some e → d.addDays k = some e → ¬ j < k := by
    intro j k hj hk hlt
    obtain ⟨m, rfl⟩ := Nat.exists_eq_add_of_lt hlt
    rw [Nat.add_assoc, addDays_add, hj, Option.bind_some] at hk
    exact not_before_self e (before_addDays hk)
  exact le_antisymm (not_lt.mp (hlt hk hj)) (not_lt.mp (hlt hj hk))

end Nivara.Date
