import Nivara.Common.Dates

/-!
# The dates of days

The Gregorian calendar of `civilFromDays`, from the year 1 to the year 9999 of `datetime`.

Results:

* `exists_civilFromDays`: the day has a date.
* `exists_ofYmd_pred`: which dates have one a year earlier.
-/

namespace Nivara.Date

/-! ## Years and months -/

/-- The year of an era that a day of the era is in. -/
def yearOfEra (doe : ℤ) : ℤ := (doe - doe / 1460 + doe / 36524 - doe / 146096) / 365

/-- The first day of a year of an era. -/
def yearStart (yoe : ℤ) : ℤ := 365 * yoe + yoe / 4 - yoe / 100

theorem yearOfEra_mono {a b : ℤ} (h : a ≤ b) : yearOfEra a ≤ yearOfEra b := by
  unfold yearOfEra
  refine Int.ediv_le_ediv (by norm_num) ?_
  omega

theorem yearOfEra_yearStart : ∀ y < 400, yearOfEra (yearStart (y : ℕ)) = y ∧
    (1 ≤ y → yearOfEra (yearStart y - 1) = y - 1) := by
  decide +kernel

/-- The years of an era end in February. -/
theorem yearStart_succ : ∀ y < 399,
    yearStart (y + 1 : ℕ) = yearStart (y : ℕ) + 365 + (if isLeap (y + 1) then 1 else 0) := by
  decide +kernel

/-- The day of the year; a year that ends in a leap day has one more. -/
theorem dayOfYear_mem {doe : ℤ} (h0 : 0 ≤ doe) (h1 : doe < 146097) :
    ∃ y : ℕ, y < 400 ∧ yearOfEra doe = y ∧ yearStart y ≤ doe ∧ doe - yearStart y ≤ 365 ∧
      (doe - yearStart y = 365 → isLeap (y + 1) = true) := by
  have hyoe : 0 ≤ yearOfEra doe ∧ yearOfEra doe < 400 := by
    unfold yearOfEra
    omega
  obtain ⟨y, hy⟩ := Int.eq_ofNat_of_zero_le hyoe.1
  have hlt : y < 400 := by omega
  have hstart : yearStart y ≤ doe := by
    by_contra hbefore
    have hpos : 1 ≤ y := by
      by_contra hzero
      obtain rfl : y = 0 := by omega
      unfold yearStart at hbefore
      omega
    have hmono := yearOfEra_mono (show doe ≤ yearStart y - 1 by omega)
    rw [(yearOfEra_yearStart y hlt).2 hpos] at hmono
    omega
  have hend : y + 1 < 400 → doe < yearStart (y + 1 : ℕ) := by
    intro hnext
    by_contra hafter
    have hmono := yearOfEra_mono (not_lt.mp hafter)
    rw [(yearOfEra_yearStart (y + 1) hnext).1] at hmono
    omega
  have hlength : doe - yearStart y ≤ 364 + (if isLeap (y + 1) then 1 else 0) := by
    by_cases hnext : y + 1 < 400
    · have hdays := yearStart_succ y (Nat.lt_of_succ_lt_succ hnext)
      have := hend hnext
      omega
    · obtain rfl : y = 399 := by omega
      change doe - 145731 ≤ 365
      omega
  refine ⟨y, hlt, hy, hstart, ?_, ?_⟩
  · split_ifs at hlength <;> omega
  · intro hlast
    by_contra hleap
    rw [if_neg hleap] at hlength
    omega

/-- The month of a day of a year that starts in March. -/
def monthOfYear (doy : ℤ) : ℤ :=
  let mp := (5 * doy + 2) / 153
  if mp < 10 then mp + 3 else mp - 9

/-- Its day in the month. -/
def dayOfMonth (doy : ℤ) : ℤ := doy - (153 * ((5 * doy + 2) / 153) + 2) / 5 + 1

theorem civilFromDays_eq (z : ℤ) :
    civilFromDays z =
      let doe := (z + 719468) % 146097
      let doy := doe - yearStart (yearOfEra doe)
      (yearOfEra doe + (z + 719468) / 146097 * 400 + (if monthOfYear doy ≤ 2 then 1 else 0),
        monthOfYear doy, dayOfMonth doy) := rfl

theorem monthDay_mem :
    ∀ doy < 366, (1 ≤ monthOfYear (doy : ℕ) ∧ monthOfYear doy ≤ 12) ∧ 1 ≤ dayOfMonth doy ∧
    (monthOfYear doy ≤ 2 ↔ 306 ≤ doy) ∧ (dayOfMonth doy ≤ daysInMonth 1 (monthOfYear doy).toNat ∨
      doy = 365 ∧ monthOfYear doy = 2 ∧ dayOfMonth doy = 29) := by
  decide +kernel

theorem daysInMonth_one_le (year month : ℕ) : daysInMonth 1 month ≤ daysInMonth year month := by
  unfold daysInMonth
  split_ifs <;> first | omega | contradiction

theorem isLeap_add (y era : ℕ) : isLeap (y + 400 * era) = isLeap y := by
  have h4 : (y + 400 * era) % 4 = y % 4 := by omega
  have h100 : (y + 400 * era) % 100 = y % 100 := by omega
  have h400 : (y + 400 * era) % 400 = y % 400 := by omega
  unfold isLeap
  rw [h4, h100, h400]

/-! ## Dates -/

/-- From the year 1 to the year 9999 every day has a date. -/
theorem exists_civilFromDays {z : ℤ} (h0 : -719162 ≤ z) (h1 : z < 2932897) :
    ∃ d : Date, d.IsValid ∧ civilFromDays z = (↑d.year, ↑d.month, ↑d.day) := by
  obtain ⟨era, hera⟩ := Int.eq_ofNat_of_zero_le (show 0 ≤ (z + 719468) / 146097 by omega)
  have hdoe : 0 ≤ (z + 719468) % 146097 ∧ (z + 719468) % 146097 < 146097 := by omega
  have hz : z + 719468 = 146097 * era + (z + 719468) % 146097 := by omega
  generalize hdoe' : (z + 719468) % 146097 = doe at hdoe hz
  obtain ⟨y, hy, hyoe, hstart, hlast, hleap⟩ := dayOfYear_mem hdoe.1 hdoe.2
  obtain ⟨doy, hdoy⟩ := Int.eq_ofNat_of_zero_le (sub_nonneg.mpr hstart)
  obtain ⟨⟨hmonth, hmonth'⟩, hday, hyear, hlength⟩ := monthDay_mem doy (by omega)
  obtain ⟨month, hm⟩ := Int.eq_ofNat_of_zero_le (show 0 ≤ monthOfYear doy by omega)
  obtain ⟨day, hd⟩ := Int.eq_ofNat_of_zero_le (show 0 ≤ dayOfMonth doy by omega)
  rw [hm] at hmonth hmonth' hyear hlength
  rw [hd] at hday hlength
  rw [Int.toNat_natCast] at hlength
  let year : ℕ := y + 400 * era + (if month ≤ 2 then 1 else 0)
  have hyear_eq : year = y + 400 * era + (if month ≤ 2 then 1 else 0) := rfl
  have hbounds : 1 ≤ year ∧ year ≤ 9999 := by
    unfold yearStart at hdoy
    split_ifs at hyear_eq with hend <;> omega
  have hdays : day ≤ daysInMonth year month := by
    rcases hlength with hle | ⟨hdoy', hfeb, hday'⟩
    · exact (Int.ofNat_le.mp hle).trans (daysInMonth_one_le year month)
    · obtain rfl : month = 2 := by omega
      have hyear' : year = y + 1 + 400 * era := by
        rw [hyear_eq, if_pos le_rfl]
        omega
      have hleap' : isLeap year = true := by
        rw [hyear', isLeap_add]
        exact hleap (by omega)
      rw [daysInMonth, if_pos rfl, if_pos hleap']
      omega
  have hvalid : (1 ≤ year ∧ year ≤ 9999) ∧ (1 ≤ month ∧ month ≤ 12) ∧ 1 ≤ day ∧
      day ≤ daysInMonth year month := by
    omega
  refine ⟨⟨year, month, day, hbounds.2, hvalid.2.1.2, hdays.trans (daysInMonth_le year month)⟩,
    dif_pos hvalid, ?_⟩
  rw [civilFromDays_eq]
  dsimp only
  rw [hdoe', hyoe, hdoy, hm, hd, hera, hyear_eq]
  refine Prod.ext ?_ rfl
  push_cast
  split_ifs <;> omega

theorem exists_ofYmd_iff {year month day : ℕ} :
    (∃ d, ofYmd year month day = some d) ↔
      (1 ≤ year ∧ year ≤ 9999) ∧ (1 ≤ month ∧ month ≤ 12) ∧ 1 ≤ day ∧ day ≤ daysInMonth year month := by
  unfold ofYmd
  split_ifs with h
  · exact iff_of_true ⟨_, rfl⟩ h
  · refine iff_of_false ?_ h
    rintro ⟨d, hd⟩
    cases hd

theorem not_isLeap_pred {year : ℕ} (hyear : 1 ≤ year) (h : isLeap year = true) :
    ¬ isLeap (year - 1) = true := by
  unfold isLeap at h ⊢
  simp only [Bool.and_eq_true, decide_eq_true_eq] at h ⊢
  omega

/-- No date a year before the first year, and none before a leap day. -/
theorem exists_ofYmd_pred {d : Date} (hd : d.IsValid) :
    (∃ e, ofYmd (d.year - 1) d.month d.day = some e) ↔ d.year ≠ 1 ∧ ¬ (d.month = 2 ∧ d.day = 29) := by
  obtain ⟨hyear, hmonth, hday, hlength⟩ := exists_ofYmd_iff.mp ⟨d, hd⟩
  rw [exists_ofYmd_iff]
  by_cases hfeb : d.month = 2
  · rw [hfeb, daysInMonth, if_pos rfl] at hlength
    rw [hfeb, daysInMonth, if_pos rfl]
    by_cases hleap : isLeap d.year = true
    · rw [if_pos hleap] at hlength
      rw [if_neg (not_isLeap_pred hyear.1 hleap)]
      omega
    · rw [if_neg hleap] at hlength
      split_ifs <;> omega
  · have hsame : daysInMonth (d.year - 1) d.month = daysInMonth d.year d.month := by
      unfold daysInMonth
      rw [if_neg hfeb, if_neg hfeb]
    rw [hsame]
    omega

end Nivara.Date
