import Mathlib

/-!
# Instants and dates

An aware `datetime` is an instant: an integer, the microseconds since the epoch. A `date`
is a year, a month and a day.

* `civilFromDays` is the proleptic Gregorian calendar of Python's `datetime`: the date of a
  day that is given by its distance from 1970-01-01.
* Local dates come from a time zone, which is a parameter where it is needed.

Results:

* `Date.isoformat_injective`: a date can be read back from its text.
* `minuteFloor_le`, `lt_minuteFloor`: the minute an instant lies in.
-/

namespace Nivara

/-! ## Instants -/

/-- `timedelta(minutes=n)`. -/
def minutes (n : ℤ) : ℤ := n * 60000000

/-- `timedelta(hours=n)`. -/
def hours (n : ℤ) : ℤ := minutes (n * 60)

/-- `timedelta(seconds=n)`. -/
def seconds (n : ℤ) : ℤ := n * 1000000

/-- `ts.replace(second=0, microsecond=0)`. -/
def minuteFloor (ts : ℤ) : ℤ := ts - ts % minutes 1

/-- `ts.minute`. -/
def minuteOfHour (ts : ℤ) : ℤ := ts / minutes 1 % 60

/-- A stored `datetime`, aware or naive; `None` is the absent one. -/
inductive Timestamp
  | aware (instant : ℤ)
  | naive (wall : ℤ)
  deriving DecidableEq, Repr

/-- A naive time is read as UTC: `ts.replace(tzinfo=UTC)`. -/
def Timestamp.utc : Timestamp → ℤ
  | .aware instant => instant
  | .naive wall => wall

/-- What `zoneinfo.ZoneInfo` is used for. A local time is counted like an instant, by the clock
    of the zone. -/
structure TimeZone where
  /-- `ts.astimezone(zone)`. -/
  wall : ℤ → ℤ
  /-- The instant of a local time of the zone. -/
  instant : ℤ → ℤ

theorem minuteFloor_le (ts : ℤ) : minuteFloor ts ≤ ts := by
  have hmod : 0 ≤ ts % minutes 1 := Int.emod_nonneg ts (by decide)
  unfold minuteFloor
  omega

theorem lt_minuteFloor (ts : ℤ) : ts < minuteFloor ts + minutes 1 := by
  have hmod : ts % minutes 1 < minutes 1 := Int.emod_lt_of_pos ts (by decide)
  unfold minuteFloor
  omega

/-! ## Decimal digits -/

/-- The `n` low decimal digits of `x`, least significant first. -/
def decimalDigits : (n x : ℕ) → List Char
  | 0, _ => []
  | n + 1, x => Char.ofNat (48 + x % 10) :: decimalDigits n (x / 10)

/-- `f"{x:0{width}d}"` for a number of at most `width` digits. -/
def pad (width x : ℕ) : String := String.ofList (decimalDigits width x).reverse

@[simp] theorem length_decimalDigits (n x : ℕ) : (decimalDigits n x).length = n := by
  induction n generalizing x with
  | zero => rfl
  | succ n ih => simp [decimalDigits, ih]

theorem decimalDigit_injective {a b : ℕ} (ha : a < 10) (hb : b < 10)
    (h : Char.ofNat (48 + a) = Char.ofNat (48 + b)) : a = b := by
  interval_cases a <;> interval_cases b <;> first | rfl | exact absurd h (by decide)

theorem decimalDigits_injective {n : ℕ} :
    ∀ {x y : ℕ}, x < 10 ^ n → y < 10 ^ n → decimalDigits n x = decimalDigits n y → x = y := by
  induction n with
  | zero => intro x y hx hy _; simp only [pow_zero, Nat.lt_one_iff] at hx hy; omega
  | succ n ih =>
    intro x y hx hy h
    obtain ⟨h0, h1⟩ := List.cons.inj h
    have hlow : x % 10 = y % 10 := decimalDigit_injective (by omega) (by omega) h0
    have hhigh : x / 10 = y / 10 := by
      apply ih _ _ h1 <;> rw [Nat.div_lt_iff_lt_mul (by norm_num)] <;> rwa [← pow_succ]
    omega

theorem length_pad (width x : ℕ) : (pad width x).toList.length = width := by
  simp [pad]

theorem pad_injective {width x y : ℕ} (hx : x < 10 ^ width) (hy : y < 10 ^ width)
    (h : (pad width x).toList = (pad width y).toList) : x = y := by
  unfold pad at h
  rw [String.toList_ofList, String.toList_ofList] at h
  exact decimalDigits_injective hx hy (List.reverse_injective h)

/-! ## Dates -/

/-- `datetime.date`. -/
structure Date where
  year : ℕ
  month : ℕ
  day : ℕ
  year_le : year ≤ 9999
  month_le : month ≤ 12
  day_le : day ≤ 31
  deriving DecidableEq

namespace Date

/-- `date.isoformat()`. -/
def isoformat (d : Date) : String := pad 4 d.year ++ "-" ++ pad 2 d.month ++ "-" ++ pad 2 d.day

theorem isoformat_injective {d e : Date} (h : d.isoformat = e.isoformat) : d = e := by
  have hlist : (pad 4 d.year).toList ++ '-' :: ((pad 2 d.month).toList ++ '-' :: (pad 2 d.day).toList) =
      (pad 4 e.year).toList ++ '-' :: ((pad 2 e.month).toList ++ '-' :: (pad 2 e.day).toList) := by
    simpa [isoformat] using congrArg String.toList h
  obtain ⟨hyear, hrest⟩ := List.append_inj hlist (by rw [length_pad, length_pad])
  obtain ⟨hmonth, hday⟩ := List.append_inj (List.cons.inj hrest).2 (by rw [length_pad, length_pad])
  obtain ⟨year, month, day, hy, hm, hd⟩ := d
  obtain ⟨year', month', day', hy', hm', hd'⟩ := e
  obtain rfl : year = year' := pad_injective (by norm_num; omega) (by norm_num; omega) hyear
  obtain rfl : month = month' := pad_injective (by norm_num; omega) (by norm_num; omega) hmonth
  obtain rfl : day = day' := pad_injective (by norm_num; omega) (by norm_num; omega)
    (List.cons.inj hday).2
  rfl

end Date

/-! ## The Gregorian calendar -/

/-- The year, month and day of the day `z` days after 1970-01-01. Years start in March
    here, so that a leap day ends one, and are counted in eras of 400. -/
def civilFromDays (z : ℤ) : ℤ × ℤ × ℤ :=
  let z := z + 719468
  let era := z / 146097
  let doe := z % 146097
  let yoe := (doe - doe / 1460 + doe / 36524 - doe / 146096) / 365
  let doy := doe - (365 * yoe + yoe / 4 - yoe / 100)
  let mp := (5 * doy + 2) / 153
  let day := doy - (153 * mp + 2) / 5 + 1
  let month := if mp < 10 then mp + 3 else mp - 9
  let year := yoe + era * 400 + (if month ≤ 2 then 1 else 0)
  (year, month, day)

example : civilFromDays 0 = (1970, 1, 1) ∧ civilFromDays 11016 = (2000, 2, 29) := by decide

/-- `ts.strftime("%Y%m%dT%H%M")`. -/
def minuteStamp (ts : ℤ) : String :=
  let (year, month, day) := civilFromDays (ts / hours 24)
  let minute := ts / minutes 1
  pad 4 year.toNat ++ pad 2 month.toNat ++ pad 2 day.toNat ++ "T" ++
    pad 2 (minute / 60 % 24).toNat ++ pad 2 (minute % 60).toNat

example : minuteStamp (hours 24 * 20000 + minutes 61) = "20241004T0101" := by decide +kernel

end Nivara
