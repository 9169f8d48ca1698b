import Nivara.Common.Text
import Nivara.Common.Time

/-!
# Numbers and dates read out of texts

What `int(text)`, `Decimal(text)` and `date.fromisoformat(text)` accept.

* A text is the list of its code points. A lone surrogate, which JSON can escape and which a
  `String` cannot hold, is one of them.
* The digits of every script count as digits for `int` and `Decimal`, but not for a date.
* A `PyDecimal` keeps sign, coefficient and exponent, as `Decimal` does.
-/

namespace Nivara

/-- `str`. -/
abbrev PyStr := List ℕ

/-- A literal of the source. -/
def py (text : String) : PyStr := text.toList.map Char.toNat

namespace Literals

/-! ## Characters -/

/-- The zeros of the runs of decimal digits (`Nd`) of Unicode 15.0. -/
def decimalZeros : List ℕ :=
  [0x30, 0x660, 0x6F0, 0x7C0, 0x966, 0x9E6, 0xA66, 0xAE6, 0xB66, 0xBE6, 0xC66, 0xCE6, 0xD66, 0xDE6, 0xE50,
    0xED0, 0xF20, 0x1040, 0x1090, 0x17E0, 0x1810, 0x1946, 0x19D0, 0x1A80, 0x1A90, 0x1B50, 0x1BB0, 0x1C40,
    0x1C50, 0xA620, 0xA8D0, 0xA900, 0xA9D0, 0xA9F0, 0xAA50, 0xABF0, 0xFF10, 0x104A0, 0x10D30, 0x11066,
    0x110F0, 0x11136, 0x111D0, 0x112F0, 0x11450, 0x114D0, 0x11650, 0x116C0, 0x11730, 0x118E0, 0x11950,
    0x11C50, 0x11D50, 0x11DA0, 0x11F50, 0x16A60, 0x16AC0, 0x16B50, 0x1D7CE, 0x1D7D8, 0x1D7E2, 0x1D7EC,
    0x1D7F6, 0x1E140, 0x1E2F0, 0x1E4F0, 0x1E950, 0x1FBF0]

/-- The digit a code point stands for. -/
def toDecimal (c : ℕ) : Option ℕ := (decimalZeros.find? fun z => z ≤ c ∧ c < z + 10).map (c - ·)

/-- `str.isspace()` of one code point. -/
def isSpaceAt (c : ℕ) : Bool := isSpace (Char.ofNat c)

def isAsciiDigit (c : ℕ) : Bool := 48 ≤ c && c ≤ 57

/-- The number that ASCII digits write. -/
def number (digits : PyStr) : ℕ := digits.foldl (fun n c => 10 * n + (c - 48)) 0

def stripBy (space : ℕ → Bool) (s : PyStr) : PyStr :=
  ((s.dropWhile space).reverse.dropWhile space).reverse

/-- An optional sign: whether it is a minus, and what follows. -/
def sign : PyStr → Bool × PyStr
  | 43 :: s => (false, s)
  | 45 :: s => (true, s)
  | s => (false, s)

/-! ## `int(text)` -/

/-- Digits and spaces outside ASCII become theirs in ASCII; `?` is no part of a number. -/
def intChar (c : ℕ) : ℕ :=
  if c < 127 then c
  else if isSpaceAt c then 32
  else ((toDecimal c).map (48 + ·)).getD 63

/-- `int(text)`; `none` is a `ValueError`. Digits may be grouped by single underscores, and there
    may be 4300 of them. -/
def int (text : PyStr) : Option ℤ :=
  let (negative, body) := sign (stripBy (fun c => c = 32 || (9 ≤ c && c ≤ 13)) (text.map intChar))
  let groups := body.splitOn 95
  let digits := groups.flatten
  if (groups.all fun g => !g.isEmpty && g.all isAsciiDigit) && digits.length ≤ 4300 then
    some (if negative then -(number digits : ℤ) else number digits)
  else none

example : int (py " -1_0") = some (-10) ∧ int (py "1__0") = none := by decide +kernel

end Literals

/-! ## `Decimal(text)` -/

/-- `decimal.Decimal`. -/
inductive PyDecimal
  | finite (negative : Bool) (coefficient : ℕ) (exponent : ℤ)
  | infinity (negative : Bool)
  | nan (negative signaling : Bool) (payload : ℕ)
  deriving DecidableEq, Repr

/-- `d.is_finite() and d > 0`. -/
def PyDecimal.IsPositive : PyDecimal → Prop
  | finite negative coefficient _ => negative = false ∧ 0 < coefficient
  | _ => False

instance (d : PyDecimal) : Decidable d.IsPositive := by
  cases d <;> unfold PyDecimal.IsPositive <;> infer_instance

namespace Literals

/-- The text in ASCII, without its underscores. -/
def numericAsAscii (text : PyStr) : Option PyStr :=
  ((stripBy isSpaceAt text).filter (· ≠ 95)).mapM fun c =>
    if 0 < c ∧ c ≤ 127 then some c
    else if isSpaceAt c then some 32
    else (toDecimal c).map (48 + ·)

def lower (c : ℕ) : ℕ := if 65 ≤ c ∧ c ≤ 90 then c + 32 else c

/-- What stands after the digits of a number: nothing, or `e` and an exponent. -/
def exponent : PyStr → Option ℤ
  | [] => some 0
  | c :: s =>
    let (negative, digits) := sign s
    if lower c = 101 ∧ digits ≠ [] ∧ digits.all isAsciiDigit then
      some (if negative then -(number digits : ℤ) else number digits)
    else none

/-- A finite number, when its exponent is in the range of `decimal` (`MAX_EMAX`, `MIN_ETINY`). -/
def finite (negative : Bool) (s : PyStr) : Option PyDecimal :=
  let whole := s.takeWhile isAsciiDigit
  let rest := s.dropWhile isAsciiDigit
  let hasPoint := rest.head? = some 46
  let fraction := if hasPoint then rest.tail.takeWhile isAsciiDigit else []
  let rest := if hasPoint then rest.tail.dropWhile isAsciiDigit else rest
  if whole ++ fraction = [] then none
  else
    (exponent rest).bind fun e =>
      let coefficient := number (whole ++ fraction)
      let e := e - fraction.length
      if e + ((Nat.toDigits 10 coefficient).length - 1) ≤ 999999999999999999 ∧ -1999999999999999997 ≤ e then
        some (.finite negative coefficient e)
      else none

/-- `Decimal(text)`; `none` is an `InvalidOperation`. -/
def decimal (text : PyStr) : Option PyDecimal :=
  (numericAsAscii text).bind fun ascii =>
    let (negative, body) := sign ascii
    let word := body.map lower
    let payload (n : ℕ) := if (word.drop n).all isAsciiDigit then some (number (word.drop n)) else none
    if word = py "inf" ∨ word = py "infinity" then some (.infinity negative)
    else if word.take 3 = py "nan" then (payload 3).map (.nan negative false)
    else if word.take 4 = py "snan" then (payload 4).map (.nan negative true)
    else finite negative body

example : decimal (py " 83.25") = some (.finite false 8325 (-2)) ∧ decimal (py ".") = none ∧
    decimal (py "-NaN7") = some (.nan true false 7) := by decide +kernel

end Literals

/-! ## `date.fromisoformat(text)` -/

namespace Date

def isLeap (year : ℕ) : Bool := year % 4 = 0 && (year % 100 ≠ 0 || year % 400 = 0)

def daysInMonth (year month : ℕ) : ℕ :=
  if month = 2 then if isLeap year then 29 else 28
  else if month ∈ [4, 6, 9, 11] then 30
  else 31

theorem daysInMonth_le (year month : ℕ) : daysInMonth year month ≤ 31 := by
  unfold daysInMonth
  split_ifs <;> omega

/-- `date(year, month, day)`; `none` is a `ValueError`. -/
def ofYmd (year month day : ℕ) : Option Date :=
  if h : (1 ≤ year ∧ year ≤ 9999) ∧ (1 ≤ month ∧ month ≤ 12) ∧ 1 ≤ day ∧ day ≤ daysInMonth year month then
    some ⟨year, month, day, h.1.2, h.2.1.2, h.2.2.2.trans (daysInMonth_le year month)⟩
  else none

/-- The ordinal of January 1st; that of 1970 is 719163. -/
def newYear (year : ℕ) : ℤ :=
  let y : ℤ := year - 1
  365 * y + y / 4 - y / 100 + y / 400 + 1

/-- The day, counted from 1970-01-01. -/
def days (d : Date) : ℤ :=
  newYear d.year + ((List.range (d.month - 1)).map fun i => daysInMonth d.year (i + 1)).sum + d.day - 1 - 719163

example : (ofYmd 2000 2 29).map days = some 11016 := by decide +kernel

/-- The date of a day of an ISO week. A year has a week 53 when it starts on a Thursday, or on a
    Wednesday and is a leap year. -/
def ofIsoWeek (year week day : ℕ) : Option Date :=
  let firstWeekday := (newYear year + 6) % 7
  let weeks := if firstWeekday = 3 ∨ (firstWeekday = 2 ∧ isLeap year) then 53 else 52
  if (1 ≤ year ∧ year ≤ 9999) ∧ (1 ≤ week ∧ week ≤ weeks) ∧ 1 ≤ day ∧ day ≤ 7 then
    let monday := newYear year - firstWeekday + (if 3 < firstWeekday then 7 else 0)
    let (y, m, d) := civilFromDays (monday + (week - 1) * 7 + day - 1 - 719163)
    ofYmd y.toNat m.toNat d.toNat
  else none

/-- The number that the first `n` characters write, and what follows them. -/
def parseDigits (n : ℕ) (s : PyStr) : Option (ℕ × PyStr) :=
  if n ≤ s.length ∧ (s.take n).all Literals.isAsciiDigit then some (Literals.number (s.take n), s.drop n)
  else none

/-- What follows a dash, when one is asked for. -/
def skipDash (wanted : Bool) (s : PyStr) : Option PyStr :=
  if !wanted then some s else if s.head? = some 45 then some s.tail else none

/-- The length in UTF-8. -/
def utf8Length (s : PyStr) : ℕ :=
  (s.map fun c => if c < 0x80 then 1 else if c < 0x800 then 2 else if c < 0x10000 then 3 else 4).sum

/-- `date.fromisoformat(text)`; `none` is a `ValueError`. What follows the day is not read. -/
def fromisoformat (text : PyStr) : Option Date := do
  guard (utf8Length text ∈ [7, 8, 10] ∧ ∀ c ∈ text, c < 0xD800 ∨ 0xDFFF < c)
  let (year, s) ← parseDigits 4 text
  let dashed : Bool := s.head? = some 45
  let s ← skipDash dashed s
  if s.head? = some 87 then
    let (week, s) ← parseDigits 2 s.tail
    if s = [] then ofIsoWeek year week 1
    else
      let (day, _) ← parseDigits 1 (← skipDash dashed s)
      ofIsoWeek year week day
  else
    let (month, s) ← parseDigits 2 s
    let (day, _) ← parseDigits 2 (← skipDash dashed s)
    ofYmd year month day

example : (fromisoformat (py "2024-W01-1")).map isoformat = some "2024-01-01" ∧
    (fromisoformat (py "2024-02-30")).map isoformat = none := by decide +kernel

end Date

end Nivara
