import Nivara.Common.Time

/-!
# Staleness of a recommendation

`classify_staleness` and `apply_confidence_reduction` (`intelligence/staleness.py`). An
instant is a number of microseconds; hours are exact.

Results:

* `classifyStaleness_mono`: with ordered thresholds an older result is not fresher.
* `applyConfidenceReduction_mem`: a reduced confidence is between 0 and 100.
-/

namespace Nivara.Intelligence

/-- `StalenessLevel`. -/
inductive StalenessLevel
  | fresh
  | aging
  | stale
  | suppressed
  deriving DecidableEq, Repr

/-- The rank of a level, the freshest first. -/
def StalenessLevel.rank : StalenessLevel → ℕ
  | .fresh => 0
  | .aging => 1
  | .stale => 2
  | .suppressed => 3

/-- The three thresholds of the settings, in hours. -/
structure StalenessSettings where
  freshHours : ℚ
  agingHours : ℚ
  staleHours : ℚ

/-- The defaults of the settings. -/
def StalenessSettings.default : StalenessSettings := ⟨1, 6, 24⟩

/-- `_DEFAULT_REDUCTIONS`, in percentage points. -/
def defaultReduction : StalenessLevel → ℚ
  | .fresh => 0
  | .aging => 5
  | .stale => 15
  | .suppressed => 0

/-- `classify_staleness`. -/
def classifyStaleness (s : StalenessSettings) (createdAt now : ℤ) : StalenessLevel :=
  let hours : ℚ := ((now - createdAt : ℤ) : ℚ) / hours 1
  if hours < 0 then .fresh
  else if hours < s.freshHours then .fresh
  else if hours < s.agingHours then .aging
  else if hours < s.staleHours then .stale
  else .suppressed

/-- `apply_confidence_reduction`. -/
def applyConfidenceReduction (confidence : ℚ) (level : StalenessLevel) : ℚ :=
  if level = .suppressed then 0
  else
    let reduced := confidence - defaultReduction level
    if reduced < 0 then 0
    else if 100 < reduced then 100
    else reduced

theorem applyConfidenceReduction_mem (confidence : ℚ) (level : StalenessLevel) :
    0 ≤ applyConfidenceReduction confidence level ∧ applyConfidenceReduction confidence level ≤ 100 := by
  unfold applyConfidenceReduction
  simp only
  split_ifs with hlevel hneg hbig
  · norm_num
  · norm_num
  · norm_num
  · exact ⟨not_lt.mp hneg, not_lt.mp hbig⟩

/-- With ordered thresholds an older result is not fresher. -/
theorem classifyStaleness_mono {s : StalenessSettings} (_hfresh : s.freshHours ≤ s.agingHours)
    (_haging : s.agingHours ≤ s.staleHours) {older newer now : ℤ} (h : older ≤ newer) :
    (classifyStaleness s newer now).rank ≤ (classifyStaleness s older now).rank := by
  have hhours : ((now - newer : ℤ) : ℚ) / hours 1 ≤ ((now - older : ℤ) : ℚ) / hours 1 := by
    apply div_le_div_of_nonneg_right
    · exact_mod_cast Int.sub_le_sub_left h now
    · norm_num [hours, minutes]
  unfold classifyStaleness
  simp only
  split_ifs <;> first | decide | linarith

end Nivara.Intelligence
