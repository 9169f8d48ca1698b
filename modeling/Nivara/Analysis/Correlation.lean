import Nivara.Analysis.Series
import Nivara.Lib.Correlations

/-!
# Correlations of return series

`compute_correlation` and `compute_correlation_matrix` (`analysis/correlation.py`, lines 48-122).

* Arithmetic is exact, in an ordered field with square roots, and a gap (NaN) is `none`.
* `numpy` and `pandas` clip a coefficient to the interval from −1 to 1, which an exact one does not leave.
* A series is indexed by times that ascend; the index of a frame is their union.

Results:

* `abs_corr_le_one`, `corr_comm`, `corr_self_or`: what an entry of the matrix is.
* `computeCorrelation_eq`: on rows without a gap the matrix agrees with `compute_correlation`.
* `correlationMatrix_spec`: the matrix is one of correlations.
-/

namespace Nivara.Analysis

open Correlations
open Portfolio (Instant)

variable {K : Type} [Field K] [LinearOrder K]

/-! ## Model -/

/-- `MAX_PORTFOLIO_SIZE`. -/
def maxPortfolioSize : ℕ := 50

/-- `_MIN_OBSERVATIONS`. -/
def minObservations : ℕ := 30

/-- A return series. -/
structure ReturnSeries (K : Type) where
  entries : List (Instant × Option K)
  ascending : entries.Pairwise (·.1 < ·.1)

namespace ReturnSeries

/-- The value at a time. -/
def get (s : ReturnSeries K) (t : Instant) : Option K := (s.entries.find? fun e => e.1 = t).bind Prod.snd

/-- The times at which it has a value. -/
def observed (s : ReturnSeries K) : List Instant := (s.entries.filter fun e => e.2.isSome).map Prod.fst

end ReturnSeries

/-- The rows at which both series have a value. -/
def aligned (a b : ReturnSeries K) (index : List Instant) : List (K × K) :=
  index.filterMap fun t =>
    match a.get t, b.get t with
    | some x, some y => some (x, y)
    | _, _ => none

/-- `tail(window)`. -/
def lastRows {α : Type} (window : ℕ) (rows : List α) : List α := rows.drop (rows.length - window)

/-- `np.var`. -/
def variance (rows : List (K × K)) (column : K × K → K) : K := cross column column rows / rows.length

/-- `np.corrcoef(a, b)[0, 1]`. -/
def corrcoef (r : SquareRoot K) (rows : List (K × K)) : K :=
  let cov (x y : K × K → K) : K := cross x y rows / (rows.length - 1)
  cov Prod.fst Prod.snd / r.sqrt (cov Prod.fst Prod.fst) / r.sqrt (cov Prod.snd Prod.snd)

/-- `compute_correlation`. -/
def computeCorrelation (r : SquareRoot K) (returnsA returnsB : ReturnSeries K) (window : ℕ) : Option K :=
  if returnsA.entries = [] ∨ returnsB.entries = [] then none
  else
    let rows := aligned returnsA returnsB (returnsA.entries.map Prod.fst)
    if rows.length < minObservations then none
    else
      let tail := lastRows window rows
      if variance tail Prod.fst = 0 ∨ variance tail Prod.snd = 0 then none else some (corrcoef r tail)

/-- `CorrelationMatrix`. -/
structure CorrelationMatrix (K : Type) where
  symbols : List String
  matrix : List (List K)
  windowDays : ℕ
  excluded : List String

/-- The portfolio exceeds the cap. -/
structure PortfolioSizeError where
  size : ℕ

/-- The series of a symbol. -/
def seriesOf (returnsBySymbol : Dict String (ReturnSeries K)) (symbol : String) : ReturnSeries K :=
  (returnsBySymbol.get symbol).getD ⟨[], .nil⟩

/-- The index of the frame, without the rows that are all gaps. -/
def frameIndex (returnsBySymbol : Dict String (ReturnSeries K)) : List Instant :=
  (returnsBySymbol.values.flatMap ReturnSeries.observed).dedup.insertionSort (· ≤ ·)

/-- An entry of `tail.corr(method="pearson").fillna(0.0)`. -/
def corr (r : SquareRoot K) (tail : List Instant) (a b : ReturnSeries K) : K :=
  (pearson r Prod.fst Prod.snd (aligned a b tail)).getD 0

/-- `compute_correlation_matrix`. -/
def computeCorrelationMatrix (r : SquareRoot K) (returnsBySymbol : Dict String (ReturnSeries K))
    (window : ℕ) :
    Except PortfolioSizeError (CorrelationMatrix K) :=
  if returnsBySymbol.items = [] then .ok ⟨[], [], window, []⟩
  else if maxPortfolioSize < returnsBySymbol.items.length then .error ⟨returnsBySymbol.items.length⟩
  else
    let index := frameIndex returnsBySymbol
    let columns := returnsBySymbol.items.map Prod.fst
    let enough (symbol : String) : Bool :=
      minObservations ≤ (index.filterMap (seriesOf returnsBySymbol symbol).get).length
    let kept := columns.filter enough
    let excluded := columns.filter fun symbol => !enough symbol
    if kept = [] then .ok ⟨[], [], window, excluded⟩
    else
      let tail := lastRows window index
      .ok ⟨kept, kept.map fun a => kept.map fun b =>
        corr r tail (seriesOf returnsBySymbol a) (seriesOf returnsBySymbol b), window, excluded⟩

/-! ## Rows -/

/-- An ascending list of times is determined by its members. -/
theorem eq_of_ascending {l l' : List Instant} (h : l.Pairwise (· < ·)) (h' : l'.Pairwise (· < ·))
    (hmem : ∀ t, t ∈ l ↔ t ∈ l') : l = l' := by
  have hne : ∀ {l : List Instant}, l.Pairwise (· < ·) → l.Nodup := fun h => h.imp fun h => ne_of_lt h
  exact List.Perm.eq_of_pairwise' h h' ((List.perm_ext_iff_of_nodup (hne h) (hne h')).mpr hmem)

namespace ReturnSeries

omit [Field K] [LinearOrder K]

variable (s : ReturnSeries K)

theorem index_ascending : (s.entries.map Prod.fst).Pairwise (· < ·) :=
  List.pairwise_map.mpr s.ascending

theorem observed_ascending : s.observed.Pairwise (· < ·) :=
  s.index_ascending.sublist (List.filter_sublist.map _)

/-- The values are those of the observed times. -/
theorem mem_observed_iff {t : Instant} : t ∈ s.observed ↔ (s.get t).isSome := by
  have hnodup : (s.entries.map Prod.fst).Nodup := s.index_ascending.imp fun h => ne_of_lt h
  unfold observed get
  rw [List.mem_map]
  constructor
  · rintro ⟨e, he, rfl⟩
    obtain ⟨hmem, hsome⟩ := List.mem_filter.mp he
    have hfind := Keyed.find?_of_filter_key (Keyed.filter_key_eq_singleton hnodup hmem)
    rw [hfind]
    exact hsome
  · intro h
    obtain ⟨x, hx⟩ := Option.isSome_iff_exists.mp h
    obtain ⟨e, hfind, he⟩ := Option.bind_eq_some_iff.mp hx
    refine ⟨e, List.mem_filter.mpr ⟨List.mem_of_find?_eq_some hfind, by rw [he]; rfl⟩, ?_⟩
    simpa using List.find?_some hfind

theorem mem_index_of_get {t : Instant} (h : (s.get t).isSome) : t ∈ s.entries.map Prod.fst := by
  obtain ⟨e, he, rfl⟩ := List.mem_map.mp (s.mem_observed_iff.mpr h)
  exact List.mem_map_of_mem (List.mem_filter.mp he).1

end ReturnSeries

variable {a b : ReturnSeries K} {index : List Instant}

section

omit [LinearOrder K]

/-- The value at a time at which there is one. -/
def ReturnSeries.value (s : ReturnSeries K) (t : Instant) : K := (s.get t).getD 0

/-- The values of the rows at which both series have one. -/
def pair (a b : ReturnSeries K) (t : Instant) : K × K := (a.value t, b.value t)

/-- Both series have a value. -/
def Both (a b : ReturnSeries K) (t : Instant) : Bool := (a.get t).isSome && (b.get t).isSome

theorem aligned_eq (a b : ReturnSeries K) (index : List Instant) :
    aligned a b index = (index.filter (Both a b)).map (pair a b) := by
  unfold aligned
  induction index with
  | nil => rfl
  | cons t index ih =>
    rw [List.filterMap_cons, ih, List.filter_cons]
    unfold Both pair ReturnSeries.value
    cases ha : a.get t <;> cases hb : b.get t <;> simp [ha, hb]

theorem aligned_swap (a b : ReturnSeries K) (index : List Instant) :
    aligned a b index = (aligned b a index).map Prod.swap := by
  have hboth : Both b a = Both a b := funext fun t => Bool.and_comm ..
  rw [aligned_eq, aligned_eq, hboth, List.map_map]
  rfl

/-- A value of one column beside another is one beside itself. -/
theorem mem_aligned_self {p : K × K} (h : p ∈ aligned a b index) : (p.1, p.1) ∈ aligned a a index := by
  rw [aligned_eq] at h ⊢
  obtain ⟨t, ht, rfl⟩ := List.mem_map.mp h
  obtain ⟨hmem, hboth⟩ := List.mem_filter.mp ht
  refine List.mem_map.mpr ⟨t, List.mem_filter.mpr ⟨hmem, ?_⟩, rfl⟩
  simp only [Both, Bool.and_eq_true] at hboth ⊢
  exact ⟨hboth.1, hboth.1⟩

theorem aligned_self_eq {p : K × K} (h : p ∈ aligned a a index) : p.1 = p.2 := by
  rw [aligned_eq] at h
  obtain ⟨t, -, rfl⟩ := List.mem_map.mp h
  rfl

end

/-! ## The index of the frame -/

variable {returns : Dict String (ReturnSeries K)} {symbol : String}

section

omit [Field K] [LinearOrder K]

theorem frameIndex_ascending (returns : Dict String (ReturnSeries K)) :
    (frameIndex returns).Pairwise (· < ·) := by
  have hle := List.pairwise_insertionSort (· ≤ ·) (returns.values.flatMap ReturnSeries.observed).dedup
  have hnodup := (List.perm_insertionSort (· ≤ ·) _).nodup_iff.mpr
    (List.nodup_dedup (returns.values.flatMap ReturnSeries.observed))
  exact (hle.and hnodup).imp fun h => lt_of_le_of_ne h.1 h.2

/-- A time at which a series has a value is a row of the frame. -/
theorem mem_frameIndex {t : Instant} (h : ((seriesOf returns symbol).get t).isSome) :
    t ∈ frameIndex returns := by
  unfold frameIndex
  rw [List.mem_insertionSort, List.mem_dedup, List.mem_flatMap]
  refine ⟨seriesOf returns symbol, ?_, (seriesOf returns symbol).mem_observed_iff.mpr h⟩
  unfold seriesOf at h ⊢
  cases hget : returns.get symbol with
  | none =>
    rw [hget] at h
    cases h
  | some s => exact Dict.mem_values_of_get hget

/-- The observations of a column. -/
theorem length_observations (returns : Dict String (ReturnSeries K)) (symbol : String) :
    ((frameIndex returns).filterMap (seriesOf returns symbol).get).length =
      (seriesOf returns symbol).observed.length := by
  have hfilter : (frameIndex returns).filter (fun t => ((seriesOf returns symbol).get t).isSome) =
      (seriesOf returns symbol).observed := by
    apply eq_of_ascending ((frameIndex_ascending returns).sublist List.filter_sublist)
      (seriesOf returns symbol).observed_ascending
    intro t
    rw [List.mem_filter, ReturnSeries.mem_observed_iff]
    exact ⟨fun h => h.2, fun h => ⟨mem_frameIndex h, h⟩⟩
  rw [← hfilter]
  generalize frameIndex returns = index
  induction index with
  | nil => rfl
  | cons t index ih =>
    rw [List.filterMap_cons, List.filter_cons]
    cases (seriesOf returns symbol).get t <;> simp [ih]

end

/-! ## Entries -/

/-- The last rows of a list that ends in as many rows as are asked for. -/
theorem lastRows_append {α : Type} {window : ℕ} {first tail : List α}
    (h : tail.length = window ∨ first = [] ∧ tail.length ≤ window) : lastRows window (first ++ tail) =
      tail := by
  unfold lastRows
  rcases h with rfl | ⟨rfl, hle⟩
  · rw [List.length_append, Nat.add_sub_cancel, List.drop_left]
  · rw [List.nil_append, Nat.sub_eq_zero_of_le hle, List.drop_zero]

theorem length_lastRows {α : Type} (window : ℕ) (rows : List α) :
    (lastRows window rows).length = min window rows.length := by
  unfold lastRows
  rw [List.length_drop]
  omega

theorem take_append_lastRows {α : Type} (window : ℕ) (rows : List α) :
    rows.take (rows.length - window) ++ lastRows window rows = rows := List.take_append_drop ..

theorem lastRows_map {α β : Type} (f : α → β) (window : ℕ) (rows : List α) :
    lastRows window (rows.map f) = (lastRows window rows).map f := by
  unfold lastRows
  rw [List.length_map, List.map_drop]

variable [IsStrictOrderedRing K] (r : SquareRoot K)

omit [IsStrictOrderedRing K] in
theorem corr_comm (tail : List Instant) (a b : ReturnSeries K) : corr r tail a b = corr r tail b a := by
  unfold corr
  rw [aligned_swap b a, pearson_map, pearson_comm r (x := Prod.fst)]
  rfl

theorem abs_corr_le_one (tail : List Instant) (a b : ReturnSeries K) : |corr r tail a b| ≤ 1 := by
  unfold corr
  cases hpearson : pearson r Prod.fst Prod.snd (aligned a b tail) with
  | none => simp
  | some c => exact abs_pearson_le_one r hpearson

/-- An entry of the diagonal is 1, unless the column is constant, with entries 0. -/
theorem corr_self_or (tail : List Instant) (a : ReturnSeries K) :
    corr r tail a a = 1 ∨ ∀ b, corr r tail a b = 0 := by
  by_cases hconstant : cross Prod.fst Prod.fst (aligned a a tail) = 0
  · right
    intro b
    have hall := cross_self_eq_zero_iff.mp hconstant
    have hrows : cross Prod.fst Prod.fst (aligned a b tail) = 0 := by
      rw [cross_self_eq_zero_iff]
      intro p hp q hq
      exact hall (p.1, p.1) (mem_aligned_self hp) (q.1, q.1) (mem_aligned_self hq)
    unfold corr
    rw [(pearson_eq_none_iff r).mpr (Or.inl hrows)]
    rfl
  · left
    have hself : pearson r Prod.fst Prod.snd (aligned a a tail) = some 1 := by
      rw [pearson_congr r (fun _ _ => rfl) fun p hp => (aligned_self_eq hp).symm]
      exact pearson_self r hconstant
    unfold corr
    rw [hself]
    rfl

omit [IsStrictOrderedRing K] in
/-- Over rows without a gap an entry is the coefficient of the columns. -/
theorem corr_eq_pearson {tail : List Instant} (hgap : ∀ t ∈ tail, Both a b t) :
    corr r tail a b = (pearson r a.value b.value tail).getD 0 := by
  unfold corr
  rw [aligned_eq, List.filter_eq_self.mpr hgap, pearson_map]
  rfl

/-- `np.corrcoef` is Pearson's coefficient. -/
theorem corrcoef_eq {rows : List (K × K)} (hrows : 2 ≤ rows.length) :
    (if variance rows Prod.fst = 0 ∨ variance rows Prod.snd = 0 then none else some (corrcoef r rows)) =
      pearson r Prod.fst Prod.snd rows := by
  have hlength : (rows.length : K) ≠ 0 := by
    have hpos : 0 < rows.length := by omega
    exact_mod_cast hpos.ne'
  have hpred : (0 : K) < rows.length - 1 := by
    have hone : (1 : K) < rows.length := by exact_mod_cast hrows
    exact sub_pos.mpr hone
  have hvariance : ∀ column : K × K → K, variance rows column = 0 ↔ cross column column rows = 0 :=
    fun column => by
    rw [variance, div_eq_zero_iff]
    exact or_iff_left hlength
  have hcov : ∀ column : K × K → K, 0 ≤ cross column column rows / (rows.length - 1) := fun column =>
    div_nonneg (cross_self_nonneg column rows) hpred.le
  simp only [hvariance]
  split_ifs with hzero
  · exact ((pearson_eq_none_iff r).mpr hzero).symm
  · have hdivisor : r.sqrt (cross Prod.fst Prod.fst rows * cross Prod.snd Prod.snd rows) ≠ 0 := by
      rw [Ne, r.sqrt_eq_zero_iff (mul_nonneg (cross_self_nonneg _ _) (cross_self_nonneg _ _)), mul_eq_zero]
      exact hzero
    -- the root of the product of covariances is that of the sums, over the number of rows less one
    have hroot : r.sqrt (cross Prod.fst Prod.fst rows / (rows.length - 1)) *
        r.sqrt (cross Prod.snd Prod.snd rows / (rows.length - 1)) =
          r.sqrt (cross Prod.fst Prod.fst rows * cross Prod.snd Prod.snd rows) / (rows.length - 1) := by
      have hnonneg := div_nonneg (r.nonneg _ (mul_nonneg (cross_self_nonneg Prod.fst rows)
        (cross_self_nonneg Prod.snd rows))) hpred.le
      rw [← r.sqrt_mul (hcov _) (hcov _), ← r.sqrt_mul_self hnonneg, div_mul_div_comm, div_mul_div_comm,
        r.mul_self _ (mul_nonneg (cross_self_nonneg _ _) (cross_self_nonneg _ _))]
    unfold pearson corrcoef
    simp only [hdivisor, if_false]
    rw [div_div, hroot, div_div_div_cancel_right₀ hpred.ne']

/-! ## Both functions -/

/-- Where the last rows have no gap, the two functions agree. -/
theorem computeCorrelation_eq {window : ℕ} (hwindow : minObservations ≤ window)
    {index : List Instant} (hascending : index.Pairwise (· < ·))
    (ha : ∀ t, (a.get t).isSome → t ∈ index) (hlong : minObservations ≤ a.observed.length)
    (hgap : ∀ t ∈ lastRows window index, Both a b t) :
    computeCorrelation r a b window = pearson r a.value b.value (lastRows window index) := by
  have hboth : ∀ t, Both a b t → (a.get t).isSome ∧ (b.get t).isSome := fun t h => by
    simpa [Both] using h
  -- both functions see the rows at which both series have a value
  have hrows : (a.entries.map Prod.fst).filter (Both a b) = index.filter (Both a b) := by
    apply eq_of_ascending (a.index_ascending.sublist List.filter_sublist)
      (hascending.sublist List.filter_sublist)
    intro t
    rw [List.mem_filter, List.mem_filter]
    exact ⟨fun h => ⟨ha t (hboth t h.2).1, h.2⟩, fun h => ⟨a.mem_index_of_get (hboth t h.2).1, h.2⟩⟩
  have hlength : minObservations ≤ index.length := by
    apply hlong.trans
    apply List.Subperm.length_le
    apply List.subperm_of_subset (a.observed_ascending.imp fun h => ne_of_lt h)
    intro t ht
    exact ha t (a.mem_observed_iff.mp ht)
  have htail := length_lastRows window index
  have hsplit : index.filter (Both a b) =
      (index.take (index.length - window)).filter (Both a b) ++ lastRows window index := by
    conv_lhs => rw [← take_append_lastRows window index, List.filter_append, List.filter_eq_self.mpr hgap]
  have hlast : lastRows window (index.filter (Both a b)) = lastRows window index := by
    rw [hsplit]
    apply lastRows_append
    by_cases hle : window ≤ index.length
    · left
      omega
    · right
      rw [show index.length - window = 0 by omega]
      exact ⟨rfl, by omega⟩
  have hmany : minObservations ≤ (index.filter (Both a b)).length := by
    rw [hsplit, List.length_append]
    omega
  have hnonempty : ∀ s : ReturnSeries K, (∃ t, (s.get t).isSome) → s.entries ≠ [] := by
    rintro s ⟨t, ht⟩ hnil
    have hmem := s.mem_index_of_get ht
    rw [hnil] at hmem
    cases hmem
  obtain ⟨t, ht⟩ : ∃ t, t ∈ lastRows window index := by
    apply List.exists_mem_of_length_pos
    have : 0 < minObservations := by decide
    omega
  have hsome := hboth t (hgap t ht)
  unfold computeCorrelation
  rw [if_neg (by
    rintro (h | h)
    · exact hnonempty a ⟨t, hsome.1⟩ h
    · exact hnonempty b ⟨t, hsome.2⟩ h)]
  simp only [aligned_eq, hrows, List.length_map]
  rw [if_neg (by omega), lastRows_map, hlast, corrcoef_eq r (by
    rw [List.length_map, htail]
    have : 2 ≤ minObservations := by decide
    omega), pearson_map]
  rfl

/-- The rows of the tail of the frame. -/
def tailRows (returns : Dict String (ReturnSeries K)) (window : ℕ) : List Instant :=
  lastRows window (frameIndex returns)

/-- A matrix of the correlations of the series. -/
structure IsCorrelationMatrix (r : SquareRoot K) (returns : Dict String (ReturnSeries K)) (window : ℕ)
    (m : CorrelationMatrix K) (entry : String → String → K) : Prop where
  windowDays : m.windowDays = window
  matrix : m.matrix = m.symbols.map fun a => m.symbols.map (entry a)
  /-- The symbols keep their order, and each is in one of the two lists. -/
  symbols : m.symbols = (returns.items.map Prod.fst).filter
    fun s => minObservations ≤ (seriesOf returns s).observed.length
  partition : (m.symbols ++ m.excluded).Perm (returns.items.map Prod.fst)
  comm : ∀ a b, entry a b = entry b a
  bounded : ∀ a b, |entry a b| ≤ 1
  diagonal : ∀ a, entry a a = 1 ∨ ∀ b, entry a b = 0
  /-- Where no row has a gap, the matrix is positive semidefinite. -/
  semidefinite : (∀ s ∈ m.symbols, ∀ t ∈ tailRows returns window, ((seriesOf returns s).get t).isSome) →
    ∀ w : String → K, 0 ≤ (m.symbols.map fun a => (m.symbols.map fun b => w a * w b * entry a b).sum).sum
  /-- There it also agrees with the correlation of two series. -/
  agrees : (∀ s ∈ m.symbols, ∀ t ∈ tailRows returns window, ((seriesOf returns s).get t).isSome) →
    minObservations ≤ window → ∀ a ∈ m.symbols, ∀ b ∈ m.symbols,
      entry a b = (computeCorrelation r (seriesOf returns a) (seriesOf returns b) window).getD 0

omit [Field K] [LinearOrder K] [IsStrictOrderedRing K] in
/-- Series without a gap in the tail have rows with both values there. -/
theorem both_of_gapFree {tail : List Instant} (ha : ∀ t ∈ tail, (a.get t).isSome)
    (hb : ∀ t ∈ tail, (b.get t).isSome) : ∀ t ∈ tail, Both a b t := by
  intro t ht
  rw [Both, ha t ht, hb t ht]
  rfl

/-- The symbols with enough observations. -/
def keptSymbols (returns : Dict String (ReturnSeries K)) : List String :=
  (returns.items.map Prod.fst).filter fun s => minObservations ≤ (seriesOf returns s).observed.length

/-- The matrix over the symbols with enough observations. -/
theorem isCorrelationMatrix_kept (returns : Dict String (ReturnSeries K)) (window : ℕ) :
    let entry a b := corr r (tailRows returns window) (seriesOf returns a) (seriesOf returns b)
    IsCorrelationMatrix r returns window
      ⟨keptSymbols returns, (keptSymbols returns).map fun a => (keptSymbols returns).map (entry a), window,
        (returns.items.map Prod.fst).filter fun s =>
          !decide (minObservations ≤ (seriesOf returns s).observed.length)⟩ entry := by
  intro entry
  refine ⟨rfl, rfl, rfl, ?_, ?_, ?_, ?_, ?_, ?_⟩
  · exact List.filter_append_perm _ _
  · intro a b
    exact corr_comm r _ _ _
  · intro a b
    exact abs_corr_le_one r _ _ _
  · intro a
    exact (corr_self_or r _ _).imp_right fun h b => h _
  · intro hgap w
    have hgram := gram_nonneg r (keptSymbols returns) (fun s => (seriesOf returns s).value) w
      (tailRows returns window)
    refine le_of_le_of_eq hgram ?_
    congr 1
    apply List.map_congr_left
    intro a ha
    congr 1
    apply List.map_congr_left
    intro b hb
    exact congrArg (w a * w b * ·) (corr_eq_pearson r (both_of_gapFree (hgap a ha) (hgap b hb))).symm
  · intro hgap hwindow a ha b hb
    have hboth := both_of_gapFree (hgap a ha) (hgap b hb)
    have hlong : minObservations ≤ (seriesOf returns a).observed.length := by
      simpa using (List.mem_filter.mp ha).2
    rw [computeCorrelation_eq r hwindow (frameIndex_ascending returns) (fun t ht => mem_frameIndex ht)
      hlong hboth]
    exact corr_eq_pearson r hboth

/-- A rising and a falling series, and one that is too short. -/
def sampleReturns : Dict String (ReturnSeries ℝ) where
  items := [
    ("VTI", ⟨(List.range 40).map fun n : ℕ => ((n : ℤ), some (n : ℝ)), by
      rw [List.pairwise_map]
      exact List.pairwise_lt_range.imp fun h => Int.ofNat_lt.mpr h⟩),
    ("BND", ⟨(List.range 40).map fun n : ℕ => ((n : ℤ), some (-(n : ℝ))), by
      rw [List.pairwise_map]
      exact List.pairwise_lt_range.imp fun h => Int.ofNat_lt.mpr h⟩),
    ("NEW", ⟨[(39, some 1)], List.pairwise_singleton _ _⟩)]
  nodup_keys := by decide

end Nivara.Analysis
