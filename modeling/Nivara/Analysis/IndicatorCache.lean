import Nivara.Analysis.Technical
import Nivara.Lib.Transition
import Nivara.Lib.Views

/-!
# The indicator cache

`analyze_with_cache` (`analysis/technical.py`, lines 444–549) for one instrument: each
`GET` and each `SET` of a key `tech:{instrument_id}:{name}` is one step, and so is the
expiry of a key, at any time.

* `json.loads` gives back what `json.dumps` was given, and no one else writes the keys.
* An entry carries the run of `analyze_technical` that has computed it, which the code
  does not store. A call runs it at most once, so the runs are named by the calls, or by
  what they were given.

Results:

* `CacheCall.advance_cache`: what one step of a call does to the cache.
* `CacheState.Inv.step`: what every call that reads would see, if it is all six keys, is
  of one run.
* `assembledFromOneRun_of_run`: so every analysis assembled from the cache is of one run, in every
  interleaving in which no write completes a mixture for a call that reads.
* `exists_mixed_of_not_writesWhole`: after a write that does, reads alone lead to an
  analysis of two runs.
-/

namespace Nivara.Analysis

open Views Transition

/-! ## Model -/

/-- The number of `_WEIGHTS` that a dictionary has. -/
def loadedCount {E : Indicator → Type} (read : Entries E) : ℕ :=
  (indicators.filter fun k => (read k).isSome).length

instance : Fintype Indicator := ⟨⟨indicators, by decide⟩, mem_indicators⟩

theorem loadedCount_eq_iff {E : Indicator → Type} {read : Entries E} :
    loadedCount read = indicators.length ↔ Full read := by
  unfold loadedCount
  rw [List.length_filter_eq_length_iff]
  exact ⟨fun h k => h k (mem_indicators k), fun h k _ => h k⟩

variable {Frame ρ : Type}

/-- The entry of a key. -/
structure Entry (signals : Signals Frame) (frame : ρ → Frame) (k : Indicator) where
  result : IndicatorResult
  run : ρ
  computed : result = (analyzeTechnical signals (frame run)).result k

/-- The indicator of a run of `analyze_technical`. -/
def Entry.compute (signals : Signals Frame) (frame : ρ → Frame) (run : ρ) (k : Indicator) :
    Entry signals frame k := ⟨(analyzeTechnical signals (frame run)).result k, run, rfl⟩

/-- The keys of the instrument in Redis. -/
abbrev Cache (signals : Signals Frame) (frame : ρ → Frame) := Entries (Entry signals frame)

/-- A call, by what it does next. -/
inductive CacheCall (signals : Signals Frame) (frame : ρ → Frame)
  /-- `load_cached_indicators`: the keys to read, and what has been read. -/
  | load (run : ρ) (rest : List Indicator) (read : Cache signals frame)
  /-- `cache_indicators`: the keys to write. -/
  | store (run : ρ) (rest : List Indicator)
  /-- Returned an analysis assembled from what was read. -/
  | assembled (analysis : TechnicalAnalysis) (read : Cache signals frame)
  /-- Returned its own analysis. -/
  | analyzed (analysis : TechnicalAnalysis)

variable {signals : Signals Frame} {frame : ρ → Frame}

/-- `_assemble_from_cache`, for all six indicators. -/
def assembleFromCache (cached : Cache signals frame) (ohlcv : Frame) : TechnicalAnalysis :=
  let result := fun k => ((cached k).map Entry.result).getD insufficient
  let composite := blendIndicators result
  { result := result
    compositeScore := composite
    action := composite.map technicalActionFor
    barsAnalyzed := signals.bars ohlcv
    insufficientDataFlags := indicators.filter fun k => (result k).insufficientData }

/-- The indicator that the call writes next, with its run. -/
def CacheCall.writes : CacheCall signals frame → Option (Indicator × ρ)
  | .store run (k :: _) =>
    if ((analyzeTechnical signals (frame run)).result k).insufficientData then none else some (k, run)
  | _ => none

/-- `redis.set`. -/
def Cache.set (cache : Cache signals frame) (k : Indicator) (run : ρ) : Cache signals frame :=
  Function.update cache k (some (.compute signals frame run k))

@[simp] theorem Cache.set_self (cache : Cache signals frame) (k : Indicator) (run : ρ) :
    cache.set k run k = some (.compute signals frame run k) :=
  Function.update_self ..

theorem Cache.set_of_ne (cache : Cache signals frame) {k k' : Indicator} (run : ρ) (h : k' ≠ k) :
    cache.set k run k' = cache k' :=
  Function.update_of_ne h ..

/-- The next step of a call of `analyze_with_cache`: the cache after it, and the call. -/
def CacheCall.advance (cache : Cache signals frame) :
    CacheCall signals frame → Option (Cache signals frame × CacheCall signals frame)
  | .load run (k :: rest) read => some (cache, .load run rest (Function.update read k (cache k)))
  | .load run [] read =>
    if loadedCount read = indicators.length then
      some (cache, .assembled (assembleFromCache read (frame run)) read)
    else some (cache, .store run indicators)
  | .store run (k :: rest) =>
    if ((analyzeTechnical signals (frame run)).result k).insufficientData then
      some (cache, .store run rest)
    else some (cache.set k run, .store run rest)
  | .store run [] => some (cache, .analyzed (analyzeTechnical signals (frame run)))
  | .assembled _ _ => none
  | .analyzed _ => none

/-- The cache, and the calls on it. -/
structure CacheState (signals : Signals Frame) (frame : ρ → Frame) (ι : Type) where
  cache : Cache signals frame
  calls : ι → CacheCall signals frame

/-- What happens next. -/
inductive CacheLabel (ι : Type)
  | advance (i : ι)
  /-- The time to live of a key runs out. -/
  | expire (k : Indicator)

variable {ι : Type} [DecidableEq ι]

/-- One step of the system. -/
def CacheState.step (s : CacheState signals frame ι) : CacheLabel ι → Option (CacheState signals frame ι)
  | .advance i =>
    ((s.calls i).advance s.cache).map fun (cache, c) => ⟨cache, Function.update s.calls i c⟩
  | .expire k => some { s with cache := Function.update s.cache k none }

/-- Before the calls: nothing is cached, and each call has its own price frame. -/
def CacheState.initial (signals : Signals Frame) (frame : ι → Frame) : CacheState signals frame ι :=
  ⟨empty, fun i => .load i indicators empty⟩

/-! ## What is to hold -/

/-- All six indicators of the analysis, and the entries it was assembled from, are of one
    run. -/
def FromOneRun (analysis : TechnicalAnalysis) (read : Cache signals frame) : Prop :=
  ∃ run, ∀ k, (∃ e ∈ read k, e.run = run) ∧
    analysis.result k = (analyzeTechnical signals (frame run)).result k

/-- Every analysis assembled from the cache is of one run. -/
def CacheState.AssembledFromOneRun (s : CacheState signals frame ι) : Prop :=
  ∀ i analysis read, s.calls i = .assembled analysis read → FromOneRun analysis read

/-- If the call has yet to read the key `k`, and would now find all six keys, the entries
    are of this run. -/
def CacheCall.SeesOnly (k : Indicator) (run : ρ) (cache : Cache signals frame) :
    CacheCall signals frame → Prop
  | .load _ rest read => k ∈ rest → Full (view cache rest read) →
    OriginIs (fun _ => Entry.run) run (view cache rest read)
  | _ => True

/-- The condition on a step: a write of a key leaves each call that has yet to read it with
    another key missing, or with entries of the writer's run only. -/
def CacheState.WritesWhole (s : CacheState signals frame ι) : CacheLabel ι → Prop
  | .advance i => ∀ w ∈ (s.calls i).writes, ∀ j, (s.calls j).SeesOnly w.1 w.2 (s.cache.set w.1 w.2)
  | .expire _ => True

instance [DecidableEq ρ] (k : Indicator) (run : ρ) (cache : Cache signals frame)
    (c : CacheCall signals frame) : Decidable (c.SeesOnly k run cache) := by
  unfold CacheCall.SeesOnly Full OriginIs
  split <;> infer_instance

instance [DecidableEq ρ] [Fintype ι] (s : CacheState signals frame ι) (l : CacheLabel ι) :
    Decidable (s.WritesWhole l) := by
  unfold CacheState.WritesWhole
  split <;> infer_instance

/-! ## The invariant -/

/-- A call sees entries of one run, or not all six. -/
def CacheCall.Whole (cache : Cache signals frame) : CacheCall signals frame → Prop
  | .load _ rest read => OfOne (fun _ => Entry.run) (view cache rest read)
  | .assembled analysis read => FromOneRun analysis read
  | _ => True

/-- The invariant of the interleaving. -/
def CacheState.Inv (s : CacheState signals frame ι) : Prop := ∀ i, (s.calls i).Whole s.cache

section

variable {cache cache' : Cache signals frame} {c c' : CacheCall signals frame}

/-- An analysis is assembled from what was read. -/
theorem fromOneRun_assemble {read : Cache signals frame} (ohlcv : Frame) (hfull : Full read)
    (h : OfOne (fun _ => Entry.run) read) : FromOneRun (assembleFromCache read ohlcv) read := by
  obtain ⟨run, hrun⟩ := h hfull
  refine ⟨run, fun k => ?_⟩
  obtain ⟨e, he⟩ := Option.isSome_iff_exists.mp (hfull k)
  have hof : e.run = run := hrun k e he
  refine ⟨⟨e, he, hof⟩, ?_⟩
  have hresult : (assembleFromCache read ohlcv).result k = e.result := by
    simp [assembleFromCache, he]
  rw [hresult, e.computed, hof]

/-- What one step does to the cache. -/
theorem CacheCall.advance_cache (h : c.advance cache = some (cache', c')) :
    (c.writes = none ∧ cache' = cache) ∨
      ∃ k run, c.writes = some (k, run) ∧ cache' = cache.set k run := by
  cases c with
  | load run rest read =>
    cases rest with
    | nil =>
      simp only [advance] at h
      split_ifs at h <;> cases h <;> exact .inl ⟨rfl, rfl⟩
    | cons k rest =>
      cases h
      exact .inl ⟨rfl, rfl⟩
  | store run rest =>
    cases rest with
    | nil =>
      cases h
      exact .inl ⟨rfl, rfl⟩
    | cons k rest =>
      simp only [advance] at h
      simp only [writes]
      split_ifs at h ⊢ <;> cases h
      · exact .inl ⟨rfl, rfl⟩
      · exact .inr ⟨k, run, rfl, rfl⟩
  | assembled analysis read => cases h
  | analyzed analysis => cases h

theorem CacheCall.advance_of_writes {k : Indicator} {run : ρ} (hwrites : c.writes = some (k, run))
    (h : c.advance cache = some (cache', c')) : cache' = cache.set k run := by
  obtain ⟨hnone, -⟩ | ⟨k', run', hsome, rfl⟩ := advance_cache h
  · cases hnone.symm.trans hwrites
  · obtain ⟨rfl, rfl⟩ := Prod.mk.inj (Option.some.inj (hsome.symm.trans hwrites))
    rfl

/-- One step of a call keeps what it sees. -/
theorem CacheCall.Whole.advance (hwhole : c.Whole cache) (h : c.advance cache = some (cache', c')) :
    c'.Whole cache' := by
  cases c with
  | load run rest read =>
    cases rest with
    | nil =>
      simp only [CacheCall.advance] at h
      split_ifs at h with hall <;> cases h
      · exact fromOneRun_assemble _ (loadedCount_eq_iff.mp hall) hwhole
      · trivial
    | cons k rest =>
      cases h
      show OfOne _ (view cache rest (Function.update read k (cache k)))
      rw [view_read]
      exact hwhole
  | store run rest =>
    cases rest with
    | nil =>
      cases h
      trivial
    | cons k rest =>
      simp only [CacheCall.advance] at h
      split_ifs at h <;> cases h <;> trivial
  | assembled analysis read => cases h
  | analyzed analysis => cases h

/-- A write after which the call sees entries of the writer's run only. -/
theorem CacheCall.Whole.write {k : Indicator} {run : ρ} (hwhole : c.Whole cache)
    (h : c.SeesOnly k run (cache.set k run)) : c.Whole (cache.set k run) := by
  cases c with
  | load run' rest read =>
    by_cases hk : k ∈ rest
    · exact fun hfull => ⟨run, h hk hfull⟩
    · show OfOne _ (view (Function.update cache k _) rest read)
      rw [view_update_of_not_mem hk]
      exact hwhole
  | assembled analysis read => exact hwhole
  | _ => trivial

theorem CacheCall.Whole.expire (hwhole : c.Whole cache) (k : Indicator) :
    c.Whole (Function.update cache k none) := by
  cases c with
  | load run rest read => exact OfOne.delete hwhole
  | assembled analysis read => exact hwhole
  | _ => trivial

end

variable {s t : CacheState signals frame ι}

/-- One step of the system keeps the invariant. -/
theorem CacheState.Inv.step (h : s.Inv) {l : CacheLabel ι} (hcond : s.WritesWhole l)
    (hstep : s.step l = some t) : t.Inv := by
  cases l with
  | advance i =>
    obtain ⟨⟨cache, c⟩, hadvance, ht⟩ := Option.map_eq_some_iff.mp hstep
    obtain rfl : t = ⟨cache, Function.update s.calls i c⟩ := ht.symm
    intro j
    show (Function.update s.calls i c j).Whole cache
    by_cases hj : j = i
    · rw [hj, Function.update_self]
      exact (h i).advance hadvance
    · rw [Function.update_of_ne hj]
      obtain ⟨-, rfl⟩ | ⟨k, run, hwrites, rfl⟩ := CacheCall.advance_cache hadvance
      · exact h j
      · exact (h j).write (hcond (k, run) hwrites j)
  | expire k =>
    cases hstep
    exact fun j => (h j).expire k

/-- In every interleaving in which each write leaves the calls that read with a missing key
    or with entries of the writer's run: an analysis assembled from the cache is of one
    run. -/
theorem assembledFromOneRun_of_run (signals : Signals Frame) (frame : ι → Frame)
    (s : CacheState signals frame ι)
    (hrun : Run (fun s l t => s.step l = some t) (fun s l => s.WritesWhole l)
      (CacheState.initial signals frame) s) : s.AssembledFromOneRun := by
  have hinv : s.Inv := by
    refine hrun.invariant ?_ fun _ _ _ h hcond hstep => h.step hcond hstep
    rintro i hfull
    exact absurd (hfull .rsi) (by simp [view, empty, CacheState.initial])
  intro i analysis read hcall
  have hwhole := hinv i
  rw [hcall] at hwhole
  exact hwhole

/-! ## The condition is needed -/

theorem CacheState.step_advance {i : ι} {c : CacheCall signals frame} {cache : Cache signals frame}
    (h : (s.calls i).advance s.cache = some (cache, c)) :
    s.step (.advance i) = some ⟨cache, Function.update s.calls i c⟩ := by
  simp [step, h]

/-- A call reads the other keys as they are now. -/
theorem exists_run_loaded {j : ι} {run : ρ} {rest : List Indicator} {read : Cache signals frame}
    (hcall : s.calls j = .load run rest read) :
    ∃ u, Run (fun (s : CacheState signals frame ι) l t => s.step l = some t) Unconditional s u ∧
      u.cache = s.cache ∧ u.calls j = .load run [] (view s.cache rest read) := by
  induction rest generalizing s read with
  | nil => exact ⟨s, .refl, rfl, hcall⟩
  | cons k rest ih =>
    let s' : CacheState signals frame ι := ⟨s.cache, Function.update s.calls j
      (.load run rest (Function.update read k (s.cache k)))⟩
    have hstep : s.step (.advance j) = some s' := CacheState.step_advance (by rw [hcall]; rfl)
    have hcall' : s'.calls j = .load run rest (Function.update read k (s.cache k)) :=
      Function.update_self ..
    obtain ⟨u, hrun, hcache, hloaded⟩ := ih hcall'
    rw [view_read] at hloaded
    exact ⟨u, (Run.tail _ .refl trivial hstep).trans hrun, hcache, hloaded⟩

theorem CacheCall.of_not_seesOnly {k : Indicator} {run : ρ} {cache : Cache signals frame}
    {c : CacheCall signals frame} (h : ¬ c.SeesOnly k run cache) :
    ∃ run' rest read, c = .load run' rest read ∧ k ∈ rest ∧ Full (view cache rest read) ∧
      ¬ OriginIs (fun _ => Entry.run) run (view cache rest read) := by
  cases c with
  | load run' rest read =>
    simp only [SeesOnly, Classical.not_imp] at h
    exact ⟨run', rest, read, rfl, h⟩
  | _ => exact absurd trivial h

/-- After a write that does not meet the condition, the reads of one call lead to an
    analysis that is not of one run. -/
theorem exists_mixed_of_not_writesWhole {l : CacheLabel ι} (hstep : s.step l = some t)
    (hcond : ¬ s.WritesWhole l) :
    ∃ u, Run (fun (s : CacheState signals frame ι) l t => s.step l = some t) Unconditional t u ∧
      ¬ u.AssembledFromOneRun := by
  cases l with
  | expire k => exact absurd trivial hcond
  | advance i =>
    simp only [CacheState.WritesWhole, not_forall] at hcond
    obtain ⟨⟨k, run⟩, hwrites, j, hmixed⟩ := hcond
    obtain ⟨⟨cache, c⟩, hadvance, ht⟩ := Option.map_eq_some_iff.mp hstep
    obtain rfl : t = ⟨cache, Function.update s.calls i c⟩ := ht.symm
    obtain rfl := CacheCall.advance_of_writes hwrites hadvance
    obtain ⟨run', rest, read, hcall, hk, hfull, hmixed⟩ := CacheCall.of_not_seesOnly hmixed
    have hne : j ≠ i := by
      rintro rfl
      rw [hcall] at hwrites
      cases hwrites
    -- The call reads the rest, finds all six keys and assembles them.
    obtain ⟨u, hrun, -, hloaded⟩ := exists_run_loaded
      (s := ⟨s.cache.set k run, Function.update s.calls i c⟩)
      ((Function.update_of_ne hne ..).trans hcall)
    let seen := view (s.cache.set k run) rest read
    have hassemble : u.step (.advance j) = some ⟨u.cache, Function.update u.calls j
        (.assembled (assembleFromCache seen (frame run')) seen)⟩ := by
      refine CacheState.step_advance ?_
      rw [hloaded]
      exact if_pos (loadedCount_eq_iff.mpr hfull)
    refine ⟨_, hrun.tail _ trivial hassemble, fun hone => hmixed ?_⟩
    obtain ⟨run₀, hread⟩ := hone j _ seen (Function.update_self ..)
    have horigin : OriginIs (fun _ => Entry.run) run₀ seen := by
      intro k' e he
      obtain ⟨e', he', hof⟩ := (hread k').1
      rw [← hof, Option.some.inj (he.symm.trans he')]
    have hrun₀ : run = run₀ := horigin k (.compute signals frame run k) (view_update_self hk _)
    rwa [← hrun₀] at horigin

/-! ## Three calls -/

/-- A frame is given as its signal. -/
def sampleSignals : Signals ℚ := ⟨fun _ => 252, fun frame _ => some (frame, frame)⟩

def sampleFrame (i : Fin 3) : ℚ := i / 4

/-- A call that computes: six reads, the choice, and the first `n` writes. -/
def computes (i : Fin 3) (n : ℕ) : List (CacheLabel (Fin 3)) := List.replicate (7 + n) (.advance i)

/-- A call that finds all six keys. -/
def assembles (i : Fin 3) : List (CacheLabel (Fin 3)) := List.replicate 7 (.advance i)

/-- A call computes, two more find what it has cached. -/
def callsInTurn : List (CacheLabel (Fin 3)) := computes 0 6 ++ assembles 1 ++ assembles 2

/-- Two calls compute, and the second has written one key when the third call reads. -/
def callsCrossed : List (CacheLabel (Fin 3)) :=
  computes 1 0 ++ computes 0 6 ++ [.advance 1] ++ assembles 2

theorem assembledFromOneRun_of_run_sample :
    ∃ s, callsInTurn.foldlM (fun (s : CacheState sampleSignals sampleFrame (Fin 3)) l =>
        if s.WritesWhole l then s.step l else none)
          (CacheState.initial sampleSignals sampleFrame) = some s ∧
      s.AssembledFromOneRun := by
  obtain ⟨s, hs⟩ := Option.isSome_iff_exists.mp (show (callsInTurn.foldlM
    (fun (s : CacheState sampleSignals sampleFrame (Fin 3)) l =>
      if s.WritesWhole l then s.step l else none)
        (CacheState.initial sampleSignals sampleFrame)).isSome by decide +kernel)
  exact ⟨s, hs, assembledFromOneRun_of_run sampleSignals sampleFrame s (Run.of_foldlM_guarded _ hs)⟩

/-- The runs that the indicators of an assembled analysis come from. -/
def CacheCall.runs (k : Indicator) : CacheCall signals frame → Option ρ
  | .assembled _ read => (read k).map Entry.run
  | _ => none

/-- The third call assembles the RSI of the second run and the MACD of the first one. -/
theorem runs_mixed :
    ¬ ∀ s, Run (fun (s : CacheState sampleSignals sampleFrame (Fin 3)) l t => s.step l = some t)
        Unconditional (CacheState.initial sampleSignals sampleFrame) s → s.AssembledFromOneRun := by
  intro hall
  have hrun : (callsCrossed.foldlM CacheState.step (CacheState.initial sampleSignals sampleFrame)).map
      (fun s => ((s.calls 2).runs .rsi, (s.calls 2).runs .macd)) = some (some 1, some 0) := by
    decide +kernel
  obtain ⟨s, hs, hruns⟩ := Option.map_eq_some_iff.mp hrun
  obtain ⟨hrsi, hmacd⟩ := Prod.mk.inj hruns
  have hone := hall s (Run.of_foldlM _ hs)
  cases hcall : s.calls 2 with
  | assembled analysis read =>
    obtain ⟨run, hread⟩ := hone 2 analysis read hcall
    have hof : ∀ k r, (s.calls 2).runs k = some r → r = run := by
      intro k r hr
      obtain ⟨e, he, he'⟩ := (hread k).1
      rw [hcall, CacheCall.runs, he, Option.map_some] at hr
      exact (Option.some.inj hr).symm.trans he'
    exact absurd ((hof .rsi 1 hrsi).trans (hof .macd 0 hmacd).symm) (by decide)
  | load run rest read => rw [hcall] at hrsi; cases hrsi
  | store run rest => rw [hcall] at hrsi; cases hrsi
  | analyzed analysis => rw [hcall] at hrsi; cases hrsi

end Nivara.Analysis
