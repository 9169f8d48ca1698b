import Nivara.Common.Bytes
import Nivara.Lib.Glob

/-!
# Keys of the market data cache

`data/cache.py`: `ohlcv_key`, `fundamentals_key`, `quote_key` (lines 47–56) and `invalidate_symbol`
(lines 115–125).

* The cache holds the payloads of its keys. A key whose time to live has passed is not in it.
* `SCAN` with `MATCH` reads the pattern byte by byte: `*`, `?`, classes in brackets with ranges and `^`,
  and `\` before a byte that stands for itself.
* A scan yields each key that is there and matches, as often and in the order it likes.

Results:

* `matches_plain_iff`: which keys match where the names have no special byte.
* `invalidated_iff`: when the keys of a symbol are deleted, and no others.
* `tickerPrefix_deletes`: a symbol that another one starts with.
-/

namespace Nivara.MarketData

open Glob

/-! ## Keys -/

def ohlcvKey (provider symbol : String) (lookbackDays : ℤ) : String :=
  s!"data:{provider}:ohlcv:{symbol}:{lookbackDays}"

def fundamentalsKey (provider symbol : String) : String := s!"data:{provider}:fundamentals:{symbol}"

def quoteKey (provider symbol : String) : String := s!"data:{provider}:quote:{symbol}"

/-- The keys of a symbol. -/
inductive KeyOf (provider symbol : String) : String → Prop
  | ohlcv (lookbackDays : ℤ) : KeyOf provider symbol (ohlcvKey provider symbol lookbackDays)
  | fundamentals : KeyOf provider symbol (fundamentalsKey provider symbol)
  | quote : KeyOf provider symbol (quoteKey provider symbol)

/-! ## Redis -/

/-- Where a pattern is read: outside of a class, or inside of one with the members read so far. -/
inductive Mode
  | outside
  | inside (negated : Bool) (members : UInt8 → Bool)

/-- A symbol of a class, or of none that it excludes. -/
def classToken (negated : Bool) (members : UInt8 → Bool) : Token UInt8 :=
  .single fun byte => members byte ^^ negated

/-- The tokens of a pattern. A class that is not closed ends with the pattern. -/
def tokens : Mode → Bytes → List (Token UInt8)
  | .outside, [] => []
  | .outside, byte :: pattern =>
    if byte = '*'.toUInt8 then .star :: tokens .outside pattern
    else if byte = '?'.toUInt8 then .single (fun _ => true) :: tokens .outside pattern
    else if byte = '['.toUInt8 then
      match pattern with
      | [] => [classToken false fun _ => false]
      | next :: rest =>
        if next = '^'.toUInt8 then tokens (.inside true fun _ => false) rest
        else tokens (.inside false fun _ => false) (next :: rest)
    else if byte = '\\'.toUInt8 then
      match pattern with
      | [] => [literal byte]
      | next :: rest => literal next :: tokens .outside rest
    else literal byte :: tokens .outside pattern
  | .inside negated members, [] => [classToken negated members]
  | .inside negated members, [byte] =>
    if byte = ']'.toUInt8 then [classToken negated members]
    else [classToken negated fun c => members c || c == byte]
  | .inside negated members, byte :: next :: rest =>
    if byte = '\\'.toUInt8 then tokens (.inside negated fun c => members c || c == next) rest
    else if byte = ']'.toUInt8 then classToken negated members :: tokens .outside (next :: rest)
    else
      match rest with
      | [] => tokens (.inside negated fun c => members c || c == byte) [next]
      | last :: rest =>
        if next = '-'.toUInt8 then
          tokens (.inside negated fun c => members c || (min byte last ≤ c && c ≤ max byte last)) rest
        else tokens (.inside negated fun c => members c || c == byte) (next :: last :: rest)

/-- Whether `SCAN` with `MATCH` yields a key. -/
def scanMatches (pattern key : String) : Bool :=
  stringmatch (tokens .outside (encodeUtf8 pattern)) (encodeUtf8 key)

example : scanMatches "h[^a-c]?\\*[x-]*" "hel*" = false ∧ scanMatches "h[^a-c]?\\*[x-]" "hel*x" = true := by
  decide +kernel

abbrev Cache := String → Option String

/-- A run of `scan_iter`. -/
structure Scan (pattern : String) (cache : Cache) where
  yielded : List String
  mem_yielded : ∀ key, key ∈ yielded ↔ (cache key).isSome ∧ scanMatches pattern key

/-- `DEL key`, with the number of keys it deletes. -/
def delete (key : String) (cache : Cache) : ℕ × Cache :=
  (if (cache key).isSome then 1 else 0, Function.update cache key none)

/-! ## `invalidate_symbol` -/

def pattern (provider symbol : String) : String := s!"data:{provider}:*:{symbol}*"

/-- The loop over the keys of a scan. -/
def deleteAll : List String → ℕ → Cache → ℕ × Cache
  | [], deleted, cache => (deleted, cache)
  | key :: keys, deleted, cache =>
    let (n, cache) := delete key cache
    deleteAll keys (deleted + n) cache

/-- `invalidate_symbol`: the number of deleted keys, and the cache afterwards. -/
def invalidateSymbol {provider symbol : String} {cache : Cache}
    (scan : Scan (pattern provider symbol) cache) : ℕ × Cache :=
  deleteAll scan.yielded 0 cache

/-! ## Properties -/

/-- A key of another symbol, or of another provider. -/
def Foreign (provider symbol key : String) : Prop :=
  ∃ provider' symbol', (provider', symbol') ≠ (provider, symbol) ∧ KeyOf provider' symbol' key

/-- The keys of the symbol are deleted, and no key of another one. -/
structure Invalidated (provider symbol : String) (before after : Cache) : Prop where
  own : ∀ key, KeyOf provider symbol key → after key = none
  foreign : ∀ key, Foreign provider symbol key → after key = before key

/-- A text without the bytes that a pattern reads in another way than as themselves. -/
def Plain (text : String) : Prop :=
  ∀ byte ∈ encodeUtf8 text, byte ∉ ['*', '?', '[', '\\'].map Char.toUInt8

/-- The key starts with `data:`, the provider and a colon, and somewhere behind there is a colon with the
    symbol. -/
def HasForm (provider symbol key : String) : Prop :=
  ∃ kind rest, encodeUtf8 key =
    encodeUtf8 s!"data:{provider}:" ++ kind ++ encodeUtf8 s!":{symbol}" ++ rest

/-! ## The pattern -/

section Pattern

variable {provider symbol key : String} {text rest : Bytes}

theorem encodeUtf8_append (a b : String) : encodeUtf8 (a ++ b) = encodeUtf8 a ++ encodeUtf8 b := by
  unfold encodeUtf8
  rw [String.toByteArray_append]
  simp

/-- Bytes without a meaning of their own stand for themselves. -/
theorem tokens_plain (h : ∀ byte ∈ text, byte ∉ ['*', '?', '[', '\\'].map Char.toUInt8) :
    tokens .outside (text ++ rest) = text.map literal ++ tokens .outside rest := by
  induction text with
  | nil => rfl
  | cons byte text ih =>
    have hbyte := h byte List.mem_cons_self
    simp only [List.map_cons, List.map_nil, List.mem_cons, List.not_mem_nil, or_false, not_or] at hbyte
    obtain ⟨hstar, hany, hclass, hescape⟩ := hbyte
    rw [List.cons_append, tokens.eq_def]
    dsimp only
    rw [if_neg hstar, if_neg hany, if_neg hclass, if_neg hescape,
      ih fun c hc => h c (List.mem_cons_of_mem _ hc)]
    rfl

theorem tokens_star : tokens .outside ('*'.toUInt8 :: rest) = .star :: tokens .outside rest := by
  rw [tokens.eq_def]
  exact if_pos rfl

theorem Plain.append {a b : String} (ha : Plain a) (hb : Plain b) : Plain (a ++ b) := by
  unfold Plain
  rw [encodeUtf8_append]
  exact fun byte hbyte => (List.mem_append.mp hbyte).elim (ha byte) (hb byte)

/-- The keys that match a pattern of plain names. -/
theorem matches_plain_iff (hprovider : Plain provider) (hsymbol : Plain symbol) :
    scanMatches (pattern provider symbol) key ↔ HasForm provider symbol key := by
  have hdata : Plain "data:" := by unfold Plain; decide +kernel
  have hcolon : Plain ":" := by unfold Plain; decide +kernel
  have hfront : Plain s!"data:{provider}:" := (hdata.append hprovider).append hcolon
  have hback : Plain s!":{symbol}" := hcolon.append hsymbol
  have hpattern : encodeUtf8 (pattern provider symbol) =
      encodeUtf8 s!"data:{provider}:" ++ '*'.toUInt8 :: (encodeUtf8 s!":{symbol}" ++ ['*'.toUInt8]) := by
    have hstar : encodeUtf8 "*" = ['*'.toUInt8] := by decide +kernel
    have hkind : encodeUtf8 ":*:" = encodeUtf8 ":" ++ '*'.toUInt8 :: encodeUtf8 ":" := by decide +kernel
    unfold pattern
    simp only [encodeUtf8_append, toString, hstar, hkind, List.append_assoc, List.cons_append]
  unfold scanMatches HasForm
  rw [hpattern, tokens_plain hfront, tokens_star, tokens_plain hback, tokens_star]
  simp only [stringmatch_append_iff, stringmatch_literals, stringmatch_star]
  constructor
  · rintro ⟨_, _, hkey, rfl, kind, _, rfl, _, _, rfl, rfl, rest, v, rfl, -⟩
    exact ⟨kind, rest ++ v, by rw [hkey]; simp only [List.append_assoc]⟩
  · rintro ⟨kind, rest, hkey⟩
    refine ⟨_, _, ?_, rfl, kind, _, rfl, _, _, rfl, rfl, rest, [], rfl, rfl⟩
    rw [hkey]
    simp only [List.append_assoc, List.append_nil]

theorem KeyOf.hasForm (h : KeyOf provider symbol key) : HasForm provider symbol key := by
  unfold HasForm
  cases h with
  | ohlcv lookbackDays =>
    refine ⟨encodeUtf8 "ohlcv", encodeUtf8 s!":{lookbackDays}", ?_⟩
    have hkind : encodeUtf8 ":ohlcv:" = encodeUtf8 ":" ++ encodeUtf8 "ohlcv" ++ encodeUtf8 ":" := by
      decide +kernel
    unfold ohlcvKey
    simp only [encodeUtf8_append, toString, hkind, List.append_assoc]
  | fundamentals =>
    refine ⟨encodeUtf8 "fundamentals", [], ?_⟩
    have hkind : encodeUtf8 ":fundamentals:" =
        encodeUtf8 ":" ++ encodeUtf8 "fundamentals" ++ encodeUtf8 ":" := by
      decide +kernel
    unfold fundamentalsKey
    simp only [encodeUtf8_append, toString, hkind, List.append_assoc, List.append_nil]
  | quote =>
    refine ⟨encodeUtf8 "quote", [], ?_⟩
    have hkind : encodeUtf8 ":quote:" = encodeUtf8 ":" ++ encodeUtf8 "quote" ++ encodeUtf8 ":" := by
      decide +kernel
    unfold quoteKey
    simp only [encodeUtf8_append, toString, hkind, List.append_assoc, List.append_nil]

end Pattern

/-! ## Deletion -/

theorem deleteAll_snd (keys : List String) (deleted : ℕ) (cache : Cache) (key : String) :
    (deleteAll keys deleted cache).2 key = if key ∈ keys then none else cache key := by
  induction keys generalizing deleted cache with
  | nil => rfl
  | cons first keys ih =>
    have hrest := ih (deleted + (delete first cache).1) (delete first cache).2
    rw [deleteAll, hrest]
    unfold delete
    by_cases hfirst : key = first
    · subst hfirst
      simp
    · simp [hfirst]

section Scan

variable {provider symbol key : String} {cache : Cache}

/-- What is left of a cache. -/
theorem invalidateSymbol_snd (scan : Scan (pattern provider symbol) cache) :
    (invalidateSymbol scan).2 key = if scanMatches (pattern provider symbol) key then none else cache key := by
  unfold invalidateSymbol
  rw [deleteAll_snd]
  by_cases hmatch : scanMatches (pattern provider symbol) key
  · rw [if_pos hmatch]
    split_ifs with hkey
    · rfl
    · rw [scan.mem_yielded, not_and] at hkey
      by_contra hsome
      exact hkey (Option.isSome_iff_ne_none.mpr hsome) hmatch
  · rw [if_neg hmatch, if_neg fun hkey => hmatch ((scan.mem_yielded key).mp hkey).2]

/-- The keys are invalidated when the pattern tells the cached ones of the symbol from those of others. -/
theorem invalidated_iff_matches (scan : Scan (pattern provider symbol) cache) :
    Invalidated provider symbol cache (invalidateSymbol scan).2 ↔
      ∀ key, (cache key).isSome →
        (KeyOf provider symbol key → scanMatches (pattern provider symbol) key) ∧
          (Foreign provider symbol key → ¬ scanMatches (pattern provider symbol) key) := by
  constructor
  · rintro ⟨hown, hforeign⟩ key hsome
    refine ⟨fun hkey => ?_, fun hkey hmatch => ?_⟩
    · by_contra hmatch
      have hgone := hown key hkey
      rw [invalidateSymbol_snd, if_neg hmatch] at hgone
      exact Option.isSome_iff_ne_none.mp hsome hgone
    · have hsame := hforeign key hkey
      rw [invalidateSymbol_snd, if_pos hmatch] at hsame
      exact Option.isSome_iff_ne_none.mp hsome hsame.symm
  · intro h
    refine ⟨fun key hkey => ?_, fun key hkey => ?_⟩
    · rw [invalidateSymbol_snd]
      split_ifs with hmatch
      · rfl
      · by_contra hsome
        exact hmatch ((h key (Option.isSome_iff_ne_none.mpr hsome)).1 hkey)
    · rw [invalidateSymbol_snd]
      split_ifs with hmatch
      · by_contra hsome
        exact (h key (Option.isSome_iff_ne_none.mpr (Ne.symm hsome))).2 hkey hmatch
      · rfl

/-- A cache with one key. -/
def single (key : String) : Cache := fun k => if k = key then some "" else none

/-- Its scan. -/
def scanSingle (pattern key : String) : Scan pattern (single key) where
  yielded := if scanMatches pattern key then [key] else []
  mem_yielded k := by
    unfold single
    by_cases hk : k = key
    · subst hk
      split_ifs <;> simp_all
    · split_ifs <;> simp [hk]

/-- No symbol can be invalidated in every cache. A pattern that matches keys of two lengths has a star, and
    then it also matches a key of a symbol that starts with this one. -/
theorem exists_not_invalidated (provider symbol : String) :
    ∃ (cache : Cache) (scan : Scan (pattern provider symbol) cache),
      ¬ Invalidated provider symbol cache (invalidateSymbol scan).2 := by
  by_contra! hall
  have hmatches : ∀ key, (KeyOf provider symbol key → scanMatches (pattern provider symbol) key) ∧
      (Foreign provider symbol key → ¬ scanMatches (pattern provider symbol) key) := by
    intro key
    refine (invalidated_iff_matches (scanSingle _ key)).mp (hall _ _) key ?_
    unfold single
    rw [if_pos rfl]
    rfl
  have hshort := (hmatches _).1 (.ohlcv 1)
  have hlong := (hmatches _).1 (.ohlcv 10)
  have hstar : .star ∈ tokens .outside (encodeUtf8 (pattern provider symbol)) := by
    by_contra hstar
    have hlength := (length_of_starless hstar hshort).trans (length_of_starless hstar hlong).symm
    have hone : encodeUtf8 (toString (1 : ℤ)) = ['1'.toUInt8] := by decide +kernel
    have hten : encodeUtf8 (toString (10 : ℤ)) = ['1'.toUInt8, '0'.toUInt8] := by decide +kernel
    unfold ohlcvKey at hlength
    simp only [encodeUtf8_append, List.length_append, hone, hten, List.length_cons,
      List.length_nil] at hlength
    omega
  have hpump := stringmatch_pump hstar hshort (encodeUtf8 ":")
  rw [← encodeUtf8_append, ← encodeUtf8_append] at hpump
  refine (hmatches (ohlcvKey provider symbol 1 ++ ":" ++ ohlcvKey provider symbol 1)).2 ?_ hpump
  refine ⟨provider, symbol ++ ":1:data:" ++ provider ++ ":ohlcv:" ++ symbol, fun h => ?_, ?_⟩
  · have hlength := congrArg String.length (Prod.mk.inj h).2
    simp only [String.length_append] at hlength
    have : (":1:data:" : String).length = 8 := by decide
    omega
  · have hkey : ohlcvKey provider symbol 1 ++ ":" ++ ohlcvKey provider symbol 1 =
        ohlcvKey provider (symbol ++ ":1:data:" ++ provider ++ ":ohlcv:" ++ symbol) 1 := by
      have hone : toString (1 : ℤ) = "1" := by decide
      have hbetween : (":1:data:" : String) = ":" ++ "1" ++ ":" ++ "data:" := by decide
      unfold ohlcvKey
      rw [hone, hbetween]
      simp only [toString, String.append_assoc]
    rw [hkey]
    exact .ohlcv 1

end Scan

/-! ## Main result -/

/-- In a cache the keys of a symbol are deleted and no others exactly when the pattern tells them apart,
    which for plain names depends on the form of the other keys. In every cache this is so of no symbol. -/
theorem invalidated_iff (provider symbol : String) :
    (∀ (cache : Cache) (scan : Scan (pattern provider symbol) cache),
      Invalidated provider symbol cache (invalidateSymbol scan).2 ↔
        ∀ key, (cache key).isSome →
          (KeyOf provider symbol key → scanMatches (pattern provider symbol) key) ∧
            (Foreign provider symbol key → ¬ scanMatches (pattern provider symbol) key)) ∧
      (Plain provider ∧ Plain symbol → ∀ (cache : Cache) (scan : Scan (pattern provider symbol) cache),
        Invalidated provider symbol cache (invalidateSymbol scan).2 ↔
          ∀ key, (cache key).isSome → Foreign provider symbol key → ¬ HasForm provider symbol key) ∧
      ∃ (cache : Cache) (scan : Scan (pattern provider symbol) cache),
        ¬ Invalidated provider symbol cache (invalidateSymbol scan).2 := by
  refine ⟨fun cache scan => invalidated_iff_matches scan, ?_, exists_not_invalidated provider symbol⟩
  rintro ⟨hprovider, hsymbol⟩ cache scan
  rw [invalidated_iff_matches]
  simp only [matches_plain_iff hprovider hsymbol]
  constructor
  · intro h key hsome
    exact (h key hsome).2
  · intro h key hsome
    exact ⟨KeyOf.hasForm, h key hsome⟩

/-- What is cached of `TSLA` is deleted with what is cached of `T`. -/
theorem tickerPrefix_deletes :
    (invalidateSymbol (scanSingle (pattern "yahoo" "T") (quoteKey "yahoo" "TSLA"))).2
        (quoteKey "yahoo" "TSLA") = none ∧
      ¬ Invalidated "yahoo" "T" (single (quoteKey "yahoo" "TSLA"))
        (invalidateSymbol (scanSingle (pattern "yahoo" "T") (quoteKey "yahoo" "TSLA"))).2 := by
  have hgone : (invalidateSymbol (scanSingle (pattern "yahoo" "T") (quoteKey "yahoo" "TSLA"))).2
      (quoteKey "yahoo" "TSLA") = none := by decide +kernel
  refine ⟨hgone, fun h => ?_⟩
  have hsame := h.foreign (quoteKey "yahoo" "TSLA") ⟨"yahoo", "TSLA", by decide, .quote⟩
  rw [hgone] at hsame
  exact absurd hsame (by decide +kernel)

end Nivara.MarketData
