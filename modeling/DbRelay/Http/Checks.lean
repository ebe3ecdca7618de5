import DbRelay.Lib.CString
import DbRelay.Lib.Strtok
import Mathlib.Data.List.DropRight

/-!
# The checks of the headers

`origin_matches` looks for the `Origin` header in the list that is configured, and
`accepts_application_json` for a media range in the `Accept` header.  Both cut a list at its
commas with `strtok`.

* `originMatches_iff`: the origins that match are the configured ones, and nothing outside of
  the header is read, exactly if no suffix in the list is longer than the header.
* `acceptsApplicationJson_iff`: a media range that is JSON is found exactly if one is written
  without parameters and spaces.
-/

namespace DbRelay

open Strtok

/-- `','`, between the entries of a list. -/
def entryComma : UInt8 := 44

/-- `'*'`. -/
def asterisk : UInt8 := 42

/-- The loop over the tokens of a list sees its entries that are not empty. -/
theorem mem_tokens_comma {s : List UInt8} {entry : List UInt8} :
    entry ∈ tokens (· == entryComma) s ↔ entry ∈ s.splitOn entryComma ∧ entry ≠ [] := by
  rw [tokens_eq, List.mem_filter, List.splitOn_eq_splitOnP, Bool.not_eq_true',
    List.isEmpty_eq_false_iff]

/-! ## The origin -/

/-- The loop body of `origin_matches`: whether an entry matches.  There is no answer if the
suffix is compared with what is before the header. -/
def entryMatches (headerValue : CString) : List UInt8 → Option Bool
  | [] => some (decide ([] = headerValue.bytes))
  | c :: s =>
    if c = asterisk then
      -- `strlen(header_value) - strlen(s) + 1`
      let i : Int := headerValue.bytes.length - (s.length + 1) + 1
      if i < 0 then none else some (decide (s = headerValue.bytes.drop i.toNat))
    else some (decide (c :: s = headerValue.bytes))

/-- `origin_matches`, of what `get_header_value` returns. -/
def originMatches (headerValue : Option CString) (origin : CString) : Option Bool :=
  match headerValue with
  | none => some false
  | some headerValue =>
    (tokens (· == entryComma) origin.bytes).foldlM
      (fun matched s => (entryMatches headerValue s).map fun now => now || matched) false

/-- An entry of the list is the header, or its suffix is one of the header. -/
def OriginAllowed (headerValue origin : CString) : Prop :=
  ∃ entry ∈ origin.bytes.splitOn entryComma, entry ≠ [] ∧
    (entry = headerValue.bytes ∨ ∃ suffix, entry = asterisk :: suffix ∧
      suffix <:+ headerValue.bytes)

/-- An entry that can be compared. -/
theorem entryMatches_eq {headerValue : CString} {entry : List UInt8}
    (h : ∀ suffix, entry = asterisk :: suffix → suffix.length ≤ headerValue.bytes.length) :
    ∃ matched, entryMatches headerValue entry = some matched ∧
      (matched = true ↔ entry = headerValue.bytes ∨ ∃ suffix, entry = asterisk :: suffix ∧
        suffix <:+ headerValue.bytes) := by
  cases entry with
  | nil => exact ⟨_, rfl, by simp⟩
  | cons c s =>
    by_cases hc : c = asterisk
    · have hlen := h s (by rw [hc])
      have hindex : (headerValue.bytes.length - (s.length + 1) + 1 : Int).toNat =
          headerValue.bytes.length - s.length := by omega
      have hsuffix : s = headerValue.bytes.drop (headerValue.bytes.length - s.length) ↔
          s <:+ headerValue.bytes := by
        rw [List.suffix_iff_eq_drop]
      refine ⟨_, by rw [entryMatches, if_pos hc, if_neg (by omega)], ?_⟩
      rw [decide_eq_true_iff, hindex, hsuffix, hc]
      constructor
      · exact fun hs => .inr ⟨s, rfl, hs⟩
      · intro hgiven
        rcases hgiven with heq | ⟨suffix, heq, hs⟩
        · rw [← heq]
          exact List.suffix_cons _ _
        · rw [(List.cons.inj heq).2]
          exact hs
    · refine ⟨_, by rw [entryMatches, if_neg hc], ?_⟩
      rw [decide_eq_true_iff, or_iff_left]
      intro hgiven
      obtain ⟨suffix, heq, -⟩ := hgiven
      exact hc (List.cons.inj heq).1

/-- A suffix that is longer than the header is compared with what is before it. -/
theorem entryMatches_eq_none {headerValue : CString} {suffix : List UInt8}
    (h : headerValue.bytes.length < suffix.length) :
    entryMatches headerValue (asterisk :: suffix) = none := by
  rw [entryMatches, if_pos rfl, if_pos (by omega)]

/-- A loop whose body may fail: with answers for all it ends with one. -/
theorem foldlM_or_some {α : Type} {f : α → Option Bool} {P : α → Prop} {entries : List α}
    (h : ∀ entry ∈ entries, ∃ matched, f entry = some matched ∧ (matched = true ↔ P entry))
    (start : Bool) :
    ∃ matched, entries.foldlM (fun matched s => (f s).map fun now => now || matched) start =
        some matched ∧
      (matched = true ↔ start = true ∨ ∃ entry ∈ entries, P entry) := by
  induction entries generalizing start with
  | nil => exact ⟨start, rfl, by simp⟩
  | cons entry entries ih =>
    obtain ⟨now, hnow, hP⟩ := h entry List.mem_cons_self
    obtain ⟨matched, hrest, hmatched⟩ :=
      ih (fun e he => h e (List.mem_cons_of_mem entry he)) (now || start)
    refine ⟨matched, ?_, ?_⟩
    · rw [List.foldlM_cons, hnow]
      exact hrest
    · rw [hmatched, Bool.or_eq_true, hP, List.exists_mem_cons_iff, or_comm (a := P entry),
        or_assoc]

/-- One entry without an answer, and the loop has none. -/
theorem foldlM_or_none {α : Type} {f : α → Option Bool} {entries : List α} {entry : α}
    (hmem : entry ∈ entries) (hnone : f entry = none) (start : Bool) :
    entries.foldlM (fun matched s => (f s).map fun now => now || matched) start = none := by
  induction entries generalizing start with
  | nil => cases hmem
  | cons e entries ih =>
    rw [List.foldlM_cons]
    rcases List.mem_cons.1 hmem with rfl | hmem
    · rw [hnone]
      rfl
    · cases f e with
      | none => rfl
      | some now => exact ih hmem _

/-- The check has an answer, and the right one, exactly if no suffix in the list is longer than
the header. -/
theorem originMatches_iff (headerValue origin : CString) :
    (∃ matched, originMatches (some headerValue) origin = some matched ∧
        (matched = true ↔ OriginAllowed headerValue origin)) ↔
      ∀ suffix, asterisk :: suffix ∈ origin.bytes.splitOn entryComma →
        suffix.length ≤ headerValue.bytes.length := by
  constructor
  · rintro ⟨matched, hmatched, -⟩ suffix hmem
    by_contra hlong
    have hentry : asterisk :: suffix ∈ tokens (· == entryComma) origin.bytes :=
      mem_tokens_comma.2 ⟨hmem, List.cons_ne_nil _ _⟩
    have hnone := foldlM_or_none hentry (entryMatches_eq_none (Nat.lt_of_not_le hlong)) false
    rw [originMatches, hnone] at hmatched
    cases hmatched
  · intro hshort
    have hentries : ∀ entry ∈ tokens (· == entryComma) origin.bytes, ∃ matched,
        entryMatches headerValue entry = some matched ∧ (matched = true ↔
          entry = headerValue.bytes ∨ ∃ suffix, entry = asterisk :: suffix ∧
            suffix <:+ headerValue.bytes) := by
      intro entry hmem
      refine entryMatches_eq fun suffix hentry => hshort suffix ?_
      rw [← hentry]
      exact (mem_tokens_comma.1 hmem).1
    obtain ⟨matched, hmatched, hiff⟩ := foldlM_or_some hentries false
    refine ⟨matched, hmatched, ?_⟩
    rw [hiff, or_iff_right Bool.false_ne_true, OriginAllowed]
    simp only [mem_tokens_comma, and_assoc]

/-- A header that is shorter than the suffix. -/
theorem not_originMatches_shortHeader :
    ¬∃ matched, originMatches (some (.ofBytes (ascii "http://a")))
        (.ofBytes (ascii "*.example.com")) = some matched ∧
      (matched = true ↔ OriginAllowed (.ofBytes (ascii "http://a"))
        (.ofBytes (ascii "*.example.com"))) := by
  intro h
  obtain ⟨matched, hmatched, -⟩ := h
  have hnone : originMatches (some (.ofBytes (ascii "http://a")))
      (.ofBytes (ascii "*.example.com")) = none := by decide +kernel
  rw [hnone] at hmatched
  cases hmatched

/-! ## The media range -/

/-- `';'`. -/
def semicolon : UInt8 := 59

/-- The inner loop of `accepts_application_json`.  Its `break` is not part of the `if`, so it
looks at the first byte only. -/
def cutQualifier : List UInt8 → List UInt8
  | [] => []
  | c :: s => if c = semicolon then [] else c :: s

/-- `accepts_application_json`, of what `get_header_value` returns. -/
def acceptsApplicationJson : Option CString → Bool
  | none => false
  | some headerValue =>
    (tokens (· == entryComma) headerValue.bytes).any fun s =>
      decide (ascii "application/json" = cutQualifier s)

/-- A media range without its parameters and the spaces around it. -/
def mediaRange (s : List UInt8) : List UInt8 :=
  ((s.takeWhile fun c => decide (c ≠ semicolon)).dropWhile fun c => decide (c = 32)).rdropWhile
    fun c => decide (c = 32)

/-- A media range of the list is JSON. -/
def AcceptsJson (headerValue : CString) : Prop :=
  ∃ s ∈ headerValue.bytes.splitOn entryComma, mediaRange s = ascii "application/json"

theorem mediaRange_json : mediaRange (ascii "application/json") = ascii "application/json" := by
  decide

/-- The function finds the media range if it stands alone in its entry. -/
theorem acceptsApplicationJson_eq (headerValue : CString) :
    acceptsApplicationJson (some headerValue) = true ↔
      ascii "application/json" ∈ headerValue.bytes.splitOn entryComma := by
  have hcut : ∀ s, ascii "application/json" = cutQualifier s ↔ s = ascii "application/json" := by
    intro s
    cases s with
    | nil => simp [cutQualifier, eq_comm]
    | cons c s =>
      by_cases hc : c = semicolon
      · rw [cutQualifier, if_pos hc, hc]
        exact iff_of_false (by decide) (by simp [ascii, semicolon])
      · rw [cutQualifier, if_neg hc, eq_comm]
  have hne : ascii "application/json" ≠ [] := by decide
  rw [acceptsApplicationJson, List.any_eq_true]
  simp only [decide_eq_true_eq, hcut, exists_eq_right, mem_tokens_comma, and_iff_left hne]

/-- The function is right exactly if, where a media range is JSON, one is written without
parameters and spaces. -/
theorem acceptsApplicationJson_iff (headerValue : CString) :
    (acceptsApplicationJson (some headerValue) = true ↔ AcceptsJson headerValue) ↔
      (AcceptsJson headerValue →
        ascii "application/json" ∈ headerValue.bytes.splitOn entryComma) := by
  have hbare : ascii "application/json" ∈ headerValue.bytes.splitOn entryComma →
      AcceptsJson headerValue := fun hmem => ⟨_, hmem, mediaRange_json⟩
  rw [acceptsApplicationJson_eq]
  exact ⟨Iff.mpr, fun h => ⟨hbare, h⟩⟩

/-- A weight. -/
theorem not_acceptsApplicationJson_weight :
    ¬(acceptsApplicationJson (some (.ofBytes (ascii "application/json;q=0.9"))) = true ↔
      AcceptsJson (.ofBytes (ascii "application/json;q=0.9"))) := by
  have hfalse :
      acceptsApplicationJson (some (.ofBytes (ascii "application/json;q=0.9"))) = false := by
    decide +kernel
  have htrue : AcceptsJson (.ofBytes (ascii "application/json;q=0.9")) :=
    ⟨ascii "application/json;q=0.9", by decide, by decide⟩
  rw [hfalse]
  exact fun h => Bool.false_ne_true (h.2 htrue)

end DbRelay
