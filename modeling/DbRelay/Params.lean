import DbRelay.Types

/-!
# The parameters of a request

`dbrelay_resolve_params` puts a prefix in front of the SQL text and the values
of the parameters in the place of its question marks.

The prefix `DBRELAY_MAGIC` is chosen when the program is built, so it is an
argument here.  A parameter is a text `type:value`.

`resolveLoop` is the loop over the parameters.  It keeps the part of the text
that comes after `pos`, and whether `pos` is 0: the test for a missing
placeholder works only there.  Later a parameter without a placeholder is
appended after the rest of the text, and the rest is appended once more at the
end.
-/

namespace DbRelay

/-! ## One parameter -/

/-- `tolower`. -/
def lowercase (b : UInt8) : UInt8 :=
  if 65 ≤ b ∧ b ≤ 90 then b + 32 else b

/-- `!strcasecmp`. -/
def sameIgnoringCase (s t : List UInt8) : Bool :=
  decide (s.map lowercase = t.map lowercase)

/-- The type and the value of a parameter.  Without a colon `strstr` returns
`NULL`, which the source writes through. -/
def splitParam (param : List UInt8) : Option (List UInt8 × List UInt8) :=
  if 58 ∈ param then
    some (param.takeWhile (· ≠ 58), (param.dropWhile (· ≠ 58)).tail)
  else none

/-- `is_quoted_param`, after the type is cut off. -/
def isQuotedParam (type : List UInt8) : Bool :=
  sameIgnoringCase type (ascii "char") || sameIgnoringCase type (ascii "varchar") ||
    sameIgnoringCase type (ascii "datetime") || sameIgnoringCase type (ascii "smalldatetime")

/-- What is appended for a parameter. -/
def paramText (param : List UInt8) : Option (List UInt8) :=
  (splitParam param).map fun (type, value) =>
    if isQuotedParam type then ascii "'" ++ value ++ ascii "'" else value

/-! ## The loop -/

/-- A quote opens or closes a quoted part. -/
def quotedAfter (quoted : Bool) (b : UInt8) : Bool :=
  if b = 39 then !quoted else quoted

/-- `dbrelay_find_placeholder`, with `none` for -1. -/
def findPlaceholder (quoted : Bool) : List UInt8 → Option Nat
  | [] => none
  | b :: sql =>
    if !quotedAfter quoted b && decide (b = 63) then some 0
    else (findPlaceholder (quotedAfter quoted b) sql).map (· + 1)

/-- The loop of `dbrelay_resolve_params` over the parameters.  `rest` is the
text from `pos` on, and `out` is what was appended so far. -/
def resolveLoop (atStart : Bool) (rest out : List UInt8) :
    List (List UInt8) → Option (List UInt8)
  | [] => some (out ++ rest)
  | param :: params =>
    match findPlaceholder false rest with
    | some i =>
      match paramText param with
      | some text => resolveLoop false (rest.drop (i + 1)) (out ++ rest.take i ++ text) params
      | none => none
    | none =>
      if atStart then resolveLoop true rest out params
      else
        -- `pos` moves back by one and forth again.
        match paramText param with
        | some text => resolveLoop false rest (out ++ rest ++ text) params
        | none => none

/-- The parameters before the first `NULL`.  When there is none, the loop reads
past the array. -/
def Request.paramList (request : Request) : Option (List (List UInt8)) :=
  if none ∈ request.params.toList then
    some ((request.params.toList.takeWhile Option.isSome).filterMap
      fun param => param.map CString.bytes)
  else none

/-- What `dbrelay_resolve_params` appends first. -/
def magicText (magic : CString) (request : Request) : List UInt8 :=
  if magic.isSet && decide (request.flags &&& flagNomagic = 0) then magic.bytes else []

/-- `dbrelay_resolve_params`. -/
def resolveParams (magic : CString) (request : Request) (sql : List UInt8) :
    Option (List UInt8) :=
  request.paramList.bind (resolveLoop true sql (magicText magic request))

/-! ## What the loop keeps -/

/-- A placeholder is a question mark. -/
theorem findPlaceholder_some {quoted : Bool} {sql : List UInt8} {i : Nat}
    (h : findPlaceholder quoted sql = some i) :
    sql = sql.take i ++ 63 :: sql.drop (i + 1) := by
  induction sql generalizing quoted i with
  | nil => cases h
  | cons b sql ih =>
    simp only [findPlaceholder] at h
    split at h
    · rename_i hfound
      rw [Bool.and_eq_true, decide_eq_true_eq] at hfound
      obtain rfl : 0 = i := Option.some.inj h
      rw [hfound.2]
      rfl
    · obtain ⟨j, hj, rfl⟩ := Option.map_eq_some_iff.1 h
      rw [List.take_succ_cons, List.drop_succ_cons, List.cons_append, ← ih hj]

/-- The text without its placeholders is still there: no other byte gets
rarer. -/
theorem count_le_of_resolveLoop {b : UInt8} (hb : b ≠ 63) {atStart : Bool}
    {rest out text : List UInt8} {params : List (List UInt8)}
    (h : resolveLoop atStart rest out params = some text) :
    out.count b + rest.count b ≤ text.count b := by
  induction params generalizing atStart rest out with
  | nil =>
    rw [resolveLoop, Option.some.injEq] at h
    rw [← h, List.count_append]
  | cons param params ih =>
    rw [resolveLoop] at h
    cases hfind : findPlaceholder false rest with
    | some i =>
      have hsplit := congrArg (List.count b) (findPlaceholder_some hfind)
      rw [List.count_append, List.count_cons_of_ne hb.symm] at hsplit
      rw [hfind] at h
      simp only at h
      split at h
      · have hle := ih h
        simp only [List.count_append] at hle
        omega
      · cases h
    | none =>
      rw [hfind] at h
      simp only at h
      split at h
      · exact ih h
      · split at h
        · have hle := ih h
          simp only [List.count_append] at hle
          omega
        · cases h

/-- Without parameters, or without a placeholder, the text is appended as it
is. -/
theorem resolveLoop_of_none {sql out : List UInt8} {params : List (List UInt8)}
    (h : params = [] ∨ findPlaceholder false sql = none) :
    resolveLoop true sql out params = some (out ++ sql) := by
  induction params with
  | nil => rfl
  | cons param params ih =>
    rcases h with h | h
    · cases h
    · rw [resolveLoop, h]
      exact ih (.inr h)

end DbRelay
