import DbRelay.Lib.CArray
import DbRelay.Lib.CString

/-!
# The headers of a request

`get_header_value` looks for a header in the list of nginx, a chain of parts with entries, and
copies its value.

* `scanHeaders_eq`: the scan finds the first header whose name the key starts with.
* `getHeaderValue_iff`: what the function should do, it does only where it finds nothing, because
  the copy has no room for the terminator.
-/

namespace DbRelay

/-! ## The functions -/

/-- `ngx_table_elt_t`: the name and the value of a header, which are counted strings. -/
structure NgxHeader where
  key : List UInt8
  value : List UInt8
  deriving DecidableEq, Repr

/-- `!strncmp(s, data, len)`, of a string that is terminated and one that is counted. -/
def strncmpEq : List UInt8 → List UInt8 → Bool
  | _, [] => true
  | [], b :: _ => decide (b = 0)
  | a :: s, b :: data => decide (a = b) && strncmpEq s data

/-- The loop of `get_header_value`.  The index starts again with each part, but whether the
next part has an entry is not looked at. -/
def scanHeaders (headerKey : CString) (part : List NgxHeader) :
    List (List NgxHeader) → Option (Option NgxHeader)
  | [] => some (part.find? fun header => strncmpEq headerKey.bytes header.key)
  | next :: parts =>
    match part.find? fun header => strncmpEq headerKey.bytes header.key with
    | some header => some (some header)
    | none => if next.isEmpty then none else scanHeaders headerKey next parts

/-- `malloc`, `memcpy` and the terminator. -/
def copyValue (fresh : (size : Nat) → CArray size) (value : List UInt8) :
    Option (List UInt8) := do
  let retstr ← (fresh value.length).write 0 value
  let retstr ← retstr.store value.length 0
  return retstr.string

/-- `get_header_value`: `some none` is `NULL`, and `none` an access outside of an array. -/
def getHeaderValue (fresh : (size : Nat) → CArray size) (headerKey : CString)
    (part : List NgxHeader) (next : List (List NgxHeader)) : Option (Option (List UInt8)) :=
  (scanHeaders headerKey part next).bind fun
    | none => some none
    | some header => (copyValue fresh header.value).map some

/-- The first header whose whole name is the key. -/
def firstHeader (headerKey : List UInt8) (parts : List (List NgxHeader)) : Option NgxHeader :=
  parts.flatten.find? fun header => decide (header.key = headerKey)

/-! ## The scan -/

/-- The comparison is limited by the length of the name, so a prefix of the key is enough. -/
theorem strncmpEq_iff {key name : List UInt8} (hkey : 0 ∉ key) :
    strncmpEq key name = true ↔ name <+: key ∨ key ++ [0] <+: name := by
  induction key generalizing name with
  | nil =>
    cases name with
    | nil => exact iff_of_true rfl (.inl (List.prefix_refl _))
    | cons b name => simp [strncmpEq, List.cons_prefix_cons, eq_comm]
  | cons a key ih =>
    rw [List.mem_cons, not_or] at hkey
    cases name with
    | nil => exact iff_of_true rfl (.inl (List.nil_prefix))
    | cons b name =>
      rw [strncmpEq, Bool.and_eq_true, decide_eq_true_iff, ih hkey.2, List.cons_append,
        List.cons_prefix_cons, List.cons_prefix_cons, eq_comm (a := b), ← and_or_left]

/-- A name that the comparison takes for the key. -/
def TakenFor (key name : List UInt8) : Prop := name <+: key ∨ key ++ [0] <+: name

/-- The scan finds the first name that is taken for the key. -/
theorem scanHeaders_eq (headerKey : CString) {part : List NgxHeader}
    {next : List (List NgxHeader)} (hnext : ∀ p ∈ next, p ≠ []) :
    scanHeaders headerKey part next =
      some ((part :: next).flatten.find? fun header => strncmpEq headerKey.bytes header.key) := by
  induction next generalizing part with
  | nil =>
    rw [scanHeaders, List.flatten_cons, List.flatten_nil, List.append_nil]
  | cons p next ih =>
    have hp : p.isEmpty = false := by
      rw [List.isEmpty_eq_false_iff]
      exact hnext p List.mem_cons_self
    rw [scanHeaders, List.flatten_cons, List.find?_append]
    cases part.find? fun header => strncmpEq headerKey.bytes header.key with
    | some header => rfl
    | none =>
      rw [hp, if_neg Bool.false_ne_true, Option.none_or]
      exact ih fun p hp => hnext p (List.mem_cons_of_mem _ hp)

/-- The scan that finds nothing came to no empty part. -/
theorem scanHeaders_none (headerKey : CString) {part : List NgxHeader}
    {next : List (List NgxHeader)} (h : scanHeaders headerKey part next = some none) :
    ∀ p ∈ next, p ≠ [] := by
  induction next generalizing part with
  | nil => exact fun p hp => absurd hp List.not_mem_nil
  | cons p next ih =>
    rw [scanHeaders] at h
    split at h
    · cases h
    · split at h
      · cases h
      · rename_i hp
        intro q hq
        rcases List.mem_cons.1 hq with rfl | hq
        · exact fun hnil => hp (by rw [hnil]; rfl)
        · exact ih h q hq

/-- There is no room for the terminator. -/
theorem copyValue_eq_none (fresh : (size : Nat) → CArray size) (value : List UInt8) :
    copyValue fresh value = none := by
  unfold copyValue
  cases (fresh value.length).write 0 value with
  | none => rfl
  | some retstr => simp [CArray.store]

/-! ## The header that is meant -/

/-- The function returns the value of the first header whose whole name is the key, exactly if
no name is taken for the key and each part after the first has an entry: then there is no such
header, and it returns `NULL`. -/
theorem getHeaderValue_iff (fresh : (size : Nat) → CArray size) (headerKey : CString)
    (part : List NgxHeader) (next : List (List NgxHeader)) :
    getHeaderValue fresh headerKey part next =
        some ((firstHeader headerKey.bytes (part :: next)).map NgxHeader.value) ↔
      (∀ header ∈ (part :: next).flatten, ¬TakenFor headerKey.bytes header.key) ∧
        ∀ p ∈ next, p ≠ [] := by
  have htaken : ∀ header : NgxHeader,
      strncmpEq headerKey.bytes header.key = true ↔ TakenFor headerKey.bytes header.key :=
    fun header => strncmpEq_iff headerKey.noNul
  constructor
  · intro h
    rw [getHeaderValue] at h
    cases hscan : scanHeaders headerKey part next with
    | none =>
      rw [hscan] at h
      cases h
    | some found =>
      cases found with
      | some header =>
        simp only [hscan, Option.bind_some, copyValue_eq_none] at h
        cases h
      | none =>
        have hnext := scanHeaders_none headerKey hscan
        rw [scanHeaders_eq headerKey hnext, Option.some.injEq] at hscan
        refine ⟨fun header hmem hheader => ?_, hnext⟩
        exact List.find?_eq_none.1 hscan header hmem ((htaken header).2 hheader)
  · intro hgiven
    obtain ⟨hnone, hnext⟩ := hgiven
    have hscan : (part :: next).flatten.find?
        (fun header => strncmpEq headerKey.bytes header.key) = none :=
      List.find?_eq_none.2 fun header hmem hheader => hnone header hmem ((htaken header).1 hheader)
    have hfirst : firstHeader headerKey.bytes (part :: next) = none := by
      refine List.find?_eq_none.2 fun header hmem hheader => hnone header hmem (.inl ?_)
      rw [of_decide_eq_true hheader]
    rw [getHeaderValue, scanHeaders_eq headerKey hnext, hscan, hfirst]
    rfl

/-- A header that is the one that is looked for. -/
theorem getHeaderValue_ne_origin :
    getHeaderValue (fun size => Vector.replicate size 0) (.ofBytes (ascii "Origin"))
        [⟨ascii "Origin", ascii "http://a"⟩] [] ≠
      some ((firstHeader (ascii "Origin") [[⟨ascii "Origin", ascii "http://a"⟩]]).map
        NgxHeader.value) := by
  decide +kernel

end DbRelay
