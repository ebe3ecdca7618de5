import DbRelay.Json.RoundTrip
import DbRelay.Lib.CArray

/-!
# Escaping in place

`json_add_string` works on a copy of its value.  At each byte that needs an escape it ends
the copy, appends what stands before that byte, and goes on behind it.  Here the copy, the
buffer of the `\u` escapes and the block that `sb_to_char` fills are arrays.

* `InPlace.addString_eq`: every access is in bounds, and the writer is the one of `addString`.
* `InPlace.sbToChar_eq`: when `sb_to_char` hands out the parts one behind the other.
* `addString_escapes`: what stands between the quotes is one unit of JSON for each byte of the
  value, and no other value is written so.
-/

namespace DbRelay

open JsonWriter Json

namespace InPlace

/-! ## The loop -/

/-- `is_printable`.  A `char` is signed. -/
def isPrintable (c : UInt8) : Bool :=
  if c.toInt8 < 32 ∨ c = 34 ∨ c = 92 then false else true

/-- `%02x`. -/
def hex02 (n : Nat) : List UInt8 :=
  let digits := (Nat.toDigits 16 n).map fun d => d.toNat.toUInt8
  List.replicate (2 - digits.length) 48 ++ digits

/-- The text that `sprintf` writes for a byte. -/
def unicodeEscape (c : UInt8) : List UInt8 := ascii "\\u" ++ hex02 0 ++ hex02 c.toNat

/-- `append_nonprintable`, with its `buf[7]`. -/
def appendNonprintable (fresh : (size : Nat) → CArray size) (json : JsonWriter) (c : UInt8) :
    Option JsonWriter :=
  if c = 34 then some (json.append (ascii "\\\""))
  else if c = 92 then some (json.append (ascii "\\\\"))
  else if c = 47 then some (json.append (ascii "\\/"))
  else if c = 8 then some (json.append (ascii "\\b"))
  else if c = 12 then some (json.append (ascii "\\f"))
  else if c = 10 then some (json.append (ascii "\\n"))
  else if c = 13 then some (json.append (ascii "\\r"))
  else if c = 9 then some (json.append (ascii "\\t"))
  else
    (((fresh 7).write 0 (unicodeEscape c ++ [0])).map CArray.string).map json.append

/-- The loop of `json_add_string`, with its two pointers into the copy as indices. -/
def addChars (fresh : (size : Nat) → CArray size) {size : Nat} (tmp : CArray size)
    (json : JsonWriter) (first s : Nat) : Option JsonWriter :=
  if hs : s < size then
    if tmp[s] = 0 then (tmp.stringAt first).map json.append
    else if isPrintable tmp[s] then addChars fresh tmp json first (s + 1)
    else
      (tmp.store s 0).bind fun cut =>
        (cut.stringAt first).bind fun part =>
          (appendNonprintable fresh (json.append part) tmp[s]).bind fun json =>
            addChars fresh cut json (s + 1) (s + 1)
  else none
  termination_by size - s

/-- `strdup`. -/
def strdup (s : CString) : CArray (s.bytes.length + 1) :=
  ⟨(s.bytes ++ [0]).toArray, by simp⟩

/-- `json_add_string`. -/
def addString (fresh : (size : Nat) → CArray size) (json : JsonWriter) (key value : CString) :
    Option JsonWriter :=
  let json := (json.addKey key.bytes).append (ascii "\"")
  (addChars fresh (strdup value) json 0 0).map fun json =>
    { json.append (ascii "\"") with pending := false }

/-! ## One byte -/

/-- The bytes from 128 on are negative. -/
theorem isPrintable_eq (c : UInt8) : isPrintable c = JsonWriter.isPrintable c := by
  have h : ∀ i : Fin 256,
      isPrintable (UInt8.ofFin i) = JsonWriter.isPrintable (UInt8.ofFin i) := by
    decide +kernel
  exact h c.toFin

/-- The cast to `unsigned char` keeps the digits of a byte at two. -/
theorem unicodeEscape_eq (c : UInt8) :
    unicodeEscape c = ascii "\\u00" ++
      [JsonWriter.hexDigit (c.toNat / 16), JsonWriter.hexDigit (c.toNat % 16)] := by
  have h : ∀ i : Fin 256, let c := UInt8.ofFin i
      hex02 c.toNat =
        [JsonWriter.hexDigit (c.toNat / 16), JsonWriter.hexDigit (c.toNat % 16)] := by
    decide +kernel
  have hbyte : hex02 c.toNat =
      [JsonWriter.hexDigit (c.toNat / 16), JsonWriter.hexDigit (c.toNat % 16)] := h c.toFin
  rw [unicodeEscape, hbyte]
  rfl

theorem noNul_unicodeEscape (c : UInt8) : 0 ∉ unicodeEscape c := by
  have h : ∀ i : Fin 256, 0 ∉ unicodeEscape (UInt8.ofFin i) := by
    decide +kernel
  exact h c.toFin

/-- The six characters of a `\u` escape and the terminator fit `buf`. -/
theorem appendNonprintable_eq (fresh : (size : Nat) → CArray size) (json : JsonWriter)
    (c : UInt8) :
    appendNonprintable fresh json c = some (json.append (nonprintable c)) := by
  have hlen : (unicodeEscape c).length < 7 := by
    rw [unicodeEscape_eq]
    exact Nat.lt_succ_self 6
  have hbuf : ((fresh 7).write 0 (unicodeEscape c ++ [0])).map CArray.string =
      some (unicodeEscape c) :=
    (CArray.write_string (fresh 7) (noNul_unicodeEscape c)).trans (if_pos hlen)
  rw [appendNonprintable, hbuf, Option.map_some, unicodeEscape_eq]
  -- the two switches have the same cases
  simp only [nonprintable, apply_ite (fun text => some (json.append text))]

/-! ## The loop and its copy -/

/-- `xs` was appended, `first` waits to be, and `rest` was not looked at. -/
theorem addChars_eq (fresh : (size : Nat) → CArray size) {size : Nat} {tmp : CArray size}
    {xs first rest : List UInt8} (htmp : tmp.toList = xs ++ first ++ (rest ++ [0]))
    (hfirst : 0 ∉ first) (hrest : 0 ∉ rest) (json : JsonWriter) :
    addChars fresh tmp json xs.length (xs ++ first).length = some (json.addChars first rest) := by
  induction rest generalizing tmp xs first json with
  | nil =>
    obtain ⟨hs, hzero⟩ := CArray.getElem_of_toList htmp
    have hpart : tmp.stringAt xs.length = some first :=
      CArray.stringAt_of_toList (by rw [htmp, List.append_assoc]; rfl) hfirst
    rw [addChars, dif_pos hs, if_pos hzero, hpart]
    rfl
  | cons c rest ih =>
    obtain ⟨hs, hc⟩ := CArray.getElem_of_toList htmp
    rw [List.mem_cons, not_or] at hrest
    rw [addChars, dif_pos hs, hc, if_neg (Ne.symm hrest.1), isPrintable_eq, JsonWriter.addChars]
    by_cases hprint : JsonWriter.isPrintable c = true
    · rw [if_pos hprint, if_pos hprint]
      have hnext : tmp.toList = xs ++ (first ++ [c]) ++ (rest ++ [0]) := by
        rw [htmp]
        simp only [List.append_assoc, List.cons_append, List.nil_append]
      have hfirst' : 0 ∉ first ++ [c] := by
        rw [List.mem_append, List.mem_singleton, not_or]
        exact ⟨hfirst, hrest.1⟩
      have hlen : (xs ++ first ++ [c]).length = (xs ++ first).length + 1 := List.length_append
      have h := ih hnext hfirst' hrest.2 json
      rwa [← List.append_assoc, hlen] at h
    · rw [if_neg hprint, if_neg hprint]
      obtain ⟨cut, hstore, hcut⟩ := CArray.store_of_toList htmp 0
      have hpart : cut.stringAt xs.length = some first :=
        CArray.stringAt_of_toList (by rw [hcut, List.append_assoc]) hfirst
      have hnext : cut.toList = (xs ++ first ++ [0]) ++ [] ++ (rest ++ [0]) := by
        rw [hcut]
        simp only [List.append_assoc, List.append_eq, List.cons_append, List.nil_append]
      have hlen : (xs ++ first ++ [0]).length = (xs ++ first).length + 1 := List.length_append
      have h := ih hnext List.not_mem_nil hrest.2 ((json.append first).append (nonprintable c))
      rw [hstore, Option.bind_some, hpart, Option.bind_some, appendNonprintable_eq,
        Option.bind_some]
      rwa [List.append_nil, hlen] at h

theorem addString_eq (fresh : (size : Nat) → CArray size) (json : JsonWriter)
    (key value : CString) :
    addString fresh json key value = some (json.addString key.bytes value.bytes) := by
  have htmp : (strdup value).toList = [] ++ [] ++ (value.bytes ++ [0]) := rfl
  have h := addChars_eq fresh htmp List.not_mem_nil value.noNul
    ((json.addKey key.bytes).append (ascii "\""))
  rw [addString]
  exact congrArg (Option.map _) h

/-! ## The whole text -/

/-- `sb_len`.  Its sums are `int`s. -/
def sbLen (sb : StringBuf) : Int := sb.foldl (fun len part => wrapInt (len + part.length)) 0

/-- The loop of `sb_to_char`, one `strcpy` for each part.  The index leaves the block before
it leaves an `int`. -/
def copyParts {size : Nat} (outstr : CArray size) (pos : Nat) : StringBuf → Option (CArray size)
  | [] => some outstr
  | part :: sb =>
    (outstr.write pos (part ++ [0])).bind fun outstr => copyParts outstr (pos + part.length) sb

/-- The rest of `sb_to_char`, on its block. -/
def fillBlock (sb : StringBuf) {size : Nat} (outstr : CArray size) : Option (List UInt8) :=
  (outstr.store 0 0).bind fun outstr => (copyParts outstr 0 sb).map CArray.string

/-- `sb_to_char`. -/
def sbToChar (fresh : (size : Nat) → CArray size) (sb : StringBuf) : Option (List UInt8) :=
  (malloc fresh (wrapInt (sbLen sb + 1))).bind fun block => fillBlock sb block.2

theorem sbLen_foldl (sb : StringBuf) (len : Int) :
    sb.foldl (fun len part => wrapInt (len + part.length)) (wrapInt len) =
      wrapInt (len + sb.toChar.length) := by
  induction sb generalizing len with
  | nil => rw [List.foldl_nil, StringBuf.toChar, List.flatten_nil, List.length_nil, Nat.cast_zero,
      add_zero]
  | cons part sb ih =>
    rw [List.foldl_cons, wrapInt_add, ih, StringBuf.toChar, StringBuf.toChar, List.flatten_cons,
      List.length_append, Nat.cast_add, add_assoc]

theorem sbLen_eq (sb : StringBuf) : sbLen sb = wrapInt sb.toChar.length := by
  have h := sbLen_foldl sb 0
  rwa [zero_add] at h

/-- The parts are copied exactly if their bytes and the terminator fit. -/
theorem copyParts_spec {size : Nat} {a : CArray size} {s : List UInt8} (hs : s ++ [0] <+: a.toList)
    (sb : StringBuf) :
    ((copyParts a s.length sb).isSome = true ↔ s.length + sb.toChar.length < size) ∧
      ∀ a', copyParts a s.length sb = some a' → s ++ sb.toChar ++ [0] <+: a'.toList := by
  induction sb generalizing a s with
  | nil =>
    have hlen := hs.length_le
    rw [List.length_append, List.length_singleton, Vector.length_toList] at hlen
    refine ⟨iff_of_true rfl hlen, fun a' heq => ?_⟩
    obtain rfl := Option.some.inj heq
    rwa [StringBuf.toChar, List.flatten_nil, List.append_nil]
  | cons part sb ih =>
    have htext : StringBuf.toChar (part :: sb) = part ++ StringBuf.toChar sb := List.flatten_cons
    rw [copyParts, htext, List.length_append]
    by_cases hfits : s.length + (part ++ [0]).length ≤ size
    · obtain ⟨a₁, hwrite, hprefix⟩ :=
        CArray.write_append ((List.prefix_append s [0]).trans hs) (part ++ [0]) hfits
      rw [← List.append_assoc] at hprefix
      have h := ih hprefix
      rw [hwrite, Option.bind_some, ← List.length_append, ← List.append_assoc, ← Nat.add_assoc,
        ← List.length_append]
      exact h
    · rw [CArray.write_eq_none (by simp) (Nat.lt_of_not_le hfits)]
      rw [List.length_append, List.length_singleton] at hfits
      exact ⟨iff_of_false (by simp) (by omega), fun a' heq => by cases heq⟩

/-- A block is filled exactly if it is large enough. -/
theorem fillBlock_eq {size : Nat} (outstr : CArray size) {sb : StringBuf} (h : 0 ∉ sb.toChar) :
    fillBlock sb outstr = if sb.toChar.length < size then some sb.toChar else none := by
  rw [fillBlock]
  by_cases hpos : 0 < size
  · obtain ⟨a, hstore, hprefix⟩ := CArray.store_append (a := outstr) List.nil_prefix hpos 0
    obtain ⟨hsome, hcopied⟩ := copyParts_spec hprefix sb
    rw [List.length_nil] at hstore
    rw [List.length_nil, Nat.zero_add] at hsome
    rw [hstore, Option.bind_some]
    cases hcopy : copyParts a 0 sb with
    | none =>
      rw [hcopy] at hsome
      rw [if_neg (hsome.not.1 Bool.false_ne_true)]
      rfl
    | some a' =>
      rw [hcopy] at hsome
      rw [if_pos (hsome.1 rfl), Option.map_some]
      exact congrArg some (CArray.string_of_prefix h (hcopied a' hcopy))
  · rw [CArray.store, dif_neg hpos, if_neg (by omega)]
    rfl

theorem mallocFill_eq (fresh : (size : Nat) → CArray size) (size : Int) {sb : StringBuf}
    (h : 0 ∉ sb.toChar) :
    ((malloc fresh size).bind fun block => fillBlock sb block.2) =
      if sb.toChar.length < size then some sb.toChar else none := by
  by_cases hsize : 0 ≤ size
  · rw [malloc_eq hsize, Option.bind_some, fillBlock_eq _ h]
    by_cases hlt : sb.toChar.length < size
    · rw [if_pos hlt, if_pos (show sb.toChar.length < size.toNat by omega)]
    · rw [if_neg hlt, if_neg (show ¬sb.toChar.length < size.toNat by omega)]
  · rw [malloc, if_neg hsize, if_neg (by omega)]
    rfl

/-- `sb_to_char` hands out the parts one behind the other as long as an `int` counts their
bytes and the terminator.  Otherwise its block is too small. -/
theorem sbToChar_eq (fresh : (size : Nat) → CArray size) {sb : StringBuf} (h : 0 ∉ sb.toChar) :
    sbToChar fresh sb = if sb.toChar.length + 1 < 2 ^ 31 then some sb.toChar else none := by
  rw [sbToChar, sbLen_eq, wrapInt_add, mallocFill_eq fresh _ h]
  have hmem := wrapInt_mem (sb.toChar.length + 1)
  by_cases hlt : sb.toChar.length + 1 < 2 ^ 31
  · have hwrap : wrapInt (sb.toChar.length + 1) = sb.toChar.length + 1 := wrapInt_eq (by omega)
    rw [if_pos hlt, if_pos (by omega)]
  · rw [if_neg hlt, if_neg (by omega)]

/-! ## The code of a string -/

/-- `text` stands between the two quotes that `json_add_string` appends for `value`. -/
def Writes (fresh : (size : Nat) → CArray size) (json : JsonWriter) (key value : CString)
    (text : List UInt8) : Prop :=
  ∃ json' parts, addString fresh json key value = some json' ∧
    json'.sb = ((json.addKey key.bytes).append (ascii "\"")).sb ++ parts ++ [ascii "\""] ∧
      StringBuf.toChar parts = text

/-- `text` is JSON for the bytes of `value`. -/
structure IsCode (value : CString) (text : List UInt8) : Prop where
  inRange : ∀ b ∈ text, 0x20 ≤ b ∧ b ≤ 0x7f
  noQuote : [quote] ∉ units text
  whole : ∀ unit ∈ units text, ∃ code, IsUnit .bytes unit code
  six : ∀ unit ∈ units text, [backslash, 117] <+: unit → unit.length = 6
  decodes : ∃ codes, readChars .bytes (text ++ [quote]) = some (codes, []) ∧
    codePoints codes = value.bytes.map UInt8.toNat

theorem units_escaped (s : List UInt8) : units (escaped s) = s.map escapeUnit :=
  units_flatMap (@isUnit_escapeUnit .bytes) s

theorem inRange_escapeUnit {b c : UInt8} (hb : b ∈ escapeUnit c) : 0x20 ≤ b ∧ b ≤ 0x7f := by
  have h : ∀ i : Fin 256,
      (escapeUnit (UInt8.ofFin i)).all (fun b => decide (0x20 ≤ b ∧ b ≤ 0x7f)) = true := by
    decide +kernel
  exact of_decide_eq_true (List.all_eq_true.1 (h c.toFin) b hb)

theorem writes_iff {fresh : (size : Nat) → CArray size} {json : JsonWriter} {key value : CString}
    {text : List UInt8} : Writes fresh json key value text ↔ text = escaped value.bytes := by
  obtain ⟨parts, hparts, hchars⟩ :=
    addChars_wrote ((json.addKey key.bytes).append (ascii "\"")) [] value.bytes
  have hsb : (json.addString key.bytes value.bytes).sb =
      ((json.addKey key.bytes).append (ascii "\"")).sb ++ parts ++ [ascii "\""] := by
    rw [JsonWriter.addString, hchars]
    rfl
  rw [Writes, addString_eq]
  constructor
  · intro h
    obtain ⟨json', parts', heq, hsb', htext⟩ := h
    obtain rfl := Option.some.inj heq
    rw [hsb, List.append_left_inj, List.append_right_inj] at hsb'
    rw [← htext, ← hsb', hparts, List.nil_append]
  · intro h
    refine ⟨_, parts, rfl, hsb, ?_⟩
    rw [hparts, h, List.nil_append]

theorem isCode_escaped (value : CString) : IsCode value (escaped value.bytes) where
  inRange := by
    intro b hb
    rw [← flatten_units (escaped value.bytes), units_escaped] at hb
    obtain ⟨unit, hunit, hb⟩ := List.mem_flatten.1 hb
    obtain ⟨c, -, rfl⟩ := List.mem_map.1 hunit
    exact inRange_escapeUnit hb
  noQuote := by
    intro hmem
    rw [units_escaped] at hmem
    obtain ⟨c, -, heq⟩ := List.mem_map.1 hmem
    exact (@isUnit_escapeUnit .bytes c).ne_quote heq
  whole := by
    intro unit hunit
    rw [units_escaped] at hunit
    obtain ⟨c, -, rfl⟩ := List.mem_map.1 hunit
    exact ⟨_, isUnit_escapeUnit c⟩
  six := by
    intro unit hunit hprefix
    rw [units_escaped] at hunit
    obtain ⟨c, -, rfl⟩ := List.mem_map.1 hunit
    exact (@isUnit_escapeUnit .bytes c).length_eq_six hprefix
  decodes := by
    refine ⟨codeUnits value.bytes, readChars_of_isChars (isChars_escaped value.bytes) [], ?_⟩
    have hcodes : ∀ code ∈ codeUnits value.bytes, code < 0xD800 := by
      intro code hcode
      obtain ⟨c, -, rfl⟩ := List.mem_map.1 hcode
      rw [UInt16.lt_iff_toNat_lt, UInt8.toNat_toUInt16]
      exact c.toNat_lt.trans (by decide)
    rw [codePoints_eq hcodes, codeUnits, List.map_map]
    rfl

/-- Whatever stands between the quotes is a text of this kind, and it tells the value. -/
theorem addString_escapes (fresh : (size : Nat) → CArray size) (json : JsonWriter)
    (key value : CString) :
    (∃ text, Writes fresh json key value text) ∧
      ∀ text, Writes fresh json key value text → IsCode value text ∧
        ∀ fresh' json' key' value', Writes fresh' json' key' value' text → value' = value := by
  refine ⟨⟨escaped value.bytes, writes_iff.2 rfl⟩, fun text hwrites => ?_⟩
  have htext := writes_iff.1 hwrites
  refine ⟨htext ▸ isCode_escaped value, ?_⟩
  intro fresh' json' key' value' hwrites'
  have htext' := writes_iff.1 hwrites'
  rw [htext] at htext'
  exact CString.ext' (escaped_injective htext').symm

end InPlace

end DbRelay
