import Mathlib.Data.List.Basic

/-!
# UTF-8 and UTF-16

Bytes that hold characters in UTF-8, and the UTF-16 code units of the characters.  A character
is wide if it takes more than one byte.  Then neither a byte nor a code unit of it is ASCII.

* `decodeChar`: the character that some bytes start with.
* `decode`: the characters of a whole text, which `encode` turns back to its bytes.
* `units_decode_eq_iff`: only in ASCII is each byte a code unit.
* `mem_units_iff`: the ASCII bytes of a text are its ASCII code units.
-/

namespace Utf8

/-- The character that some bytes start with. -/
def decodeChar (s : List UInt8) : Option Char := s.toByteArray.utf8DecodeChar? 0

/-- The bytes of some characters. -/
def encode (cs : List Char) : List UInt8 := cs.flatMap String.utf8EncodeChar

/-- The characters of a text. -/
def decode (s : List UInt8) : Option (List Char) :=
  (String.fromUTF8? s.toByteArray).map String.toList

/-- The code units of a character, two of them beyond `0xFFFF`. -/
def utf16 (c : Char) : List UInt16 :=
  if c.toNat < 0x10000 then [UInt16.ofNat c.toNat]
  else [UInt16.ofNat (0xD800 + (c.toNat - 0x10000) / 0x400),
    UInt16.ofNat (0xDC00 + (c.toNat - 0x10000) % 0x400)]

/-- The code units of some characters. -/
def units (cs : List Char) : List UInt16 := cs.flatMap utf16

/-- A character of more than one byte. -/
def IsWide (c : Char) : Prop := 128 ≤ c.toNat

instance (c : Char) : Decidable (IsWide c) := inferInstanceAs (Decidable (128 ≤ c.toNat))

/-! ## Decoding -/

theorem decodeChar_append (c : Char) (s : List UInt8) :
    decodeChar (String.utf8EncodeChar c ++ s) = some c := by
  rw [decodeChar, List.toByteArray_append, ByteArray.utf8DecodeChar?_utf8EncodeChar_append]

theorem decodeChar_eq_some_iff {s : List UInt8} {c : Char} :
    decodeChar s = some c ↔ ∃ t, s = String.utf8EncodeChar c ++ t := by
  constructor
  · intro h
    obtain ⟨t, ht⟩ := ByteArray.exists_of_utf8DecodeChar?_eq_some h
    refine ⟨t.data.toList, List.toByteArray_inj.1 ?_⟩
    rw [ht, List.toByteArray_append]
    congr 1
    exact ByteArray.ext (by rw [List.data_toByteArray])
  · rintro ⟨t, rfl⟩
    exact decodeChar_append c t

theorem toByteArray_encode (cs : List Char) : (encode cs).toByteArray = cs.utf8Encode := rfl

theorem decode_eq_some_iff {s : List UInt8} {cs : List Char} :
    decode s = some cs ↔ encode cs = s := by
  rw [decode, Option.map_eq_some_iff, ← List.toByteArray_inj, toByteArray_encode]
  constructor
  · rintro ⟨text, htext, rfl⟩
    rw [String.utf8Encode_toList]
    unfold String.fromUTF8? at htext
    split at htext
    · rw [← Option.some.inj htext]
      rfl
    · cases htext
  · intro h
    have hvalid : s.toByteArray.IsValidUTF8 := ⟨cs, h.symm⟩
    refine ⟨String.ofList cs, ?_, String.toList_ofList⟩
    unfold String.fromUTF8?
    rw [dif_pos hvalid]
    refine congrArg some (String.toByteArray_inj.1 ?_)
    rw [String.toByteArray_ofList, h]
    rfl

/-! ## Narrow and wide characters -/

theorem toNat_lt (c : Char) : c.toNat < 0x110000 := by
  have := c.valid
  unfold UInt32.isValidChar Nat.isValidChar at this
  have htoNat : c.toNat = c.val.toNat := rfl
  omega

theorem utf8EncodeChar_narrow {c : Char} (h : ¬IsWide c) :
    String.utf8EncodeChar c = [UInt8.ofNat c.toNat] := by
  have hlt : c.val.toNat ≤ 127 := by
    have : ¬128 ≤ c.val.toNat := h
    omega
  rw [String.utf8EncodeChar, if_pos hlt]
  rfl

theorem utf16_narrow {c : Char} (h : ¬IsWide c) :
    utf16 c = [(UInt8.ofNat c.toNat).toUInt16] := by
  have hlt : c.toNat < 128 := Nat.lt_of_not_le h
  rw [utf16, if_pos (by omega)]
  refine congrArg (fun unit => [unit]) (UInt16.toNat_inj.1 ?_)
  rw [UInt8.toNat_toUInt16, UInt16.toNat_ofNat', UInt8.toNat_ofNat']
  omega

/-- The bytes of a wide character. -/
theorem le_of_mem_utf8EncodeChar {c : Char} (h : IsWide c) :
    ∀ b ∈ String.utf8EncodeChar c, 128 ≤ b := by
  have hge : 128 ≤ c.val.toNat := h
  have hbyte : ∀ n, 128 ≤ n → n < 256 → 128 ≤ UInt8.ofNat n := by
    intro n hle hlt
    rw [UInt8.le_iff_toNat_le, UInt8.toNat_ofNat', Nat.mod_eq_of_lt hlt]
    exact hle
  rw [String.utf8EncodeChar, if_neg (by omega)]
  split
  · simp only [List.forall_mem_cons]
    exact ⟨hbyte _ (by omega) (by omega), hbyte _ (by omega) (by omega), by simp⟩
  split
  · simp only [List.forall_mem_cons]
    exact ⟨hbyte _ (by omega) (by omega), hbyte _ (by omega) (by omega),
      hbyte _ (by omega) (by omega), by simp⟩
  · simp only [List.forall_mem_cons]
    exact ⟨hbyte _ (by omega) (by omega), hbyte _ (by omega) (by omega),
      hbyte _ (by omega) (by omega), hbyte _ (by omega) (by omega), by simp⟩

/-- What starts with a wide character does not start with an ASCII byte. -/
theorem le_of_wide_append {c : Char} (h : IsWide c) {b : UInt8} {s t : List UInt8}
    (heq : String.utf8EncodeChar c ++ t = b :: s) : 128 ≤ b := by
  refine le_of_mem_utf8EncodeChar h b ?_
  have hpos : 0 < (String.utf8EncodeChar c).length := by
    rw [String.length_utf8EncodeChar]
    exact c.utf8Size_pos
  cases hbytes : String.utf8EncodeChar c with
  | nil =>
    rw [hbytes] at hpos
    cases hpos
  | cons x xs =>
    rw [hbytes] at heq
    rw [← (List.cons.inj heq).1]
    exact List.mem_cons_self

/-- The code units of a wide character. -/
theorem le_of_mem_utf16 {c : Char} (h : IsWide c) : ∀ unit ∈ utf16 c, 128 ≤ unit := by
  have hlt := toNat_lt c
  have hunit : ∀ n, 128 ≤ n → n < 0x10000 → 128 ≤ UInt16.ofNat n := by
    intro n hle hlt
    rw [UInt16.le_iff_toNat_le, UInt16.toNat_ofNat', Nat.mod_eq_of_lt hlt]
    exact hle
  rw [IsWide] at h
  rw [utf16]
  split
  · rename_i hsmall
    simp only [List.forall_mem_cons]
    exact ⟨hunit _ h hsmall, by simp⟩
  · simp only [List.forall_mem_cons]
    exact ⟨hunit _ (by omega) (by omega), hunit _ (by omega) (by omega), by simp⟩

/-- A wide character has fewer code units than bytes. -/
theorem length_utf16_lt {c : Char} (h : IsWide c) :
    0 < (utf16 c).length ∧ (utf16 c).length < (String.utf8EncodeChar c).length := by
  have hge : 128 ≤ c.val.toNat := h
  rw [utf16, String.utf8EncodeChar, if_neg (show ¬c.val.toNat ≤ 127 by omega)]
  have htoNat : c.toNat = c.val.toNat := rfl
  rw [htoNat]
  split
  · split
    · simp
    · split <;> simp
  · rw [if_neg (by omega), if_neg (by omega)]
    simp

theorem encode_cons (c : Char) (cs : List Char) :
    encode (c :: cs) = String.utf8EncodeChar c ++ encode cs := rfl

theorem units_cons (c : Char) (cs : List Char) : units (c :: cs) = utf16 c ++ units cs := rfl

/-- A text has no more code units than bytes. -/
theorem length_units_le (cs : List Char) : (units cs).length ≤ (encode cs).length := by
  induction cs with
  | nil => exact Nat.le_refl 0
  | cons c cs ih =>
    have hchar : (utf16 c).length ≤ (String.utf8EncodeChar c).length := by
      by_cases hc : IsWide c
      · exact Nat.le_of_lt (length_utf16_lt hc).2
      · rw [utf16_narrow hc, utf8EncodeChar_narrow hc]
        exact Nat.le_refl 1
    rw [units_cons, encode_cons, List.length_append, List.length_append]
    exact Nat.add_le_add hchar ih

/-- A text with a wide character has fewer code units than bytes. -/
theorem length_units_lt {c : Char} (hc : IsWide c) {cs : List Char} (hmem : c ∈ cs) :
    (units cs).length < (encode cs).length := by
  obtain ⟨before, after, rfl⟩ := List.append_of_mem hmem
  have hbefore := length_units_le before
  have hchar := (length_utf16_lt hc).2
  have hafter := length_units_le after
  simp only [units, encode, List.flatMap_append, List.flatMap_cons, List.length_append]
    at hbefore hafter ⊢
  omega

/-- The character of an ASCII byte. -/
theorem narrow_ofNat {b : UInt8} (hb : b < 128) :
    ¬IsWide (Char.ofNat b.toNat) ∧ UInt8.ofNat (Char.ofNat b.toNat).toNat = b := by
  have hlt : b.toNat < 128 := hb
  have hvalid : b.toNat.isValidChar := .inl (by omega)
  have htoNat : (Char.ofNat b.toNat).toNat = b.toNat := by
    rw [Char.ofNat, dif_pos hvalid]
    exact UInt32.toNat_ofNatLT
  rw [IsWide, htoNat]
  exact ⟨by omega, UInt8.ofNat_toNat⟩

/-- Each byte of a text is a code unit of it exactly if the text is ASCII. -/
theorem units_decode_eq_iff {s : List UInt8} :
    (decode s).map units = some (s.map UInt8.toUInt16) ↔ ∀ b ∈ s, b < 128 := by
  constructor
  · intro h b hb
    obtain ⟨cs, hcs, hunits⟩ := Option.map_eq_some_iff.1 h
    rw [decode_eq_some_iff] at hcs
    subst hcs
    obtain ⟨c, hc, hbyte⟩ := List.mem_flatMap.1 hb
    by_cases hwide : IsWide c
    · have hlen := length_units_lt hwide hc
      rw [hunits, List.length_map] at hlen
      exact absurd hlen (Nat.lt_irrefl _)
    · rw [utf8EncodeChar_narrow hwide, List.mem_singleton] at hbyte
      rw [hbyte, UInt8.lt_iff_toNat_lt, UInt8.toNat_ofNat']
      exact Nat.lt_of_le_of_lt (Nat.mod_le _ _) (Nat.lt_of_not_le hwide)
  · intro h
    refine Option.map_eq_some_iff.2 ⟨s.map fun b => Char.ofNat b.toNat, ?_⟩
    rw [decode_eq_some_iff]
    induction s with
    | nil => exact ⟨rfl, rfl⟩
    | cons b s ih =>
      obtain ⟨hb, hs⟩ := List.forall_mem_cons.1 h
      obtain ⟨hnarrow, hbyte⟩ := narrow_ofNat hb
      obtain ⟨hencode, hunits⟩ := ih hs
      constructor
      · rw [List.map_cons, encode_cons, hencode, utf8EncodeChar_narrow hnarrow, hbyte]
        rfl
      · rw [List.map_cons, units_cons, hunits, utf16_narrow hnarrow, hbyte]
        rfl

/-- The ASCII bytes of a text are its ASCII code units. -/
theorem mem_units_iff {b : UInt8} (hb : b < 128) {cs : List Char} :
    b.toUInt16 ∈ units cs ↔ b ∈ encode cs := by
  have hunit : ¬(128 : UInt16) ≤ b.toUInt16 := by
    rw [UInt16.le_iff_toNat_le, UInt8.toNat_toUInt16]
    rw [UInt8.lt_iff_toNat_lt] at hb
    have hleft : (128 : UInt8).toNat = 128 := rfl
    have hright : (128 : UInt16).toNat = 128 := rfl
    omega
  have hchar : ∀ c, b.toUInt16 ∈ utf16 c ↔ b ∈ String.utf8EncodeChar c := by
    intro c
    by_cases hc : IsWide c
    · refine iff_of_false (fun h => hunit (le_of_mem_utf16 hc _ h)) fun h => ?_
      exact absurd hb (UInt8.not_lt.2 (le_of_mem_utf8EncodeChar hc _ h))
    · rw [utf16_narrow hc, utf8EncodeChar_narrow hc, List.mem_singleton, List.mem_singleton]
      constructor
      · intro h
        have htoNat := congrArg UInt16.toNat h
        rw [UInt8.toNat_toUInt16, UInt8.toNat_toUInt16] at htoNat
        exact UInt8.toNat_inj.1 htoNat
      · rintro rfl
        rfl
  rw [units, encode, List.mem_flatMap, List.mem_flatMap]
  exact exists_congr fun c => and_congr_right fun _ => hchar c

end Utf8
