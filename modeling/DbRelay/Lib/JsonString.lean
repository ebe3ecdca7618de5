import DbRelay.Lib.Json

/-!
# The units of a JSON string

What stands between the quotes of a string is a row of units: a byte that stands for itself,
or an escape of two or of six bytes.  A reader who knows only the lengths of the escapes can
split any text.

* `units`: this split.  An escape at the end of the text may be cut short.
* `IsUnit`: a unit that is whole, with the code unit that it stands for.
* `codePoints`: the code points of the code units, a surrogate pair being one.
* `units_flatMap` and `isChars_flatMap`: an encoder that writes one whole unit for each symbol
  is split where it wrote, and read back as the codes of the symbols.
-/

namespace Json

/-! ## Units -/

/-- A whole unit and its code unit. -/
inductive IsUnit (enc : Encoding) : List UInt8 → UInt16 → Prop
  | plain {b : UInt8} (hb : isPlain enc b = true) : IsUnit enc [b] b.toUInt16
  | escape {b : UInt8} {code : UInt16} (hb : escapeCode b = some code) :
      IsUnit enc [backslash, b] code
  | unicode {a b c d : UInt8} {code : UInt16} (hcode : hexCode a b c d = some code) :
      IsUnit enc [backslash, 117, a, b, c, d] code

/-- The units of any bytes. -/
def units : List UInt8 → List (List UInt8)
  | [] => []
  | [b] => [[b]]
  | b :: e :: s =>
    if b = backslash then
      if e = 117 then (b :: e :: s.take 4) :: units (s.drop 4)
      else [b, e] :: units s
    else [b] :: units (e :: s)
  termination_by s => s.length
  decreasing_by
    · rw [List.length_drop, List.length_cons, List.length_cons]
      omega
    · rw [List.length_cons, List.length_cons]
      omega
    · rw [List.length_cons]
      exact Nat.lt_succ_self _

theorem units_cons {b : UInt8} (hb : b ≠ backslash) (s : List UInt8) :
    units (b :: s) = [b] :: units s := by
  cases s with
  | nil => rw [units, units]
  | cons e s => rw [units, if_neg hb]

/-- Nothing gets lost. -/
theorem flatten_units (s : List UInt8) : (units s).flatten = s := by
  induction s using units.induct with
  | case1 => rw [units, List.flatten_nil]
  | case2 b => rw [units, List.flatten_singleton]
  | case3 s ih =>
    rw [units, if_pos rfl, if_pos rfl, List.flatten_cons, ih]
    simp
  | case4 e s he ih =>
    rw [units, if_pos rfl, if_neg he, List.flatten_cons, ih]
    rfl
  | case5 b e s hb ih =>
    rw [units, if_neg hb, List.flatten_cons, ih]
    rfl

/-- The `u` has four digits behind it. -/
theorem escapeCode_u : escapeCode 117 = none := by decide

namespace IsUnit

variable {enc : Encoding} {u s : List UInt8} {code : UInt16}

theorem units_append (h : IsUnit enc u code) (s : List UInt8) : units (u ++ s) = u :: units s := by
  cases h with
  | plain hb =>
    simp only [isPlain, decide_eq_true_eq] at hb
    exact units_cons hb.2.2.1 s
  | @escape b _ hb =>
    have hne : b ≠ 117 := by
      intro heq
      rw [heq, escapeCode_u] at hb
      cases hb
    show units (backslash :: b :: s) = _
    rw [units, if_pos rfl, if_neg hne]
  | @unicode a b c d _ hcode =>
    show units (backslash :: 117 :: ([a, b, c, d] ++ s)) = _
    rw [units, if_pos rfl, if_pos rfl]
    rfl

theorem isChars_append {codes : List UInt16} (h : IsUnit enc u code) (hs : IsChars enc s codes) :
    IsChars enc (u ++ s) (code :: codes) := by
  cases h with
  | plain hb => exact .plain hb hs
  | escape hb => exact .escape hb hs
  | unicode hcode => exact .unicode hcode hs

/-- A quote is not a unit. -/
theorem ne_quote (h : IsUnit enc u code) : u ≠ [quote] := by
  intro heq
  subst heq
  cases h with
  | plain hb =>
    simp only [isPlain, decide_eq_true_eq] at hb
    exact absurd rfl hb.2.1

/-- The escapes with `u` have six bytes. -/
theorem length_eq_six (h : IsUnit enc u code) (hu : [backslash, 117] <+: u) : u.length = 6 := by
  obtain ⟨t, rfl⟩ := hu
  cases h with
  | escape hb =>
    rw [escapeCode_u] at hb
    cases hb
  | unicode hcode => rfl

end IsUnit

/-! ## Encoders -/

section Encoder

variable {enc : Encoding} {α : Type} {unit : α → List UInt8} {code : α → UInt16}

theorem units_flatMap (h : ∀ x, IsUnit enc (unit x) (code x)) (xs : List α) :
    units (xs.flatMap unit) = xs.map unit := by
  induction xs with
  | nil => rw [List.flatMap_nil, units, List.map_nil]
  | cons x xs ih => rw [List.flatMap_cons, (h x).units_append, ih, List.map_cons]

theorem isChars_flatMap (h : ∀ x, IsUnit enc (unit x) (code x)) (xs : List α) :
    IsChars enc (xs.flatMap unit) (xs.map code) := by
  induction xs with
  | nil => exact .nil
  | cons x xs ih =>
    rw [List.flatMap_cons, List.map_cons]
    exact (h x).isChars_append ih

end Encoder

/-! ## Code points -/

/-- The code points of code units.  A surrogate that has no partner stands for itself. -/
def codePoints : List UInt16 → List Nat
  | [] => []
  | [code] => [code.toNat]
  | high :: low :: codes =>
    if (0xD800 ≤ high ∧ high < 0xDC00) ∧ 0xDC00 ≤ low ∧ low < 0xE000 then
      (0x10000 + (high.toNat - 0xD800) * 0x400 + (low.toNat - 0xDC00)) :: codePoints codes
    else high.toNat :: codePoints (low :: codes)

/-- Without surrogates every code unit is a code point. -/
theorem codePoints_eq {codes : List UInt16} (h : ∀ code ∈ codes, code < 0xD800) :
    codePoints codes = codes.map UInt16.toNat := by
  induction codes with
  | nil => rfl
  | cons high codes ih =>
    have hhigh : ¬0xD800 ≤ high := UInt16.not_le.2 (h high List.mem_cons_self)
    have hrest := ih fun code hcode => h code (List.mem_cons_of_mem high hcode)
    cases codes with
    | nil => rfl
    | cons low codes =>
      rw [codePoints, if_neg fun hpair => hhigh hpair.1.1, hrest]
      rfl

end Json
