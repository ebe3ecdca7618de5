import Mathlib.Data.List.Basic
import Mathlib.Data.Nat.Init
import Mathlib.Tactic.Common

/-!
# Percent encoding

`encode` writes letters and digits as they are, and each other byte as a percent sign and
two digits.  `decode` reads such a text back.  A percent sign without two digits stands for
itself there.

* `decode_encode`: a round trip.
* `isAlnum_of_mem_encode`: what an encoded text consists of, so that a text around it can
  use every other byte as a separator.
-/

namespace Percent

/-- `'%'`. -/
def percent : UInt8 := 37

/-- A letter or a digit. -/
def isAlnum (b : UInt8) : Bool :=
  decide (48 ≤ b ∧ b ≤ 57 ∨ 65 ≤ b ∧ b ≤ 90 ∨ 97 ≤ b ∧ b ≤ 122)

def hexDigit (n : Nat) : UInt8 := if n < 10 then (48 + n).toUInt8 else (55 + n).toUInt8

def hexValue (b : UInt8) : Option Nat :=
  if 48 ≤ b ∧ b ≤ 57 then some (b.toNat - 48)
  else if 65 ≤ b ∧ b ≤ 70 then some (b.toNat - 55)
  else if 97 ≤ b ∧ b ≤ 102 then some (b.toNat - 87)
  else none

def encodeByte (b : UInt8) : List UInt8 :=
  if isAlnum b then [b] else [percent, hexDigit (b.toNat / 16), hexDigit (b.toNat % 16)]

def encode (s : List UInt8) : List UInt8 := s.flatMap encodeByte

/-- The byte that two digits spell. -/
def pair (a b : UInt8) : Option UInt8 :=
  (hexValue a).bind fun x => (hexValue b).map fun y => (16 * x + y).toUInt8

def decode : List UInt8 → List UInt8
  | [] => []
  | [c] => [c]
  | [c, a] => [c, a]
  | c :: a :: b :: rest =>
    if c = percent then
      match pair a b with
      | some d => d :: decode rest
      | none => c :: decode (a :: b :: rest)
    else c :: decode (a :: b :: rest)

/-! ## The round trip -/

theorem decode_cons {c : UInt8} (hc : c ≠ percent) (s : List UInt8) :
    decode (c :: s) = c :: decode s := by
  match s with
  | [] => rfl
  | [a] => rfl
  | a :: b :: rest => rw [decode, if_neg hc]

theorem decode_percent {a b d : UInt8} (h : pair a b = some d) (rest : List UInt8) :
    decode (percent :: a :: b :: rest) = d :: decode rest := by
  rw [decode, if_pos rfl, h]

theorem pair_hexDigit : ∀ b : UInt8,
    pair (hexDigit (b.toNat / 16)) (hexDigit (b.toNat % 16)) = some b := by
  have hall : ∀ n : Fin 256, pair (hexDigit (n.val / 16)) (hexDigit (n.val % 16)) =
      some n.val.toUInt8 := by decide +kernel
  intro b
  have h := hall ⟨b.toNat, b.toNat_lt⟩
  rwa [Nat.toUInt8_eq, UInt8.ofNat_toNat] at h

theorem isAlnum_ne {b c : UInt8} (h : isAlnum b = true) (hc : isAlnum c = false) : b ≠ c := by
  rintro rfl
  rw [h] at hc
  cases hc

theorem decode_encodeByte (b : UInt8) (s : List UInt8) :
    decode (encodeByte b ++ s) = b :: decode s := by
  unfold encodeByte
  split
  · rename_i h
    exact decode_cons (isAlnum_ne h (by decide)) s
  · exact decode_percent (pair_hexDigit b) s

theorem decode_encode (s : List UInt8) : decode (encode s) = s := by
  induction s with
  | nil => rfl
  | cons b s ih =>
    rw [encode, List.flatMap_cons, decode_encodeByte]
    exact congrArg _ ih

theorem isAlnum_hexDigit {n : Nat} (h : n < 16) : isAlnum (hexDigit n) = true := by
  have hall : ∀ n : Fin 16, isAlnum (hexDigit n.val) = true := by decide
  exact hall ⟨n, h⟩

/-- An encoded text has letters, digits and percent signs. -/
theorem isAlnum_of_mem_encode {s : List UInt8} {b : UInt8} (h : b ∈ encode s) :
    isAlnum b = true ∨ b = percent := by
  obtain ⟨c, -, hb⟩ := List.mem_flatMap.1 h
  unfold encodeByte at hb
  split at hb
  · rename_i hc
    rw [List.mem_singleton.1 hb]
    exact .inl hc
  · have hlt := c.toNat_lt
    simp only [List.mem_cons, List.not_mem_nil, or_false] at hb
    rcases hb with rfl | rfl | rfl
    · exact .inr rfl
    · exact .inl (isAlnum_hexDigit (by omega))
    · exact .inl (isAlnum_hexDigit (by omega))

theorem not_mem_encode {b : UInt8} (h : isAlnum b = false) (hb : b ≠ percent) (s : List UInt8) :
    b ∉ encode s := by
  intro hmem
  rcases isAlnum_of_mem_encode hmem with halnum | hpercent
  · exact isAlnum_ne halnum h rfl
  · exact hb hpercent

/-- Decoding makes no text longer. -/
theorem length_decode_le (s : List UInt8) : (decode s).length ≤ s.length := by
  induction s using decode.induct with
  | case1 => exact Nat.le_refl _
  | case2 c => exact Nat.le_refl _
  | case3 c a => exact Nat.le_refl _
  | case4 a b rest d hpair ih =>
    rw [decode_percent hpair, List.length_cons, List.length_cons, List.length_cons,
      List.length_cons]
    omega
  | case5 a b rest hpair ih =>
    rw [decode, if_pos rfl, hpair, List.length_cons, List.length_cons]
    omega
  | case6 c a b rest hc ih =>
    rw [decode_cons hc, List.length_cons, List.length_cons]
    omega

end Percent
