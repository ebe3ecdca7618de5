import Mathlib.Data.Nat.Digits.Lemmas
import Mathlib.Tactic.Ring

/-!
# Decimal texts

`sprintf` of a `long` and of an `unsigned long`, and `atol`.  The texts are
lists of bytes.  `atol` reads a longest prefix and saturates, as the GNU C
library does.

`atol_take_decimalInt` is the result that callers with a short buffer need: a
text that was cut after `size` bytes reads back as the same number exactly when
nothing was cut.
-/

namespace Decimal

/-- The byte of a digit. -/
def digitByte (d : Nat) : UInt8 := (48 + d).toUInt8

/-- `"%lu"`. -/
def decimal (n : Nat) : List UInt8 :=
  if n = 0 then [48] else (Nat.digits 10 n).reverse.map digitByte

/-- `"%ld"`. -/
def decimalInt (z : Int) : List UInt8 :=
  if z < 0 then 45 :: decimal z.natAbs else decimal z.natAbs

def isDigit (b : UInt8) : Bool := decide (48 ≤ b ∧ b ≤ 57)

/-- `isspace`. -/
def isSpace (b : UInt8) : Bool := decide (b = 32 ∨ 9 ≤ b ∧ b ≤ 13)

/-- The number that the leading digits spell, after those that gave `acc`. -/
def readDigits (acc : Nat) : List UInt8 → Nat
  | [] => acc
  | b :: bs => if isDigit b then readDigits (acc * 10 + (b.toNat - 48)) bs else acc

/-- The nearest `long`. -/
def saturate (z : Int) : Int := max (-2 ^ 63) (min (2 ^ 63 - 1) z)

/-- `atol`. -/
def atol (s : List UInt8) : Int :=
  match s.dropWhile isSpace with
  | [] => 0
  | b :: bs =>
    if b = 45 then saturate (-(readDigits 0 bs : Int))
    else if b = 43 then saturate (readDigits 0 bs)
    else saturate (readDigits 0 (b :: bs))

/-! ## Digits -/

theorem digitByte_toNat {d : Nat} (h : d < 10) : (digitByte d).toNat = 48 + d := by
  show (48 + d) % 256 = 48 + d
  omega

theorem isDigit_iff {b : UInt8} : isDigit b = true ↔ 48 ≤ b.toNat ∧ b.toNat ≤ 57 := by
  simp only [isDigit, decide_eq_true_eq, UInt8.le_iff_toNat_le]
  rfl

theorem isDigit_digitByte {d : Nat} (h : d < 10) : isDigit (digitByte d) = true := by
  rw [isDigit_iff, digitByte_toNat h]
  omega

/-- Every byte of a text is a digit. -/
theorem isDigit_of_mem_decimal {n : Nat} {b : UInt8} (h : b ∈ decimal n) :
    isDigit b = true := by
  unfold decimal at h
  split at h
  · rw [List.mem_singleton.1 h]
    rfl
  · obtain ⟨d, hd, rfl⟩ := List.mem_map.1 h
    exact isDigit_digitByte (Nat.digits_lt_base (by decide) (List.mem_reverse.1 hd))

theorem decimal_ne_nil (n : Nat) : decimal n ≠ [] := by
  unfold decimal
  split
  · exact List.cons_ne_nil _ _
  · rename_i hn
    simpa [Nat.digits_ne_nil_iff_ne_zero] using hn

/-- The text of a number below `10 ^ k` has at most `k` digits. -/
theorem length_decimal_le_iff {n k : Nat} (hk : 0 < k) :
    (decimal n).length ≤ k ↔ n < 10 ^ k := by
  unfold decimal
  split
  · rename_i hn
    subst hn
    simp only [List.length_singleton]
    exact ⟨fun _ => by positivity, fun _ => hk⟩
  · rw [List.length_map, List.length_reverse, Nat.digits_length_le_iff (by decide)]

/-- Reading a list of digits. -/
theorem readDigits_map {l : List Nat} (hl : ∀ d ∈ l, d < 10) (acc : Nat) :
    readDigits acc (l.map digitByte) = acc * 10 ^ l.length + Nat.ofDigits 10 l.reverse := by
  induction l generalizing acc with
  | nil => simp [readDigits]
  | cons d l ih =>
    have hd : d < 10 := hl d List.mem_cons_self
    rw [List.map_cons, readDigits, if_pos (isDigit_digitByte hd), digitByte_toNat hd,
      ih fun x hx => hl x (List.mem_cons_of_mem _ hx)]
    rw [List.reverse_cons, Nat.ofDigits_append, Nat.ofDigits_singleton,
      List.length_reverse, List.length_cons, show 48 + d - 48 = d by omega]
    ring

/-- Reading the text of a number. -/
theorem readDigits_decimal (n : Nat) : readDigits 0 (decimal n) = n := by
  unfold decimal
  split
  · rename_i hn
    rw [hn]
    rfl
  · rw [readDigits_map, List.reverse_reverse, Nat.ofDigits_digits]
    · omega
    · intro d hd
      exact Nat.digits_lt_base (by decide) (List.mem_reverse.1 hd)

theorem decimal_injective : Function.Injective decimal :=
  Function.LeftInverse.injective readDigits_decimal

/-- `k` digits spell a number below `10 ^ k`. -/
theorem readDigits_lt {s : List UInt8} (acc : Nat) :
    readDigits acc s < (acc + 1) * 10 ^ s.length := by
  induction s generalizing acc with
  | nil => simp [readDigits]
  | cons b bs ih =>
    rw [readDigits, List.length_cons]
    split
    · rename_i hb
      have hd := (isDigit_iff.1 hb).2
      refine lt_of_lt_of_le (ih _) ?_
      rw [pow_succ, ← mul_assoc, mul_right_comm]
      refine Nat.mul_le_mul_right _ ?_
      omega
    · have hpow : 1 ≤ 10 ^ (bs.length + 1) := Nat.one_le_pow _ _ (by decide)
      nlinarith

/-- The text of a number has at most `k + 1` bytes when the digits fit. -/
theorem length_decimalInt_le_iff {z : Int} {k : Nat} (hk : 0 < k) :
    (decimalInt z).length ≤ k + 1 ↔ -10 ^ k < z ∧ z < 10 ^ (k + 1) := by
  have hdigits := @length_decimal_le_iff z.natAbs
  have hpos : (0 : Int) < 10 ^ (k + 1) := by positivity
  have hpos' : (0 : Int) < 10 ^ k := by positivity
  unfold decimalInt
  split
  · rename_i hneg
    rw [List.length_cons, Nat.add_le_add_iff_right, hdigits hk]
    zify
    rw [abs_of_neg hneg]
    omega
  · rename_i hnonneg
    rw [hdigits (Nat.succ_pos k)]
    zify
    rw [abs_of_nonneg (not_lt.1 hnonneg)]
    omega

theorem decimalInt_injective : Function.Injective decimalInt := by
  have hsign : ∀ n : Nat, (45 : UInt8) ∉ decimal n := fun n hmem =>
    absurd (isDigit_of_mem_decimal hmem) (by decide)
  intro z w h
  unfold decimalInt at h
  split at h <;> split at h
  · have habs := decimal_injective (List.cons.inj h).2
    omega
  · exact absurd (h ▸ List.mem_cons_self) (hsign w.natAbs)
  · exact absurd (h ▸ List.mem_cons_self) (hsign z.natAbs)
  · have habs := decimal_injective h
    omega

/-! ## Texts that were cut -/

theorem saturate_eq {z : Int} (h : -2 ^ 63 ≤ z ∧ z < 2 ^ 63) : saturate z = z := by
  unfold saturate
  omega

/-- `atol` of digits. -/
theorem atol_digits {s : List UInt8} (hs : s ≠ []) (hdigit : ∀ b ∈ s, isDigit b = true) :
    atol s = saturate (readDigits 0 s) := by
  cases s with
  | nil => exact absurd rfl hs
  | cons b bs =>
    have hb := isDigit_iff.1 (hdigit b List.mem_cons_self)
    have hspace : isSpace b = false := by
      simp only [isSpace, decide_eq_false_iff_not, not_or, not_and]
      refine ⟨fun h => ?_, fun _ h => ?_⟩
      · rw [h] at hb
        exact absurd hb.1 (by decide)
      · have := UInt8.le_iff_toNat_le.1 h
        have h13 : (13 : UInt8).toNat = 13 := rfl
        omega
    have hne : ∀ c : UInt8, c.toNat < 48 → b ≠ c := by
      rintro c hc rfl
      omega
    rw [atol, List.dropWhile_cons, if_neg (by rw [hspace]; exact Bool.false_ne_true)]
    simp only
    rw [if_neg (hne 45 (by decide)), if_neg (hne 43 (by decide))]

/-- `atol` of a sign and digits. -/
theorem atol_minus (s : List UInt8) : atol (45 :: s) = saturate (-(readDigits 0 s : Int)) := by
  rw [atol, List.dropWhile_cons, if_neg (by decide)]
  exact if_pos rfl

theorem saturate_mem (z : Int) : -2 ^ 63 ≤ saturate z ∧ saturate z < 2 ^ 63 := by
  unfold saturate
  omega

/-- `atol` returns a `long`. -/
theorem atol_mem (s : List UInt8) : -2 ^ 63 ≤ atol s ∧ atol s < 2 ^ 63 := by
  unfold atol
  split
  · decide
  · split
    · exact saturate_mem _
    · split
      · exact saturate_mem _
      · exact saturate_mem _

/-- The beginning of a text without a sign is not negative. -/
theorem atol_take_decimal_nonneg (n : Nat) {size : Nat} (hsize : 0 < size) :
    0 ≤ atol ((decimal n).take size) := by
  have hne : (decimal n).take size ≠ [] := by
    rw [Ne, List.take_eq_nil_iff, not_or]
    exact ⟨by omega, decimal_ne_nil n⟩
  rw [atol_digits hne fun b hb => isDigit_of_mem_decimal (List.mem_of_mem_take hb)]
  unfold saturate
  omega

/-- The text of a `long` reads back as it. -/
theorem atol_decimalInt {z : Int} (h : -2 ^ 63 ≤ z ∧ z < 2 ^ 63) : atol (decimalInt z) = z := by
  unfold decimalInt
  split
  · rw [atol_minus, readDigits_decimal, saturate_eq (by omega)]
    omega
  · rw [atol_digits (decimal_ne_nil _) fun b hb => isDigit_of_mem_decimal hb, readDigits_decimal,
      saturate_eq (by omega)]
    omega

theorem decimalInt_natCast (n : Nat) : decimalInt n = decimal n := by
  rw [decimalInt, if_neg (by omega), Int.natAbs_natCast]

/-- A text that was cut after `size` bytes reads back as the same number
exactly when nothing was cut. -/
theorem atol_take_decimalInt {z : Int} {size : Nat} (hsize : 2 ≤ size) (hlong : size ≤ 18) :
    atol ((decimalInt z).take size) = z ↔ (decimalInt z).length ≤ size := by
  have hpow : (10 : Int) ^ size ≤ 10 ^ 18 := by
    exact_mod_cast Nat.pow_le_pow_right (by decide) hlong
  unfold decimalInt
  split
  · rename_i hneg
    obtain ⟨k, rfl⟩ : ∃ k, size = k + 1 := ⟨size - 1, by omega⟩
    rw [List.take_succ_cons, atol_minus, List.length_cons, Nat.add_le_add_iff_right]
    have hlt : readDigits 0 ((decimal z.natAbs).take k) < 10 ^ k := by
      refine lt_of_lt_of_le (readDigits_lt 0) ?_
      rw [zero_add, one_mul]
      exact Nat.pow_le_pow_right (by decide) (List.length_take_le _ _)
    have hk : (10 : Int) ^ k ≤ 10 ^ (k + 1) := by
      exact_mod_cast Nat.pow_le_pow_right (by decide) (Nat.le_succ k)
    have hlt' : (readDigits 0 ((decimal z.natAbs).take k) : Int) < 10 ^ k := by
      exact_mod_cast hlt
    rw [saturate_eq (by omega)]
    constructor
    · intro h
      rw [length_decimal_le_iff (by omega)]
      omega
    · intro h
      rw [List.take_of_length_le h, readDigits_decimal]
      omega
  · rename_i hpos
    have hlt : readDigits 0 ((decimal z.natAbs).take size) < 10 ^ size := by
      refine lt_of_lt_of_le (readDigits_lt 0) ?_
      rw [zero_add, one_mul]
      exact Nat.pow_le_pow_right (by decide) (List.length_take_le _ _)
    have hlt' : (readDigits 0 ((decimal z.natAbs).take size) : Int) < 10 ^ size := by
      exact_mod_cast hlt
    have hne : (decimal z.natAbs).take size ≠ [] := by
      rw [Ne, List.take_eq_nil_iff, not_or]
      exact ⟨by omega, decimal_ne_nil _⟩
    rw [atol_digits hne fun b hb => isDigit_of_mem_decimal (List.mem_of_mem_take hb),
      saturate_eq (by omega)]
    constructor
    · intro h
      rw [length_decimal_le_iff (by omega)]
      omega
    · intro h
      rw [List.take_of_length_le h, readDigits_decimal]
      omega

/-- A text holds neither a newline nor a zero byte. -/
theorem not_mem_decimal {n : Nat} {b : UInt8} (h : b.toNat < 45) : b ∉ decimal n := by
  intro hmem
  have := isDigit_iff.1 (isDigit_of_mem_decimal hmem)
  omega

theorem not_mem_decimalInt {z : Int} {b : UInt8} (h : b.toNat < 45) : b ∉ decimalInt z := by
  have hdec : b ∉ decimal z.natAbs := not_mem_decimal h
  unfold decimalInt
  split
  · rw [List.mem_cons, not_or]
    refine ⟨?_, hdec⟩
    rintro rfl
    exact absurd h (by decide)
  · exact hdec

end Decimal
