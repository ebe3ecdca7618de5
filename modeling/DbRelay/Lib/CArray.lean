import Mathlib.Data.List.Basic
import Mathlib.Data.List.Infix
import Mathlib.Algebra.Order.Ring.Int
import Mathlib.Tactic.Common

/-!
# Arrays of bytes

A `char` array of a fixed size, and the operations that C has on it.  An access outside of
the array has no result, so a result says that every index was in bounds.

* `CArray.store` and `CArray.write` assign one byte and several.
* `CArray.string` is what the functions on strings see: the bytes before the first zero.
* `CArray.strlen`, `CArray.strncpySource`, `CArray.stringAt`: the functions on strings that
  read an array.

`wrapInt` is what becomes of a size that is counted in an `int`, and `malloc` gives an array
of such a size.

What an array holds is stated by the bytes that it starts with.  `CArray.write_append` is
the lemma on appending to them.
-/

/-! ## Sizes -/

/-- A number as an `int`. -/
def wrapInt (z : Int) : Int := z.bmod (2 ^ 32)

theorem wrapInt_eq {z : Int} (h : -2 ^ 31 ≤ z ∧ z < 2 ^ 31) : wrapInt z = z := by
  unfold wrapInt
  exact Int.bmod_eq_of_le (by omega) (by omega)

/-- The values of an `int`. -/
theorem wrapInt_mem (z : Int) : -2 ^ 31 ≤ wrapInt z ∧ wrapInt z < 2 ^ 31 := by
  have hlower := Int.le_bmod (x := z) (m := 2 ^ 32) (by decide)
  have hupper := Int.bmod_lt (x := z) (m := 2 ^ 32) (by decide)
  unfold wrapInt
  omega

theorem wrapInt_add (a b : Int) : wrapInt (wrapInt a + b) = wrapInt (a + b) :=
  Int.bmod_add_bmod

/-! ## Arrays -/

/-- `char [size]`. -/
abbrev CArray (size : Nat) := Vector UInt8 size

/-- `malloc`, with memory of any content.  A negative size is one that it does not have. -/
def malloc (fresh : (size : Nat) → CArray size) (size : Int) :
    Option ((size : Nat) × CArray size) :=
  if 0 ≤ size then some ⟨size.toNat, fresh size.toNat⟩ else none

theorem malloc_eq {fresh : (size : Nat) → CArray size} {size : Int} (h : 0 ≤ size) :
    malloc fresh size = some ⟨size.toNat, fresh size.toNat⟩ :=
  if_pos h

namespace CArray

variable {size : Nat}

/-- An assignment to an element. -/
def store (a : CArray size) (i : Nat) (b : UInt8) : Option (CArray size) :=
  if h : i < size then some (a.set i b) else none

/-- Assignments to consecutive elements. -/
def write (a : CArray size) (i : Nat) : List UInt8 → Option (CArray size)
  | [] => some a
  | b :: bytes => (a.store i b).bind fun a => write a (i + 1) bytes

/-- The bytes before the first zero. -/
def string (a : CArray size) : List UInt8 := a.toList.takeWhile fun b => decide (b ≠ 0)

/-- `strlen`, which reads past an array without a zero. -/
def strlen (a : CArray size) : Option Nat :=
  if 0 ∈ a.toList then some a.string.length else none

/-- The `n` bytes that `strncpy` writes when it copies from the element `i` on.  It pads
with zeros. -/
def strncpySource (a : CArray size) (i : Nat) : Nat → Option (List UInt8)
  | 0 => some []
  | n + 1 =>
    a[i]?.bind fun b =>
      if b = 0 then some (List.replicate (n + 1) 0)
      else (strncpySource a (i + 1) n).map fun bytes => b :: bytes

/-- The string that starts at the element `i`.  A read goes past an array without a zero
there. -/
def stringAt (a : CArray size) (i : Nat) : Option (List UInt8) :=
  if 0 ∈ a.toList.drop i then
    some ((a.toList.drop i).takeWhile fun b => decide (b ≠ 0))
  else none

/-- `strcat` of a string. -/
def strcat (a : CArray size) (t : List UInt8) : Option (CArray size) :=
  a.strlen.bind fun n => a.write n (t ++ [0])

/-! ## Writing -/

theorem write_isSome_iff {a : CArray size} {i : Nat} {bytes : List UInt8} :
    (a.write i bytes).isSome = true ↔ bytes = [] ∨ i + bytes.length ≤ size := by
  induction bytes generalizing a i with
  | nil => exact iff_of_true rfl (.inl rfl)
  | cons b bytes ih =>
    rw [write, store]
    split
    · rename_i h
      rw [Option.bind_some, ih, List.length_cons]
      constructor
      · intro hgiven
        rcases hgiven with rfl | hle
        · exact .inr h
        · exact .inr (by omega)
      · intro hgiven
        rcases hgiven with h' | hle
        · cases h'
        · exact .inr (by omega)
    · rename_i h
      refine iff_of_false Bool.false_ne_true ?_
      intro hgiven
      rcases hgiven with h' | hle
      · cases h'
      · rw [List.length_cons] at hle
        omega

theorem write_eq_none {a : CArray size} {i : Nat} {bytes : List UInt8} (hne : bytes ≠ [])
    (h : size < i + bytes.length) : a.write i bytes = none := by
  rw [← Option.not_isSome_iff_eq_none, write_isSome_iff, not_or]
  exact ⟨hne, by omega⟩

/-- A byte that is stored behind the ones that an array starts with. -/
theorem store_append {a : CArray size} {s : List UInt8} (hs : s <+: a.toList)
    (hfits : s.length < size) (b : UInt8) :
    ∃ a' : CArray size, a.store s.length b = some a' ∧ s ++ [b] <+: a'.toList := by
  refine ⟨a.set s.length b, dif_pos hfits, ?_⟩
  rcases hs with ⟨t, ht⟩
  have hlen : s.length < (s ++ t).length := by
    rw [ht, Vector.length_toList]
    exact hfits
  rw [Vector.toList_set, ← ht, List.set_append_right _ _ (Nat.le_refl _), Nat.sub_self]
  cases t with
  | nil =>
    rw [List.append_nil] at hlen
    exact absurd hlen (Nat.lt_irrefl _)
  | cons c t => exact ⟨t, by rw [List.set_cons_zero, List.append_assoc]; rfl⟩

/-- The element behind the ones that an array starts with. -/
theorem getElem_of_toList {a : CArray size} {s t : List UInt8} {b : UInt8}
    (ha : a.toList = s ++ b :: t) : ∃ h : s.length < size, a[s.length] = b := by
  have hlen : s.length < a.toList.length := by
    rw [ha, List.length_append, List.length_cons]
    omega
  have hsize : s.length < size := by
    rwa [Vector.length_toList] at hlen
  refine ⟨hsize, ?_⟩
  rw [← Vector.getElem_toList hlen]
  exact List.getElem_of_append ha rfl

theorem store_of_toList {a : CArray size} {s t : List UInt8} {b : UInt8}
    (ha : a.toList = s ++ b :: t) (c : UInt8) :
    ∃ a' : CArray size, a.store s.length c = some a' ∧ a'.toList = s ++ c :: t := by
  obtain ⟨hsize, -⟩ := getElem_of_toList ha
  refine ⟨a.set s.length c, dif_pos hsize, ?_⟩
  rw [Vector.toList_set, ha, List.set_append_right _ _ (Nat.le_refl _), Nat.sub_self,
    List.set_cons_zero]

/-- Bytes that are written behind the ones that an array starts with. -/
theorem write_append {a : CArray size} {s : List UInt8} (hs : s <+: a.toList)
    (bytes : List UInt8) (hfits : s.length + bytes.length ≤ size) :
    ∃ a' : CArray size, a.write s.length bytes = some a' ∧ s ++ bytes <+: a'.toList := by
  induction bytes generalizing a s with
  | nil => exact ⟨a, rfl, by rwa [List.append_nil]⟩
  | cons b bytes ih =>
    rw [List.length_cons] at hfits
    rcases store_append hs (by omega) b with ⟨a₁, hstore, hnext⟩
    have hroom : (s ++ [b]).length + bytes.length ≤ size := by
      rw [List.length_append, List.length_singleton]
      omega
    rcases ih hnext hroom with ⟨a', hwrite, hprefix⟩
    refine ⟨a', ?_, by rwa [List.append_assoc] at hprefix⟩
    rw [write, hstore, Option.bind_some]
    rwa [List.length_append, List.length_singleton] at hwrite

theorem write_singleton (a : CArray size) (i : Nat) (b : UInt8) :
    a.write i [b] = a.store i b := by
  rw [write]
  cases a.store i b <;> rfl

/-- A write and the NUL byte behind it. -/
theorem writeString_append {a : CArray size} {s : List UInt8} (hs : s <+: a.toList)
    (bytes : List UInt8) (hfits : s.length + bytes.length < size) :
    ∃ a₁ a₂ : CArray size, a.write s.length bytes = some a₁ ∧
      a₁.store (s.length + bytes.length) 0 = some a₂ ∧ s ++ bytes ++ [0] <+: a₂.toList := by
  rcases write_append hs bytes hfits.le with ⟨a₁, hwrite, hnext⟩
  have hroom : (s ++ bytes).length < size := by
    rw [List.length_append]
    exact hfits
  rcases store_append hnext hroom 0 with ⟨a₂, hstore, hprefix⟩
  rw [List.length_append] at hstore
  exact ⟨a₁, a₂, hwrite, hstore, hprefix⟩

/-! ## Strings -/

/-- The first zero of bytes that end with one. -/
theorem takeWhile_prefix_zero (bytes : List UInt8) :
    (bytes.takeWhile fun b => decide (b ≠ 0)) ++ [0] <+: bytes ++ [0] := by
  induction bytes with
  | nil => exact List.prefix_rfl
  | cons b bytes ih =>
    rw [List.takeWhile_cons]
    by_cases hb : b = 0
    · rw [if_neg (by simpa using hb), hb]
      exact ⟨bytes ++ [0], rfl⟩
    · rw [if_pos (by simpa using hb), List.cons_append, List.cons_append]
      exact List.cons_prefix_cons.2 ⟨rfl, ih⟩

theorem string_of_prefix {a : CArray size} {s : List UInt8} (hs : 0 ∉ s)
    (h : s ++ [0] <+: a.toList) : a.string = s := by
  rcases h with ⟨t, ht⟩
  have hall : ∀ b ∈ s, decide (b ≠ 0) = true := by
    intro b hb
    exact decide_eq_true fun heq => hs (heq ▸ hb)
  rw [string, ← ht, List.append_assoc, List.takeWhile_append_of_pos hall]
  simp

theorem strlen_of_prefix {a : CArray size} {s : List UInt8} (hs : 0 ∉ s)
    (h : s ++ [0] <+: a.toList) : a.strlen = some s.length := by
  have hmem : (0 : UInt8) ∈ a.toList :=
    h.subset (List.mem_append_right _ (List.mem_singleton_self _))
  rw [strlen, if_pos hmem, string_of_prefix hs h]

/-- A zero ends the string that starts behind other bytes. -/
theorem stringAt_of_toList {a : CArray size} {s t u : List UInt8}
    (ha : a.toList = s ++ (t ++ 0 :: u)) (ht : 0 ∉ t) : a.stringAt s.length = some t := by
  have hall : ∀ b ∈ t, decide (b ≠ 0) = true := by
    intro b hb
    exact decide_eq_true fun heq => ht (heq ▸ hb)
  rw [stringAt, ha, List.drop_left, if_pos (by simp), List.takeWhile_append_of_pos hall]
  simp

theorem getElem?_of_prefix {a : CArray size} {s : List UInt8} (h : s <+: a.toList) {i : Nat}
    (hi : i < s.length) : a[i]? = s[i]? := by
  rcases h with ⟨t, ht⟩
  rw [← Vector.getElem?_toList, ← ht, List.getElem?_append_left hi]

/-- A copy that ends before the zero. -/
theorem strncpySource_of_prefix {a : CArray size} {s : List UInt8} (hs : 0 ∉ s)
    (h : s <+: a.toList) {i n : Nat} (hle : n ≤ s.length - i) :
    a.strncpySource i n = some ((s.drop i).take n) := by
  induction n generalizing i with
  | zero => rfl
  | succ n ih =>
    have hi : i < s.length := by omega
    have hne : s[i] ≠ 0 := fun heq => hs (heq ▸ List.getElem_mem hi)
    rw [strncpySource, getElem?_of_prefix h hi, List.getElem?_eq_getElem hi, Option.bind_some,
      if_neg hne, ih (by omega), List.drop_eq_getElem_cons hi, List.take_succ_cons]
    rfl

/-- A string and its terminator at the start of an array. -/
theorem write_string (a : CArray size) {s : List UInt8} (hs : 0 ∉ s) :
    (a.write 0 (s ++ [0])).map string = if s.length < size then some s else none := by
  split
  · rename_i hlt
    have hroom : ([] : List UInt8).length + (s ++ [0]).length ≤ size := by
      rw [List.length_nil, Nat.zero_add, List.length_append, List.length_singleton]
      exact hlt
    obtain ⟨a', hwrite, hprefix⟩ := write_append List.nil_prefix (s ++ [0]) hroom
    have hstring : a'.string = s := string_of_prefix hs hprefix
    rw [List.length_nil] at hwrite
    rw [hwrite]
    exact congrArg some hstring
  · rename_i hle
    have hnone : a.write 0 (s ++ [0]) = none := by
      refine write_eq_none (by simp) ?_
      rw [List.length_append, List.length_singleton]
      omega
    rw [hnone]
    rfl

/-- A string is appended exactly if the terminator stays in the array. -/
theorem strcat_isSome_iff {a : CArray size} {s : List UInt8} (hs : 0 ∉ s)
    (h : s ++ [0] <+: a.toList) (t : List UInt8) :
    (a.strcat t).isSome = true ↔ s.length + t.length < size := by
  rw [strcat, strlen_of_prefix hs h, Option.bind_some, write_isSome_iff, List.length_append,
    List.length_singleton]
  constructor
  · intro h
    rcases h with hnil | hle
    · exact absurd hnil (by simp)
    · omega
  · intro hlt
    exact .inr (by omega)

theorem strcat_prefix {a a' : CArray size} {s t : List UInt8} (hs : 0 ∉ s)
    (h : s ++ [0] <+: a.toList) (hcat : a.strcat t = some a') :
    (s ++ t) ++ [0] <+: a'.toList := by
  have hlt := (strcat_isSome_iff hs h t).1 (by rw [hcat]; rfl)
  have hroom : s.length + (t ++ [0]).length ≤ size := by
    rw [List.length_append, List.length_singleton]
    omega
  obtain ⟨a₁, hwrite, hprefix⟩ :=
    write_append ((List.prefix_append s [0]).trans h) (t ++ [0]) hroom
  rw [strcat, strlen_of_prefix hs h, Option.bind_some, hwrite] at hcat
  obtain rfl := Option.some.inj hcat
  rwa [List.append_assoc]

end CArray
