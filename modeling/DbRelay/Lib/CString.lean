import Mathlib.Data.List.TakeWhile
import Mathlib.Algebra.Order.Ring.Int
import Mathlib.Algebra.BigOperators.Group.List.Basic

/-!
# C strings

A C string is the list of the bytes before its terminator, so it holds no
zero byte.  `CString` is a string of any length, as `malloc` and `strdup`
give it, and `CharBuf size` is the content of a `char [size]` array, which
leaves room for the terminator.  Both carry these facts, so no later proof
asks for them.
-/

/-- The bytes of an ASCII literal. -/
def ascii (s : String) : List UInt8 :=
  s.toList.map fun c => c.toNat.toUInt8

/-- A NUL-terminated string of any length. -/
structure CString where
  bytes : List UInt8
  noNul : 0 ∉ bytes
  deriving DecidableEq, Repr

/-- The content of a `char [size]` array. -/
structure CharBuf (size : Nat) where
  bytes : List UInt8
  noNul : 0 ∉ bytes
  fits : bytes.length < size
  deriving DecidableEq, Repr

namespace CString

@[ext] theorem ext' {s t : CString} (h : s.bytes = t.bytes) : s = t := by
  cases s
  cases t
  cases h
  rfl

/-- The empty string. -/
def empty : CString := ⟨[], by simp⟩

instance : Inhabited CString := ⟨empty⟩

/-- `strlen(s) > 0`. -/
def isSet (s : CString) : Bool := !s.bytes.isEmpty

/-- The string that starts at a byte list and ends at its first zero byte,
as every `str*` function of C reads it. -/
def ofBytes (l : List UInt8) : CString :=
  ⟨l.takeWhile (· ≠ 0), fun h => by simpa using List.mem_takeWhile_imp h⟩

theorem ofBytes_bytes (s : CString) : ofBytes s.bytes = s := by
  refine ext' ?_
  rw [ofBytes, List.takeWhile_eq_self_iff]
  intro b hb
  simpa using ne_of_mem_of_not_mem hb s.noNul

theorem ofBytes_bytes_eq_iff {s : List UInt8} : (ofBytes s).bytes = s ↔ 0 ∉ s := by
  constructor
  · intro h hmem
    rw [← h] at hmem
    exact (ofBytes s).noNul hmem
  · intro h
    exact congrArg bytes (ofBytes_bytes ⟨s, h⟩)

theorem mem_of_mem_ofBytes {s : List UInt8} {b : UInt8} (h : b ∈ (ofBytes s).bytes) : b ∈ s :=
  (List.takeWhile_prefix _).sublist.mem h

end CString

namespace CharBuf

variable {size : Nat}

@[ext] theorem ext' {s t : CharBuf size} (h : s.bytes = t.bytes) : s = t := by
  cases s
  cases t
  cases h
  rfl

/-- `buf[0] = '\0'`. -/
def empty [NeZero size] : CharBuf size := ⟨[], by simp, Nat.pos_of_neZero size⟩

/-- `strlen(buf) > 0`. -/
def isSet (s : CharBuf size) : Bool := !s.bytes.isEmpty

theorem isSet_iff {s : CharBuf size} : s.isSet = true ↔ s.bytes ≠ [] := by
  cases h : s.bytes <;> simp [isSet, h]

/-- The buffer read as a string. -/
def toCString (s : CharBuf size) : CString := ⟨s.bytes, s.noNul⟩

/-- `strcpy` from one array into another.  A string that does not fit has no result,
because it is written past the end. -/
def strcpy {dest : Nat} (s : CharBuf size) : Option (CharBuf dest) :=
  if h : s.bytes.length < dest then some ⟨s.bytes, s.noNul, h⟩ else none

/-- The longest part of a string that fits the buffer. -/
def ofCString [NeZero size] (s : CString) : CharBuf size :=
  ⟨s.bytes.take (size - 1), fun hm => s.noNul (List.mem_of_mem_take hm), by
    have hlen := List.length_take_le (size - 1) s.bytes
    have hpos := Nat.pos_of_neZero size
    omega⟩

end CharBuf
