import Mathlib.Data.List.Basic
import Mathlib.Tactic.Common

/-!
# Cutting a stream into pieces

A reader with a bounded buffer takes a stream apart into pieces.  A piece runs
through the next delimiter, if that lies within the next `limit` elements, and
is otherwise exactly the next `limit` elements.  The cut is a function of the
stream, so a reader that implements it cannot tell how the stream arrived.

`firstPiece` reads one piece, with the part of it that was read before as an
accumulator.  `cut` reads all of them, and returns the unfinished tail next to
the pieces.  The lemmas say how both behave on a stream that is the
concatenation of two others, and on a delimited line that fits the buffer.
-/

namespace Framing

variable {α : Type*} [DecidableEq α] (delim : α) (limit : Nat)

/-- Whether a piece ends with the element that comes after `acc`. -/
def endsPiece (acc : List α) (x : α) : Bool :=
  decide (x = delim) || decide (acc.length + 1 = limit)

/-- The first piece of a stream, after `acc`, and the rest of the stream. -/
def firstPiece (acc : List α) : List α → Option (List α × List α)
  | [] => none
  | x :: xs =>
    if endsPiece delim limit acc x then some (acc ++ [x], xs)
    else firstPiece (acc ++ [x]) xs

/-- The pieces of a stream, after `acc`, and the unfinished tail. -/
def cut (acc : List α) : List α → List (List α) × List α
  | [] => ([], acc)
  | x :: xs =>
    if endsPiece delim limit acc x then
      ((acc ++ [x]) :: (cut [] xs).1, (cut [] xs).2)
    else cut (acc ++ [x]) xs

variable {delim limit}

/-! ## One piece -/

theorem firstPiece_append_none {acc s t : List α}
    (h : firstPiece delim limit acc s = none) :
    firstPiece delim limit acc (s ++ t) = firstPiece delim limit (acc ++ s) t := by
  induction s generalizing acc with
  | nil => rw [List.nil_append, List.append_nil]
  | cons x xs ih =>
    simp only [firstPiece] at h
    split at h
    · cases h
    · rename_i hx
      simp only [List.cons_append, firstPiece, if_neg hx]
      rw [ih h, List.append_assoc, List.singleton_append]

theorem firstPiece_append_some {acc s p r : List α} (t : List α)
    (h : firstPiece delim limit acc s = some (p, r)) :
    firstPiece delim limit acc (s ++ t) = some (p, r ++ t) := by
  induction s generalizing acc with
  | nil => cases h
  | cons x xs ih =>
    simp only [firstPiece, List.cons_append] at h ⊢
    split at h
    · rename_i hx
      rw [if_pos hx]
      simp only [Option.some.injEq, Prod.mk.injEq] at h ⊢
      exact ⟨h.1, by rw [h.2]⟩
    · rename_i hx
      rw [if_neg hx]
      exact ih h

/-- What is no piece yet leaves room in the buffer. -/
theorem length_lt_of_firstPiece_none {acc s : List α} (hacc : acc.length < limit)
    (h : firstPiece delim limit acc s = none) : (acc ++ s).length < limit := by
  induction s generalizing acc with
  | nil => rwa [List.append_nil]
  | cons x xs ih =>
    simp only [firstPiece] at h
    split at h
    · cases h
    · rename_i hx
      simp only [endsPiece, Bool.or_eq_true, decide_eq_true_eq, not_or] at hx
      have hnext : (acc ++ [x]).length < limit := by
        rw [List.length_append, List.length_singleton]
        omega
      have := ih hnext h
      rwa [List.append_assoc, List.singleton_append] at this

/-- A piece is the beginning of what was there. -/
theorem firstPiece_eq {acc s p r : List α}
    (h : firstPiece delim limit acc s = some (p, r)) : acc ++ s = p ++ r := by
  induction s generalizing acc with
  | nil => cases h
  | cons x xs ih =>
    simp only [firstPiece] at h
    split at h
    · simp only [Option.some.injEq, Prod.mk.injEq] at h
      rw [← h.1, ← h.2, List.append_assoc, List.singleton_append]
    · rw [← ih h, List.append_assoc, List.singleton_append]

/-- A piece takes at least one element from the stream. -/
theorem firstPiece_length {acc s p r : List α}
    (h : firstPiece delim limit acc s = some (p, r)) : r.length < s.length := by
  induction s generalizing acc with
  | nil => cases h
  | cons x xs ih =>
    simp only [firstPiece] at h
    split at h
    · simp only [Option.some.injEq, Prod.mk.injEq] at h
      rw [← h.2]
      exact Nat.lt_succ_self _
    · exact Nat.lt_succ_of_lt (ih h)

/-- Elements without a delimiter that leave room for one more are no piece. -/
theorem firstPiece_none {acc s : List α} (hs : delim ∉ s)
    (hlen : acc.length + s.length < limit) : firstPiece delim limit acc s = none := by
  induction s generalizing acc with
  | nil => rfl
  | cons x xs ih =>
    simp only [List.mem_cons, not_or, List.length_cons] at hs hlen
    have hx : endsPiece delim limit acc x = false := by
      simp only [endsPiece, Bool.or_eq_false_iff, decide_eq_false_iff_not]
      exact ⟨fun h => hs.1 h.symm, by omega⟩
    simp only [firstPiece, hx, Bool.false_eq_true, ↓reduceIte]
    apply ih hs.2
    simp only [List.length_append, List.length_singleton]
    omega

/-- Elements that fill the buffer, with no delimiter before the last, are a
piece. -/
theorem firstPiece_full {acc s : List α} {x : α} (t : List α) (hs : delim ∉ s)
    (hlen : acc.length + s.length + 1 = limit) :
    firstPiece delim limit acc (s ++ x :: t) = some (acc ++ s ++ [x], t) := by
  rw [firstPiece_append_none (firstPiece_none hs (by omega))]
  have hx : endsPiece delim limit (acc ++ s) x = true := by
    simp only [endsPiece, Bool.or_eq_true, decide_eq_true_eq, List.length_append]
    exact .inr hlen
  rw [firstPiece, if_pos hx]

/-- Elements up to a delimiter within the buffer are a piece. -/
theorem firstPiece_line {acc s : List α} (t : List α) (hs : delim ∉ s)
    (hlen : acc.length + s.length < limit) :
    firstPiece delim limit acc (s ++ delim :: t) = some (acc ++ s ++ [delim], t) := by
  rw [firstPiece_append_none (firstPiece_none hs hlen)]
  have hx : endsPiece delim limit (acc ++ s) delim = true := by
    simp [endsPiece]
  rw [firstPiece, if_pos hx]

/-! ## All pieces -/

theorem cut_of_firstPiece_none {acc s : List α}
    (h : firstPiece delim limit acc s = none) :
    cut delim limit acc s = ([], acc ++ s) := by
  induction s generalizing acc with
  | nil => rw [cut, List.append_nil]
  | cons x xs ih =>
    simp only [firstPiece] at h
    split at h
    · cases h
    · rename_i hx
      rw [cut, if_neg hx, ih h, List.append_assoc, List.singleton_append]

theorem cut_of_firstPiece_some {acc s p r : List α}
    (h : firstPiece delim limit acc s = some (p, r)) :
    cut delim limit acc s = (p :: (cut delim limit [] r).1, (cut delim limit [] r).2) := by
  induction s generalizing acc with
  | nil => cases h
  | cons x xs ih =>
    simp only [firstPiece] at h
    split at h
    · rename_i hx
      simp only [Option.some.injEq, Prod.mk.injEq] at h
      rw [cut, if_pos hx, h.1, h.2]
    · rename_i hx
      rw [cut, if_neg hx, ih h]

/-- The cut of a concatenation. -/
theorem cut_append (acc s t : List α) :
    cut delim limit acc (s ++ t) =
      ((cut delim limit acc s).1 ++ (cut delim limit (cut delim limit acc s).2 t).1,
        (cut delim limit (cut delim limit acc s).2 t).2) := by
  induction s generalizing acc with
  | nil => rfl
  | cons x xs ih =>
    simp only [List.cons_append, cut]
    split
    · rw [ih, List.cons_append]
    · rw [ih]

/-- No element is lost or doubled. -/
theorem cut_flatten (acc s : List α) :
    (cut delim limit acc s).1.flatten ++ (cut delim limit acc s).2 = acc ++ s := by
  induction s generalizing acc with
  | nil => rw [cut, List.flatten_nil, List.nil_append, List.append_nil]
  | cons x xs ih =>
    rw [cut]
    split
    · rw [List.flatten_cons, List.append_assoc, ih, List.nil_append, List.append_assoc,
        List.singleton_append]
    · rw [ih, List.append_assoc, List.singleton_append]

/-- The tail is no piece: it leaves room, and holds no delimiter. -/
theorem cut_snd {acc s : List α} (hacc : acc.length < limit) (hdelim : delim ∉ acc) :
    (cut delim limit acc s).2.length < limit ∧ delim ∉ (cut delim limit acc s).2 := by
  induction s generalizing acc with
  | nil => exact ⟨hacc, hdelim⟩
  | cons x xs ih =>
    rw [cut]
    split
    · exact ih (Nat.zero_lt_of_lt hacc) List.not_mem_nil
    · rename_i hx
      simp only [endsPiece, Bool.or_eq_true, decide_eq_true_eq, not_or] at hx
      apply ih
      · rw [List.length_append, List.length_singleton]
        omega
      · rw [List.mem_append, List.mem_singleton, not_or]
        exact ⟨hdelim, fun h => hx.1 h.symm⟩

/-- Without a delimiter every piece is full. -/
theorem length_of_mem_cut {acc s p : List α} (hacc : delim ∉ acc) (hs : delim ∉ s)
    (hp : p ∈ (cut delim limit acc s).1) : p.length = limit ∧ delim ∉ p := by
  induction s generalizing acc with
  | nil => cases hp
  | cons x xs ih =>
    rw [List.mem_cons, not_or] at hs
    have hnext : delim ∉ acc ++ [x] := by
      rw [List.mem_append, List.mem_singleton, not_or]
      exact ⟨hacc, hs.1⟩
    rw [cut] at hp
    split at hp
    · rename_i hx
      rcases List.mem_cons.1 hp with rfl | hp
      · simp only [endsPiece, Bool.or_eq_true, decide_eq_true_eq] at hx
        refine ⟨?_, hnext⟩
        rw [List.length_append, List.length_singleton]
        exact hx.resolve_left fun h => hs.1 h.symm
      · exact ih List.not_mem_nil hs.2 hp
    · exact ih hnext hs.2 hp

/-- A piece has a delimiter at its end only. -/
theorem delim_not_mem_dropLast {acc s p : List α} (hacc : delim ∉ acc)
    (hp : p ∈ (cut delim limit acc s).1) : delim ∉ p.dropLast := by
  induction s generalizing acc with
  | nil => cases hp
  | cons x xs ih =>
    rw [cut] at hp
    split at hp
    · rcases List.mem_cons.1 hp with rfl | hp
      · rw [List.dropLast_concat]
        exact hacc
      · exact ih List.not_mem_nil hp
    · rename_i hx
      simp only [endsPiece, Bool.or_eq_true, decide_eq_true_eq, not_or] at hx
      apply ih _ hp
      rw [List.mem_append, List.mem_singleton, not_or]
      exact ⟨hacc, fun h => hx.1 h.symm⟩

/-- A delimiter at the end closes the tail. -/
theorem cut_delim (s : List α) :
    (cut delim limit [] (s ++ [delim])).1 =
      (cut delim limit [] s).1 ++ [(cut delim limit [] s).2 ++ [delim]] := by
  have hx : endsPiece delim limit (cut delim limit [] s).2 delim = true := by
    simp [endsPiece]
  rw [cut_append]
  simp only [cut, if_pos hx]

/-- A stream that ends with a delimiter has no tail. -/
theorem cut_snd_delim (acc s : List α) :
    (cut delim limit acc (s ++ [delim])).2 = [] := by
  rw [cut_append]
  have hx : endsPiece delim limit (cut delim limit acc s).2 delim = true := by
    simp [endsPiece]
  simp only [cut, if_pos hx]

/-- The pieces after a delimiter do not depend on what comes before it. -/
theorem cut_delim_append (s t : List α) :
    (cut delim limit [] (s ++ [delim] ++ t)).1 =
      (cut delim limit [] (s ++ [delim])).1 ++ (cut delim limit [] t).1 := by
  rw [cut_append, cut_snd_delim]

/-- A line that fits the buffer is one piece. -/
theorem cut_line {s : List α} (t : List α) (hs : delim ∉ s) (hlen : s.length < limit) :
    (cut delim limit [] (s ++ delim :: t)).1 =
      (s ++ [delim]) :: (cut delim limit [] t).1 := by
  have h := @firstPiece_line _ _ delim limit [] s t hs (by simpa using hlen)
  rw [cut_of_firstPiece_some h, List.nil_append]

end Framing
