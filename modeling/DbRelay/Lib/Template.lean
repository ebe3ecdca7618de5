import Mathlib.Algebra.Group.Nat.Even
import Mathlib.Algebra.GroupWithZero.Nat
import Mathlib.Data.List.Basic

/-!
# Texts with quotes and holes

Texts over any alphabet with two marks.  A quote opens or closes a quoted part of the text,
and a hole is the other mark outside of quoted parts.

* `cut` and `fill`: the text between the holes, and the text with some of them filled.
  `fill_cut` and `fill_eq_at` say what stays.
* `readLiteral`: a quoted part in which two quotes stand for one.  `readLiteral_encode` and
  `readLiteral_bare_iff` say what reads as a given value.
* `quotedBy`: whether a text ends inside a quoted part.
-/

namespace Template

/-- The two marks. -/
structure Marks (α : Type) where
  quote : α
  hole : α
  quote_ne_hole : quote ≠ hole

variable {α : Type} [DecidableEq α] (m : Marks α)

/-! ## Quoted parts -/

def quotedAfter (quoted : Bool) (c : α) : Bool := if c = m.quote then !quoted else quoted

def quotedBy (quoted : Bool) (s : List α) : Bool := s.foldl (quotedAfter m) quoted

theorem quotedBy_append (quoted : Bool) (s t : List α) :
    quotedBy m quoted (s ++ t) = quotedBy m (quotedBy m quoted s) t :=
  List.foldl_append

theorem quotedAfter_hole (quoted : Bool) : quotedAfter m quoted m.hole = quoted :=
  if_neg m.quote_ne_hole.symm

theorem quotedBy_of_not_mem (quoted : Bool) {s : List α} (h : m.quote ∉ s) :
    quotedBy m quoted s = quoted := by
  induction s generalizing quoted with
  | nil => rfl
  | cons c s ih =>
    rw [List.mem_cons, not_or] at h
    have hc : quotedAfter m quoted c = quoted := if_neg fun heq => h.1 heq.symm
    show quotedBy m (quotedAfter m quoted c) s = quoted
    rw [hc, ih quoted h.2]

/-- Each quote opens a quoted part or closes one. -/
theorem quotedBy_eq_iff (quoted : Bool) (s : List α) :
    quotedBy m quoted s = quoted ↔ Even (s.count m.quote) := by
  induction s generalizing quoted with
  | nil => exact iff_of_true rfl (by simp)
  | cons c s ih =>
    show quotedBy m (quotedAfter m quoted c) s = quoted ↔ _
    by_cases hc : c = m.quote
    · have hnot : quotedAfter m quoted c = !quoted := if_pos hc
      rw [hnot, List.count_cons, if_pos (by simpa using hc), Nat.even_add_one, ← ih (!quoted),
        ← ne_eq, ← Bool.eq_not, Bool.not_not]
    · have hsame : quotedAfter m quoted c = quoted := if_neg hc
      rw [hsame, List.count_cons, if_neg (by simpa using hc), Nat.add_zero]
      exact ih quoted

/-! ## Holes -/

/-- The text before the first hole, and the texts that follow the holes. -/
def cut (quoted : Bool) : List α → List α × List (List α)
  | [] => ([], [])
  | c :: s =>
    if c = m.hole ∧ quoted = false then
      ([], (cut false s).1 :: (cut false s).2)
    else
      (c :: (cut (quotedAfter m quoted c) s).1, (cut (quotedAfter m quoted c) s).2)

/-- The text with the first holes filled. -/
def fill (s : List α) : List (List α) → List (List α) → List α
  | [], _ => s
  | t :: ts, [] => s ++ m.hole :: fill t ts []
  | t :: ts, value :: values => s ++ value ++ fill t ts values

/-- The text after the last hole. -/
def lastPart (s : List α) (ts : List (List α)) : List α := ts.getLast?.getD s

omit [DecidableEq α] in
theorem fill_cons_part (c : α) (s : List α) (ts values : List (List α)) :
    fill m (c :: s) ts values = c :: fill m s ts values := by
  cases ts with
  | nil => rfl
  | cons t ts => cases values <;> rfl

/-- Without values the text is as it was. -/
theorem fill_cut (quoted : Bool) (s : List α) :
    fill m (cut m quoted s).1 (cut m quoted s).2 [] = s := by
  induction s generalizing quoted with
  | nil => rfl
  | cons c s ih =>
    rw [cut]
    split
    · rename_i h
      rw [fill, ih, h.1]
      rfl
    · rw [fill_cons_part, ih]

omit [DecidableEq α] in
/-- A hole, what is before it and what is after it. -/
theorem fill_eq_at (s : List α) {ts values : List (List α)} {k : Nat} {t value : List α}
    (ht : ts[k]? = some t) (hvalue : values[k]? = some value) :
    fill m s ts values =
      fill m s (ts.take k) (values.take k) ++ value ++
        fill m t (ts.drop (k + 1)) (values.drop (k + 1)) := by
  induction k generalizing s ts values with
  | zero =>
    cases ts with
    | nil => cases ht
    | cons t' ts =>
      cases values with
      | nil => cases hvalue
      | cons value' values =>
        cases ht
        cases hvalue
        rfl
  | succ k ih =>
    cases ts with
    | nil => cases ht
    | cons t' ts =>
      cases values with
      | nil => cases hvalue
      | cons value' values =>
        rw [List.getElem?_cons_succ] at ht hvalue
        rw [fill, ih t' ht hvalue, List.take_succ_cons, List.take_succ_cons, fill,
          List.drop_succ_cons, List.drop_succ_cons]
        simp only [List.append_assoc]

/-! ## Literals -/

/-- A value with its quotes doubled. -/
def double (value : List α) : List α :=
  value.flatMap fun c => if c = m.quote then [c, c] else [c]

def encode (value : List α) : List α := m.quote :: (double m value ++ [m.quote])

/-- A literal after its first quote: its value, and what follows it. -/
def readBody : List α → Option (List α × List α)
  | [] => none
  | c :: s =>
    if c = m.quote then
      match s with
      | [] => some ([], [])
      | c' :: s' =>
        if c' = m.quote then (readBody s').map fun (value, rest) => (m.quote :: value, rest)
        else some ([], c' :: s')
    else (readBody s).map fun (value, rest) => (c :: value, rest)

/-- A literal at the start of a text. -/
def readLiteral : List α → Option (List α × List α)
  | [] => none
  | c :: s => if c = m.quote then readBody m s else none

theorem count_double (value : List α) :
    (double m value).count m.quote = 2 * value.count m.quote := by
  induction value with
  | nil => rfl
  | cons c value ih =>
    have hcons : double m (c :: value) =
        (if c = m.quote then [c, c] else [c]) ++ double m value := rfl
    rw [hcons, List.count_append, ih, List.count_cons]
    by_cases hc : c = m.quote
    · rw [if_pos hc, hc]
      simp only [List.count_cons_self, List.count_nil, beq_self_eq_true, if_true]
      omega
    · rw [if_neg hc, if_neg (by simpa using hc), List.count_eq_zero_of_not_mem]
      · omega
      · simpa using Ne.symm hc

theorem readLiteral_encode (value : List α) :
    readLiteral m (encode m value) = some (value, []) := by
  have hbody : readBody m (double m value ++ [m.quote]) = some (value, []) := by
    induction value with
    | nil => simp [double, readBody.eq_def]
    | cons c value ih =>
      rw [double, List.flatMap_cons]
      by_cases hc : c = m.quote
      · rw [if_pos hc, readBody.eq_def]
        simp only [List.cons_append, List.nil_append, if_pos hc]
        rw [double] at ih
        rw [ih, hc]
        rfl
      · rw [if_neg hc, readBody.eq_def]
        simp only [List.cons_append, List.nil_append, if_neg hc]
        rw [double] at ih
        rw [ih]
        rfl
  rw [encode, readLiteral, if_pos rfl, hbody]

/-- Nothing else reads as the value. -/
theorem eq_of_readBody {s value rest : List α} (h : readBody m s = some (value, rest)) :
    s = double m value ++ m.quote :: rest := by
  fun_induction readBody m s generalizing value with
  | case1 => cases h
  | case2 =>
    cases h
    rfl
  | case3 s' ih =>
    rcases Option.map_eq_some_iff.1 h with ⟨x, hx, heq⟩
    cases heq
    rw [double, List.flatMap_cons, if_pos rfl, ih hx]
    rfl
  | case4 c' s' hc' =>
    cases h
    rfl
  | case5 c s hc ih =>
    rcases Option.map_eq_some_iff.1 h with ⟨x, hx, heq⟩
    cases heq
    rw [double, List.flatMap_cons, if_neg hc, ih hx]
    rfl

theorem eq_encode_of_readLiteral {s value : List α} (h : readLiteral m s = some (value, [])) :
    s = encode m value := by
  cases s with
  | nil => cases h
  | cons c s =>
    rw [readLiteral] at h
    split at h
    · rename_i hc
      rw [hc, eq_of_readBody m h]
      rfl
    · cases h

/-- A value between two quotes. -/
def bare (value : List α) : List α := m.quote :: (value ++ [m.quote])

/-- A value without quotes, up to a quote that no other one follows. -/
theorem readBody_bare {value rest : List α} (h : m.quote ∉ value)
    (hrest : rest.head? ≠ some m.quote) :
    readBody m (value ++ m.quote :: rest) = some (value, rest) := by
  induction value with
  | nil =>
    rw [List.nil_append, readBody.eq_def]
    simp only [if_true]
    cases rest with
    | nil => rfl
    | cons c rest =>
      have hc : c ≠ m.quote := fun heq => hrest (by rw [heq]; rfl)
      simp only [if_neg hc]
  | cons c value ih =>
    rw [List.mem_cons, not_or] at h
    have hc : c ≠ m.quote := fun heq => h.1 heq.symm
    rw [List.cons_append, readBody.eq_def]
    simp only [if_neg hc, ih h.2]
    rfl

theorem readLiteral_bare {value rest : List α} (h : m.quote ∉ value)
    (hrest : rest.head? ≠ some m.quote) :
    readLiteral m (bare m value ++ rest) = some (value, rest) := by
  rw [bare, List.cons_append, List.append_assoc, readLiteral, if_pos rfl]
  exact readBody_bare m h hrest

/-- A value between two quotes reads as itself only if it has no quote. -/
theorem readLiteral_bare_iff (value : List α) :
    readLiteral m (m.quote :: (value ++ [m.quote])) = some (value, []) ↔ m.quote ∉ value := by
  constructor
  · intro h
    have heq := eq_encode_of_readLiteral m h
    rw [encode, List.cons.injEq, List.append_cancel_right_eq] at heq
    have hcount := congrArg (List.count m.quote) heq.2
    rw [count_double] at hcount
    rw [← List.count_eq_zero]
    omega
  · intro h
    have hread : readLiteral m (bare m value ++ []) = some (value, []) :=
      readLiteral_bare m h (by simp)
    rwa [List.append_nil] at hread

/-- A value without quotes, between two quotes, does not change what is quoted after it. -/
theorem quotedBy_bare (quoted : Bool) {value : List α} (h : m.quote ∉ value) :
    quotedBy m quoted (m.quote :: (value ++ [m.quote])) = quoted := by
  have hquote : ∀ quoted, quotedAfter m quoted m.quote = !quoted := fun quoted => if_pos rfl
  show quotedBy m (quotedAfter m quoted m.quote) (value ++ [m.quote]) = quoted
  rw [quotedBy_append, quotedBy_of_not_mem m _ h]
  show quotedAfter m (quotedAfter m quoted m.quote) m.quote = quoted
  rw [hquote, hquote, Bool.not_not]

/-! ## Templates of literals -/

/-- The text is the template with a literal in each hole, and they read as the values. -/
def Reads : List α → List (List α) → List (List α) → List α → Prop
  | s, [], [], text => text = s
  | s, t :: ts, value :: values, text =>
    ∃ literal rest, text = s ++ literal ∧ readLiteral m literal = some (value, rest) ∧
      Reads t ts values rest
  | _, _, _, _ => False

theorem length_double (value : List α) :
    (double m value).length = value.length + value.count m.quote := by
  induction value with
  | nil => rfl
  | cons c value ih =>
    have hcons : double m (c :: value) =
        (if c = m.quote then [c, c] else [c]) ++ double m value := rfl
    rw [hcons, List.length_append, ih, List.length_cons, List.count_cons]
    by_cases hc : c = m.quote
    · rw [if_pos hc, if_pos (by simpa using hc), List.length_cons, List.length_singleton]
      omega
    · rw [if_neg hc, if_neg (by simpa using hc), List.length_singleton]
      omega

/-- The text is as long as the template with the encoded values. -/
theorem length_of_reads {s : List α} {ts values : List (List α)} {text : List α}
    (h : Reads m s ts values text) :
    text.length = (fill m s ts (values.map (bare m))).length +
      (values.map fun value => value.count m.quote).sum := by
  induction ts generalizing s values text with
  | nil =>
    cases values with
    | nil =>
      rw [Reads] at h
      rw [h]
      rfl
    | cons value values => exact h.elim
  | cons t ts ih =>
    cases values with
    | nil => exact h.elim
    | cons value values =>
      obtain ⟨literal, rest, rfl, hread, hrest⟩ := h
      cases literal with
      | nil => cases hread
      | cons c literal =>
        rw [readLiteral] at hread
        split at hread
        · rw [eq_of_readBody m hread, List.map_cons, List.map_cons, List.sum_cons, fill]
          simp only [bare, List.length_append, List.length_cons, List.length_nil,
            length_double, ih hrest]
          omega
        · cases hread

/-- No two holes are next to each other, and no quote follows a hole. -/
def Apart : List (List α) → Prop
  | [] => True
  | t :: ts => t.head? ≠ some m.quote ∧ (t = [] → ts = []) ∧ Apart ts

/-- Values between quotes read as themselves only if none has a quote. -/
theorem reads_fill_bare_iff (s : List α) {ts values : List (List α)}
    (hlen : ts.length = values.length) (hapart : Apart m ts) :
    Reads m s ts values (fill m s ts (values.map (bare m))) ↔
      ∀ value ∈ values, m.quote ∉ value := by
  constructor
  · intro h value hmem
    have hlength := length_of_reads m h
    have hsum : (values.map fun value => value.count m.quote).sum = 0 := by omega
    rw [← List.count_eq_zero]
    exact List.sum_eq_zero_iff_forall_eq_nat.1 hsum _ (List.mem_map_of_mem hmem)
  · intro h
    induction ts generalizing s values with
    | nil =>
      obtain rfl := List.length_eq_zero_iff.1 hlen.symm
      rfl
    | cons t ts ih =>
      cases values with
      | nil => cases hlen
      | cons value values =>
        have hrest : (fill m t ts (values.map (bare m))).head? ≠ some m.quote := by
          obtain ⟨hhead, hnil, -⟩ := hapart
          cases t with
          | nil =>
            rw [hnil rfl]
            simp [fill]
          | cons c t =>
            rw [fill_cons_part]
            exact hhead
        refine ⟨_, _, ?_, readLiteral_bare m (h value List.mem_cons_self) hrest, ?_⟩
        · rw [List.map_cons, fill, List.append_assoc]
        · exact ih t (Nat.succ.inj hlen) hapart.2.2 fun v hv => h v (List.mem_cons_of_mem _ hv)

end Template
