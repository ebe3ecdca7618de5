import Mathlib.Data.List.TakeWhile
import Mathlib.Algebra.Order.BigOperators.Group.List
import Mathlib.Algebra.Order.Ring.Int

/-!
# Comma-separated values

A reader and a writer for texts of comma-separated values, over any alphabet with
a comma, a newline and a quote.  Each row is a line that a newline ends.  A field
between quotes may hold commas, newlines and quotes, and its quotes are doubled.

* `read_encode`: the reader inverts the writer on rows with at least one field.
* `size_le_of_read`: a text that reads as some rows is at least as long as the
  writer makes it, commas, newlines and quotes included, and has a newline for
  each row.
-/

namespace Csv

/-- The three characters of the format. -/
structure Dialect (α : Type) where
  comma : α
  newline : α
  quote : α
  comma_ne_newline : comma ≠ newline
  comma_ne_quote : comma ≠ quote
  newline_ne_quote : newline ≠ quote

variable {α : Type} [DecidableEq α] (d : Dialect α)

/-! ## The reader -/

/-- A field after its first quote, and what follows its last one. -/
def readQuoted : List α → Option (List α × List α)
  | [] => none
  | c :: s =>
    if c = d.quote then
      match s with
      | [] => some ([], [])
      | c' :: s' =>
        if c' = d.quote then (readQuoted s').map fun (field, rest) => (d.quote :: field, rest)
        else some ([], c' :: s')
    else (readQuoted s).map fun (field, rest) => (c :: field, rest)

/-- A character that ends a field without quotes. -/
def isSeparator (c : α) : Bool := decide (c = d.comma ∨ c = d.newline)

/-- A field and what follows it. -/
def readField (s : List α) : Option (List α × List α) :=
  if s.head? = some d.quote then readQuoted d s.tail
  else some (s.takeWhile (!isSeparator d ·), s.dropWhile (!isSeparator d ·))

/-- A row and what follows its newline. -/
def readRow : Nat → List α → Option (List (List α) × List α)
  | 0, _ => none
  | fuel + 1, s =>
    (readField d s).bind fun (field, rest) =>
      if rest.head? = some d.newline then some ([field], rest.tail)
      else if rest.head? = some d.comma then
        (readRow fuel rest.tail).map fun (row, rest) => (field :: row, rest)
      else none

def readRows : Nat → List α → Option (List (List (List α)))
  | 0, _ => none
  | fuel + 1, s =>
    if s = [] then some []
    else (readRow d (fuel + 1) s).bind fun (row, rest) =>
      (readRows fuel rest).map fun rows => row :: rows

/-- The rows of a text. -/
def read (s : List α) : Option (List (List (List α))) := readRows d (s.length + 1) s

/-! ## The writer -/

/-- A field, between quotes where they are needed. -/
def encodeField (field : List α) : List α :=
  if d.comma ∈ field ∨ d.newline ∈ field ∨ d.quote ∈ field then
    d.quote :: (field.flatMap (fun c => if c = d.quote then [c, c] else [c]) ++ [d.quote])
  else field

/-- A row as a line. -/
def encodeRow : List (List α) → List α
  | [] => [d.newline]
  | [field] => encodeField d field ++ [d.newline]
  | field :: row => encodeField d field ++ d.comma :: encodeRow row

def encode (rows : List (List (List α))) : List α := rows.flatMap (encodeRow d)

/-! ## The reader inverts the writer -/

theorem readQuoted_encode (field : List α) {rest : List α} (hrest : rest.head? ≠ some d.quote) :
    readQuoted d (field.flatMap (fun c => if c = d.quote then [c, c] else [c]) ++
      d.quote :: rest) = some (field, rest) := by
  induction field with
  | nil =>
    rw [List.flatMap_nil, List.nil_append, readQuoted.eq_def]
    simp only [if_true]
    cases rest with
    | nil => rfl
    | cons c rest =>
      simp only
      rw [if_neg fun h => hrest (by rw [h]; rfl)]
  | cons c field ih =>
    rw [List.flatMap_cons]
    split
    · rename_i hc
      rw [hc, List.append_assoc, List.cons_append, List.cons_append, readQuoted.eq_def]
      simp only [if_true, List.nil_append]
      rw [ih]
      rfl
    · rename_i hc
      rw [List.append_assoc, List.cons_append, List.nil_append, readQuoted.eq_def]
      simp only
      rw [if_neg hc, ih]
      rfl

/-- A field is followed by a separator. -/
theorem readField_encode (field : List α) {c : α} (hc : isSeparator d c = true) (rest : List α) :
    readField d (encodeField d field ++ c :: rest) = some (field, c :: rest) := by
  have hquote : c ≠ d.quote := by
    simp only [isSeparator, decide_eq_true_eq] at hc
    rcases hc with rfl | rfl
    · exact d.comma_ne_quote
    · exact d.newline_ne_quote
  rw [encodeField]
  split
  · rw [readField, List.cons_append, List.head?_cons, if_pos rfl, List.tail_cons,
      List.append_assoc, List.cons_append, List.nil_append]
    apply readQuoted_encode
    simpa using hquote
  · rename_i hplain
    rw [not_or, not_or] at hplain
    have hfield : ∀ b ∈ field, (!isSeparator d b) = true := by
      intro b hb
      simp only [isSeparator, Bool.not_eq_true', decide_eq_false_iff_not, not_or]
      exact ⟨fun h => hplain.1 (h ▸ hb), fun h => hplain.2.1 (h ▸ hb)⟩
    have hhead : (field ++ c :: rest).head? ≠ some d.quote := by
      cases field with
      | nil => simpa using hquote
      | cons b field =>
        intro h
        exact hplain.2.2 (by rw [← Option.some.inj h]; exact List.mem_cons_self)
    rw [readField, if_neg hhead, List.takeWhile_append_of_pos hfield,
      List.dropWhile_append_of_pos hfield, List.takeWhile_cons_of_neg (by simp [hc]),
      List.dropWhile_cons_of_neg (by simp [hc]), List.append_nil]

theorem readRow_encode {row : List (List α)} (hrow : row ≠ []) {fuel : Nat}
    (hfuel : row.length ≤ fuel) (rest : List α) :
    readRow d fuel (encodeRow d row ++ rest) = some (row, rest) := by
  induction row generalizing fuel with
  | nil => exact absurd rfl hrow
  | cons field row ih =>
    rcases fuel with _ | fuel
    · cases hfuel
    rw [List.length_cons] at hfuel
    cases row with
    | nil =>
      have hnewline : isSeparator d d.newline = true := by
        simp [isSeparator]
      rw [encodeRow, List.append_assoc, List.cons_append, readRow,
        readField_encode d field hnewline, Option.bind_some]
      simp
    | cons field' row =>
      have hcomma : isSeparator d d.comma = true := by
        simp [isSeparator]
      rw [encodeRow, List.append_assoc, List.cons_append, readRow,
        readField_encode d field hcomma, Option.bind_some]
      · simp only [List.head?_cons, List.tail_cons]
        rw [if_neg fun h => d.comma_ne_newline (Option.some.inj h), if_pos trivial,
          ih (List.cons_ne_nil _ _) (by omega)]
        rfl
      · exact List.cons_ne_nil _ _

theorem length_le_encodeRow (row : List (List α)) : row.length ≤ (encodeRow d row).length := by
  induction row with
  | nil => exact Nat.zero_le _
  | cons field row ih =>
    cases row with
    | nil =>
      rw [encodeRow, List.length_append]
      simp
    | cons field' row =>
      rw [encodeRow, List.length_append]
      · simp only [List.length_cons] at ih ⊢
        omega
      · exact List.cons_ne_nil _ _

/-- The reader inverts the writer. -/
theorem read_encode {rows : List (List (List α))} (hrows : ∀ row ∈ rows, row ≠ []) :
    read d (encode d rows) = some rows := by
  have hread : ∀ fuel, (encode d rows).length + 1 ≤ fuel →
      readRows d fuel (encode d rows) = some rows := by
    induction rows with
    | nil =>
      intro fuel hfuel
      rcases fuel with _ | fuel
      · cases hfuel
      · rfl
    | cons row rows ih =>
      intro fuel hfuel
      have hrow := hrows row List.mem_cons_self
      have hlen := length_le_encodeRow d row
      have hpos : 0 < (encodeRow d row).length := by
        have := List.length_pos_iff.2 hrow
        omega
      rw [encode, List.flatMap_cons, List.length_append] at hfuel
      rcases fuel with _ | fuel
      · cases hfuel
      rw [encode, List.flatMap_cons, readRows, if_neg, readRow_encode d hrow (by omega),
        Option.bind_some]
      · simp only
        rw [← encode, ih (fun r hr => hrows r (List.mem_cons_of_mem _ hr)) fuel
          (by rw [encode]; omega)]
        rfl
      · intro h
        rw [List.append_eq_nil_iff] at h
        rw [h.1, List.length_nil] at hpos
        omega
  exact hread _ (le_refl _)

/-! ## How long a text must be -/

/-- The least length of a field. -/
def fieldSize (field : List α) : Nat := field.length + if d.comma ∈ field then 2 else 0

/-- The least length of a row, with a separator after each field. -/
def rowSize (row : List (List α)) : Nat := (row.map (fieldSize d)).sum + row.length

theorem readQuoted_length {s field rest : List α} (h : readQuoted d s = some (field, rest)) :
    ∃ u, s = u ++ rest ∧ field.length + 1 ≤ u.length := by
  induction hlen : s.length using Nat.strong_induction_on generalizing s field with
  | _ n ih =>
    subst hlen
    rcases s with _ | ⟨c, s⟩
    · rw [readQuoted] at h
      cases h
    rw [readQuoted.eq_def] at h
    simp only at h
    split at h
    · rcases s with _ | ⟨c', s'⟩
      · simp only at h
        cases h
        exact ⟨[c], rfl, le_refl _⟩
      simp only at h
      split at h
      · rcases Option.map_eq_some_iff.1 h with ⟨x, hx, heq⟩
        cases heq
        rcases ih s'.length (by simp only [List.length_cons]; omega) hx rfl with ⟨u, rfl, hu⟩
        exact ⟨c :: c' :: u, rfl, by simp only [List.length_cons]; omega⟩
      · cases h
        exact ⟨[c], rfl, le_refl _⟩
    · rcases Option.map_eq_some_iff.1 h with ⟨x, hx, heq⟩
      cases heq
      rcases ih s.length (by simp only [List.length_cons]; omega) hx rfl with ⟨u, rfl, hu⟩
      exact ⟨c :: u, rfl, by simp only [List.length_cons]; omega⟩

theorem readField_length {s field rest : List α} (h : readField d s = some (field, rest)) :
    ∃ u, s = u ++ rest ∧ fieldSize d field ≤ u.length := by
  rw [readField] at h
  split at h
  · rename_i hquote
    rcases readQuoted_length d h with ⟨u, hu, hle⟩
    refine ⟨d.quote :: u, ?_, ?_⟩
    · rw [List.cons_append, ← hu]
      exact List.eq_cons_of_mem_head? hquote
    · rw [fieldSize, List.length_cons]
      split <;> omega
  · cases h
    refine ⟨_, (List.takeWhile_append_dropWhile).symm, ?_⟩
    rw [fieldSize, if_neg]
    · omega
    · intro hmem
      have hsep := List.mem_takeWhile_imp hmem
      simp [isSeparator] at hsep

theorem readRow_length {fuel : Nat} {s rest : List α} {row : List (List α)}
    (h : readRow d fuel s = some (row, rest)) :
    row ≠ [] ∧ ∃ u, s = u ++ rest ∧ rowSize d row ≤ u.length ∧ 1 ≤ u.count d.newline := by
  induction fuel generalizing s row with
  | zero =>
    rw [readRow] at h
    cases h
  | succ fuel ih =>
    rw [readRow] at h
    rcases Option.bind_eq_some_iff.1 h with ⟨⟨field, t⟩, hfield, hrest⟩
    rcases readField_length d hfield with ⟨u, rfl, hu⟩
    clear h
    simp only at hrest
    split at hrest
    · rename_i hnewline
      cases hrest
      refine ⟨List.cons_ne_nil _ _, u ++ [d.newline], ?_, ?_, ?_⟩
      · rw [List.append_assoc, List.cons_append, List.nil_append,
          ← List.eq_cons_of_mem_head? hnewline]
      · simp only [rowSize, List.map_cons, List.map_nil, List.sum_cons, List.sum_nil,
          List.length_append, List.length_cons, List.length_nil]
        omega
      · rw [List.count_append, List.count_singleton_self]
        omega
    · split at hrest
      · rename_i hcomma
        rcases Option.map_eq_some_iff.1 hrest with ⟨⟨row', t'⟩, hrow, heq⟩
        cases heq
        rcases ih hrow with ⟨-, u', hu', hsize, hcount⟩
        refine ⟨List.cons_ne_nil _ _, u ++ d.comma :: u', ?_, ?_, ?_⟩
        · rw [List.append_assoc, List.cons_append, ← hu', ← List.eq_cons_of_mem_head? hcomma]
        · simp only [rowSize, List.map_cons, List.sum_cons, List.length_append,
            List.length_cons] at hsize ⊢
          omega
        · rw [List.count_append, List.count_cons]
          omega
      · cases hrest

/-- A text that reads as some rows has at least their size, and a newline for each. -/
theorem size_le_of_read {s : List α} {rows : List (List (List α))} (h : read d s = some rows) :
    (∀ row ∈ rows, row ≠ []) ∧ (rows.map (rowSize d)).sum ≤ s.length ∧
      rows.length ≤ s.count d.newline := by
  have hrows : ∀ fuel, readRows d fuel s = some rows →
      (∀ row ∈ rows, row ≠ []) ∧ (rows.map (rowSize d)).sum ≤ s.length ∧
        rows.length ≤ s.count d.newline := by
    intro fuel
    clear h
    induction fuel generalizing s rows with
    | zero =>
      intro h
      rw [readRows] at h
      cases h
    | succ fuel ih =>
      intro h
      rw [readRows] at h
      split at h
      · cases h
        simp
      · rcases Option.bind_eq_some_iff.1 h with ⟨⟨row, t⟩, hrow, hrest⟩
        rcases Option.map_eq_some_iff.1 hrest with ⟨rows', hrows', rfl⟩
        rcases readRow_length d hrow with ⟨hne, u, rfl, hsize, hcount⟩
        rcases ih hrows' with ⟨hne', hsize', hcount'⟩
        refine ⟨?_, ?_, ?_⟩
        · intro r hr
          rcases List.mem_cons.1 hr with rfl | hr
          · exact hne
          · exact hne' r hr
        · simp only [List.map_cons, List.sum_cons, List.length_append]
          omega
        · rw [List.length_cons, List.count_append]
          omega
  exact hrows _ h

end Csv
