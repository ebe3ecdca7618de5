import DbRelay.Db.Standard

/-!
# The numbers of unnamed columns

An unnamed column is named with a counter, which starts at 0 for the field list and for
each row and is raised by every name that starts with a larger number.

* `counter_eq`: the counter in terms of the names alone.
* `namesApart_iff`: when no other column has the name of an unnamed column.  Names before
  it cannot, since they raised the counter, so only names after it do.
-/

namespace DbRelay

variable {T : Type}

/-! ## The counter -/

/-- The column has no name of its own. -/
def Column.unnamed (column : Column T) : Bool := isUnnamedColumn column.name.bytes

/-- The value of `maxcolname` after some columns. -/
def counter (maxcolname : Int) (columns : List (Column T)) : Int :=
  columns.foldl (fun maxcolname column => (columnName maxcolname column.name.bytes).2) maxcolname

/-- `++(*maxcolname)` does not overflow at an unnamed column. -/
def Counts (maxcolname : Int) (columns : List (Column T)) : Prop :=
  ∀ (i : Nat) (column : Column T), columns[i]? = some column → column.unnamed = true →
    counter maxcolname (columns.take i) + 1 < 2 ^ 31

/-- The columns are numbered, and the name of an unnamed column is the name of no other
column. -/
structure NamesApart (columns : List (Column T)) : Prop where
  counts : Counts 0 columns
  apart : ∀ (i j : Nat) (column : Column T) (name other : List UInt8), i ≠ j →
    columns[i]? = some column → column.unnamed = true →
      (columnNames 0 columns)[i]? = some name → (columnNames 0 columns)[j]? = some other →
        name ≠ other

/-! ## The counter without the loop -/

def unnamedCount (columns : List (Column T)) : Nat := columns.countP Column.unnamed

/-- What a column raises the counter to by itself. -/
def Column.raises (column : Column T) : Int :=
  if column.unnamed = true then 1 else max 0 (atoi column.name.bytes)

/-- The largest sum of what a column raises the counter to, and the number of unnamed
columns after it. -/
def reached : List (Column T) → Int
  | [] => 0
  | column :: columns => max (column.raises + unnamedCount columns) (reached columns)

theorem unnamedCount_cons (column : Column T) (columns : List (Column T)) :
    unnamedCount (column :: columns) =
      unnamedCount columns + if column.unnamed = true then 1 else 0 :=
  List.countP_cons

theorem columnName_unnamed {column : Column T} (h : column.unnamed = true) {maxcolname : Int}
    (hpos : 0 ≤ maxcolname) (hlt : maxcolname + 1 < 2 ^ 31) :
    columnName maxcolname column.name.bytes =
      (Decimal.decimalInt (maxcolname + 1), maxcolname + 1) := by
  rw [columnName, if_pos (show isUnnamedColumn column.name.bytes = true from h),
    wrapInt_eq (by omega)]

theorem columnName_named {column : Column T} (h : ¬column.unnamed = true) {maxcolname : Int}
    (hpos : 0 ≤ maxcolname) :
    columnName maxcolname column.name.bytes =
      (column.name.bytes, max maxcolname (atoi column.name.bytes)) := by
  rw [columnName, if_neg (show ¬isUnnamedColumn column.name.bytes = true from h)]
  split
  · rename_i hraised
    rw [max_eq_right (by omega)]
  · rename_i hkept
    rw [max_eq_left (by omega)]

theorem counts_cons {maxcolname : Int} {column : Column T} {columns : List (Column T)} :
    Counts maxcolname (column :: columns) ↔
      (column.unnamed = true → maxcolname + 1 < 2 ^ 31) ∧
        Counts (columnName maxcolname column.name.bytes).2 columns := by
  constructor
  · intro h
    exact ⟨h 0 column rfl, fun i later hlater hunnamed => h (i + 1) later hlater hunnamed⟩
  · rintro ⟨hfirst, hrest⟩ i later hlater hunnamed
    cases i with
    | zero =>
      cases hlater
      exact hfirst hunnamed
    | succ i => exact hrest i later hlater hunnamed

theorem reached_nonneg (columns : List (Column T)) : 0 ≤ reached columns := by
  induction columns with
  | nil => exact le_refl 0
  | cons column columns ih => exact ih.trans (le_max_right _ _)

/-- The counter starts at `maxcolname` or at a column. -/
theorem counter_eq {maxcolname : Int} (hpos : 0 ≤ maxcolname) {columns : List (Column T)}
    (h : Counts maxcolname columns) :
    counter maxcolname columns = max (maxcolname + unnamedCount columns) (reached columns) := by
  induction columns generalizing maxcolname with
  | nil =>
    show maxcolname = max (maxcolname + 0) 0
    omega
  | cons column columns ih =>
    rw [counts_cons] at h
    show counter (columnName maxcolname column.name.bytes).2 columns = _
    by_cases hunnamed : column.unnamed = true
    · have hname := columnName_unnamed hunnamed hpos (h.1 hunnamed)
      rw [hname] at h ⊢
      rw [ih (by omega) h.2, unnamedCount_cons, if_pos hunnamed, reached, Column.raises,
        if_pos hunnamed]
      push_cast
      omega
    · have hname := columnName_named hunnamed hpos
      rw [hname] at h ⊢
      rw [ih (by omega) h.2, unnamedCount_cons, if_neg hunnamed, reached, Column.raises,
        if_neg hunnamed]
      push_cast
      omega

theorem unnamedCount_le_reached (columns : List (Column T)) :
    unnamedCount columns ≤ reached columns := by
  induction columns with
  | nil => exact le_refl 0
  | cons column columns ih =>
    rw [unnamedCount_cons, reached, Column.raises]
    split
    · push_cast
      omega
    · push_cast
      omega

/-- The counter of the code, which starts at 0. -/
theorem counter_zero_eq {columns : List (Column T)} (h : Counts 0 columns) :
    counter 0 columns = reached columns := by
  have hcount := unnamedCount_le_reached columns
  rw [counter_eq (le_refl 0) h]
  omega

theorem reached_append (before after : List (Column T)) :
    reached before + unnamedCount after ≤ reached (before ++ after) := by
  induction before with
  | nil =>
    have hcount := unnamedCount_le_reached after
    rw [reached, List.nil_append]
    omega
  | cons column before ih =>
    have hcount : unnamedCount (before ++ after) = unnamedCount before + unnamedCount after :=
      List.countP_append
    rw [List.cons_append, reached, reached, hcount]
    push_cast
    omega

/-- A column raises the counter for those after it. -/
theorem raises_le_reached {columns : List (Column T)} {column : Column T}
    (h : column ∈ columns) : column.raises ≤ reached columns := by
  induction columns with
  | nil => cases h
  | cons first columns ih =>
    rw [reached]
    rcases List.mem_cons.1 h with rfl | hmem
    · omega
    · have hle := ih hmem
      omega

theorem counts_take {columns : List (Column T)} {i : Nat}
    (h : ∀ (k : Nat) (column : Column T), k < i → columns[k]? = some column →
      column.unnamed = true → counter 0 (columns.take k) + 1 < 2 ^ 31) :
    Counts 0 (columns.take i) := by
  intro k column hcolumn hunnamed
  have hk : k < i := by
    have := (List.getElem?_eq_some_iff.1 hcolumn).1
    rw [List.length_take] at this
    omega
  rw [List.getElem?_take_of_lt hk] at hcolumn
  rw [List.take_take, min_eq_left (Nat.le_of_lt hk)]
  exact h k column hk hcolumn hunnamed

theorem counter_take {columns : List (Column T)} (h : Counts 0 columns) (i : Nat) :
    counter 0 (columns.take i) = reached (columns.take i) :=
  counter_zero_eq (counts_take fun k column _ => h k column)

/-- The columns can be numbered if the numbers fit an `int`. -/
theorem counts_iff (columns : List (Column T)) :
    Counts 0 columns ↔
      ∀ (i : Nat) (column : Column T), columns[i]? = some column → column.unnamed = true →
        reached (columns.take i) + 1 < 2 ^ 31 := by
  constructor
  · intro h i column hcolumn hunnamed
    rw [← counter_take h]
    exact h i column hcolumn hunnamed
  · intro h i
    induction i using Nat.strong_induction_on with
    | _ i ih =>
      intro column hcolumn hunnamed
      rw [counter_zero_eq (counts_take fun k column hk => ih k hk column)]
      exact h i column hcolumn hunnamed

/-- An unnamed column raises the counter. -/
theorem reached_take_lt {columns : List (Column T)} {i j : Nat} (hij : i < j) {column : Column T}
    (hcolumn : columns[i]? = some column) (hunnamed : column.unnamed = true) :
    reached (columns.take i) < reached (columns.take j) := by
  have hsplit := reached_append ((columns.take j).take i) ((columns.take j).drop i)
  have hmem : column ∈ (columns.take j).drop i := by
    refine List.mem_of_getElem? (i := 0) ?_
    rw [List.getElem?_drop, Nat.add_zero, List.getElem?_take_of_lt hij]
    exact hcolumn
  have hcount : 0 < unnamedCount ((columns.take j).drop i) :=
    List.countP_pos_iff.2 ⟨column, hmem, hunnamed⟩
  rw [List.take_append_drop, List.take_take, min_eq_left (Nat.le_of_lt hij)] at hsplit
  omega

/-! ## The names -/

theorem columnNames_getElem? (maxcolname : Int) (columns : List (Column T)) (i : Nat) :
    (columnNames maxcolname columns)[i]? = columns[i]?.map fun column =>
      (columnName (counter maxcolname (columns.take i)) column.name.bytes).1 := by
  induction columns generalizing maxcolname i with
  | nil => rfl
  | cons column columns ih =>
    cases i with
    | zero => rfl
    | succ i => exact ih (columnName maxcolname column.name.bytes).2 i

/-- The text of a number starts with the number. -/
theorem atoi_decimalInt {z : Int} (h : 0 ≤ z ∧ z < 2 ^ 31) : atoi (Decimal.decimalInt z) = z := by
  obtain ⟨n, rfl⟩ := Int.eq_ofNat_of_zero_le h.1
  have hdigit : ∀ b ∈ Decimal.decimal n, Decimal.isDigit b = true :=
    fun b hb => Decimal.isDigit_of_mem_decimal hb
  rw [atoi, Decimal.decimalInt_natCast, Decimal.atol_digits (Decimal.decimal_ne_nil n) hdigit,
    Decimal.readDigits_decimal, Decimal.saturate_eq (by omega), wrapInt_eq (by omega)]

theorem decimalInt_inj {z w : Int} (hz : 0 ≤ z ∧ z < 2 ^ 31) (hw : 0 ≤ w ∧ w < 2 ^ 31)
    (h : Decimal.decimalInt z = Decimal.decimalInt w) : z = w := by
  rw [← atoi_decimalInt hz, h, atoi_decimalInt hw]

theorem columnNames_unnamed {columns : List (Column T)} (h : Counts 0 columns) {i : Nat}
    {column : Column T} (hcolumn : columns[i]? = some column) (hunnamed : column.unnamed = true) :
    (columnNames 0 columns)[i]? = some (Decimal.decimalInt (reached (columns.take i) + 1)) := by
  have hlt := (counts_iff columns).1 h i column hcolumn hunnamed
  rw [columnNames_getElem?, hcolumn, Option.map_some, counter_take h,
    columnName_unnamed hunnamed (reached_nonneg _) hlt]

theorem columnNames_named {columns : List (Column T)} (h : Counts 0 columns) {i : Nat}
    {column : Column T} (hcolumn : columns[i]? = some column) (hnamed : ¬column.unnamed = true) :
    (columnNames 0 columns)[i]? = some column.name.bytes := by
  rw [columnNames_getElem?, hcolumn, Option.map_some, counter_take h,
    columnName_named hnamed (reached_nonneg _)]

/-- The text of a number is the name of a column. -/
theorem not_unnamed_of_decimalInt {column : Column T} {z : Int} (hz : 0 ≤ z)
    (h : column.name.bytes = Decimal.decimalInt z) : ¬column.unnamed = true := by
  obtain ⟨n, rfl⟩ := Int.eq_ofNat_of_zero_le hz
  rw [Decimal.decimalInt_natCast] at h
  rw [Column.unnamed, h, isUnnamedColumn, Bool.or_eq_true, not_or]
  constructor
  · rw [List.isEmpty_iff]
    exact Decimal.decimal_ne_nil n
  · rw [decide_eq_true_iff]
    intro heq
    have hmark : 63 ∈ Decimal.decimal n := heq ▸ by decide
    exact absurd (Decimal.isDigit_of_mem_decimal hmark) (by decide)

/-- No other column has the name of an unnamed column exactly if the numbers fit an `int`,
and no later column is named with the number of an unnamed column. -/
theorem namesApart_iff (columns : List (Column T)) :
    NamesApart columns ↔
      ∀ (i : Nat) (column : Column T), columns[i]? = some column → column.unnamed = true →
        reached (columns.take i) + 1 < 2 ^ 31 ∧
          ∀ (j : Nat) (later : Column T), i < j → columns[j]? = some later →
            later.name.bytes ≠ Decimal.decimalInt (reached (columns.take i) + 1) := by
  constructor
  · intro h i column hcolumn hunnamed
    refine ⟨(counts_iff columns).1 h.counts i column hcolumn hunnamed, ?_⟩
    intro j later hij hlater heq
    have hname := columnNames_unnamed h.counts hcolumn hunnamed
    have hpos := reached_nonneg (columns.take i)
    have hnamed := not_unnamed_of_decimalInt (by omega) heq
    have hother := columnNames_named h.counts hlater hnamed
    exact h.apart i j column _ _ (Nat.ne_of_lt hij) hcolumn hunnamed hname hother heq.symm
  · intro h
    have hcounts : Counts 0 columns :=
      (counts_iff columns).2 fun i column hcolumn hunnamed => (h i column hcolumn hunnamed).1
    refine ⟨hcounts, ?_⟩
    intro i j column name other hne hcolumn hunnamed hname hother
    rw [columnNames_unnamed hcounts hcolumn hunnamed, Option.some.injEq] at hname
    have hnumber : ∀ k, 0 ≤ reached (columns.take k) := fun k => reached_nonneg _
    obtain ⟨hlt, hlater⟩ := h i column hcolumn hunnamed
    have hi := hnumber i
    cases hj : columns[j]? with
    | none =>
      rw [columnNames_getElem?, hj] at hother
      cases hother
    | some otherColumn =>
      by_cases hotherUnnamed : otherColumn.unnamed = true
      · -- Two unnamed columns have different numbers.
        rw [columnNames_unnamed hcounts hj hotherUnnamed, Option.some.injEq] at hother
        have hjlt := (h j otherColumn hj hotherUnnamed).1
        have hjpos := hnumber j
        rw [← hname, ← hother]
        intro heq
        have hsame := decimalInt_inj (by omega) (by omega) heq
        rcases Nat.lt_or_gt_of_ne hne with hij | hij
        · have := reached_take_lt hij hcolumn hunnamed
          omega
        · have := reached_take_lt hij hj hotherUnnamed
          omega
      · rw [columnNames_named hcounts hj hotherUnnamed, Option.some.injEq] at hother
        rw [← hname, ← hother]
        rcases Nat.lt_or_gt_of_ne hne with hij | hij
        · exact (hlater j otherColumn hij hj).symm
        · -- A numeric name before the column raised the counter to its number.
          intro heq
          have hmem : otherColumn ∈ columns.take i := by
            refine List.mem_of_getElem? (i := j) ?_
            rw [List.getElem?_take_of_lt hij]
            exact hj
          have hraised := raises_le_reached hmem
          rw [Column.raises, if_neg hotherUnnamed, ← heq, atoi_decimalInt (by omega)] at hraised
          omega

/-- Columns of one type with the given names. -/
def columnsOf (names : List String) : List (Column Unit) :=
  names.map fun name =>
    { name := .ofBytes (ascii name), type := (), length := 4, precision := 0, scale := 0 }

/-- The second column has the name that the first one was given. -/
theorem not_namesApart_numericName : ¬NamesApart (columnsOf ["", "1"]) := by
  intro h
  exact h.apart 0 1 _ (ascii "1") (ascii "1") (by decide) rfl rfl (by decide +kernel)
    (by decide +kernel) rfl

end DbRelay
