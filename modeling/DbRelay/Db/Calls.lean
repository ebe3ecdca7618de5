import DbRelay.Db.FillData
import DbRelay.Lib.Cursor

/-!
# Result sets from the calls of a backend

`dbrelay_db_fill_data` as the source has it: two nested loops over the calls of
`dbrelay_dbapi_t`, which ask the backend for the next result set, its columns, the next row
and its cells.

* `DbCalls` is the part of the table of calls that these loops use.
* `DbCalls.fillData` has a bound for its loops, since a backend may never say that it is done.
* `DbCalls.IsResult` says what result set a backend delivers, whatever its calls do meanwhile.
* `DbCalls.fillData_ends_iff`: the loops end exactly if the backend delivers finitely many
  result sets with finitely many rows, and they then write what `dbFillData` writes of these.
-/

namespace DbRelay

open JsonWriter

variable {S T : Type}

/-! ## The calls -/

/-- The calls that read results, over the states `S` of a connection.  There is no result where
a call goes out of the memory that it may use. -/
structure DbCalls (S T : Type) where
  hasResults : S → Option (Bool × S)
  numcols : S → Nat
  /-- `api->colname`, `coltype`, `collen`, `colprec` and `colscale` of a column.  Columns are
  counted from 1. -/
  column : S → Nat → Option (Column T)
  fetchRow : S → Option (Bool × S)
  /-- The text that `api->colvalue` copies, or `none` for `NULL`. -/
  colvalue : S → Nat → Option (Option CString)
  rowcount : S → Int
  /-- A row does not change what is said about the columns. -/
  keepsColumns : ∀ {s s' more}, fetchRow s = some (more, s') →
    numcols s' = numcols s ∧ column s' = column s

namespace DbCalls

variable (calls : DbCalls S T) (api : DbApi T) (stale : CString)

/-- The numbers of the columns. -/
def colnums (s : S) : List Nat := List.range' 1 (calls.numcols s)

/-! ## The loops -/

/-- The loop over the columns that writes the fields. -/
def fillFields (json : JsonWriter) (maxcolname : Int) (s : S) : List Nat → Option JsonWriter
  | [] => some json
  | colnum :: colnums =>
    (calls.column s colnum).bind fun column =>
      let (json, maxcolname) := writeJsonColinfo api stale json column maxcolname
      fillFields json maxcolname s colnums

/-- The loop over the columns of a row. -/
def fillCells (json : JsonWriter) (maxcolname : Int) (s : S) : List Nat → Option JsonWriter
  | [] => some json
  | colnum :: colnums =>
    (calls.column s colnum).bind fun column =>
      (calls.colvalue s colnum).bind fun cell =>
        (writeJsonColumn api json column cell maxcolname).bind fun (json, maxcolname) =>
          let json :=
            if json.mode = .csv ∧ colnums ≠ [] then json.addJson (ascii ",") else json
          fillCells json maxcolname s colnums

/-- A row. -/
def fillRow (colnums : List Nat) (json : JsonWriter) (s : S) : Option JsonWriter :=
  let json := if json.mode = .std then json.newObject else json
  (calls.fillCells api json 0 s colnums).map fun json =>
    if json.mode = .std then json.endObject else json.addJson (ascii "\\n")

/-- `while (api->fetch_row(conn->db))`. -/
def fillRows (colnums : List Nat) : Nat → JsonWriter → S → Option (JsonWriter × S) :=
  Cursor.loop calls.fetchRow fun _ json s =>
    (calls.fillRow api colnums json s).map fun json => (json, s)

/-- A result set.  The number of columns is asked for once. -/
def fillResult (fuel : Nat) (json : JsonWriter) (s : S) : Option (JsonWriter × S) :=
  let json := (json.newObject.addKey (ascii "fields")).newArray
  (calls.fillFields api stale json 0 s (calls.colnums s)).bind fun json =>
    let json := json.endArray.addKey (ascii "rows")
    let json := if json.mode = .std then json.newArray else json.addJson (ascii "\"")
    (calls.fillRows api (calls.colnums s) fuel json s).map fun (json, s) =>
      let json := if json.mode = .std then json.endArray else json.addJson (ascii "\",")
      ((writeCount json (calls.rowcount s)).endObject, s)

/-- `while (api->has_results(conn->db))`. -/
def fillResults : Nat → JsonWriter → S → Option (JsonWriter × S) :=
  Cursor.loop calls.hasResults (calls.fillResult api stale)

/-- `dbrelay_db_fill_data`. -/
def fillData (fuel : Nat) (json : JsonWriter) (s : S) : Option (JsonWriter × S) :=
  (calls.fillResults api stale fuel (json.addKey (ascii "data")).newArray s).map
    fun (json, s) => (json.endArray, s)

/-! ## What is delivered -/

/-- What the calls say about the columns with these numbers. -/
abbrev IsColumns (s : S) (colnums : List Nat) (columns : List (Column T)) : Prop :=
  List.Forall₂ (fun colnum column => calls.column s colnum = some column) colnums columns

/-- The current row, which its reading does not change. -/
def IsRow (colnums : List Nat) (s : S) (row : List (Option CString)) (s' : S) : Prop :=
  List.Forall₂ (fun colnum cell => calls.colvalue s colnum = some cell) colnums row ∧ s' = s

/-- The current result set. -/
structure IsResult (s : S) (result : ResultSet T) (s' : S) : Prop where
  columns : calls.IsColumns s (calls.colnums s) result.columns
  rows : Cursor.Delivers calls.fetchRow (calls.IsRow (calls.colnums s)) s result.rows s'
  rowcount : calls.rowcount s' = result.rowcount

/-- The result sets that are left. -/
abbrev DeliversResults (s : S) (results : List (ResultSet T)) (s' : S) : Prop :=
  Cursor.Delivers calls.hasResults calls.IsResult s results s'

variable {calls api stale}

/-! ## Columns and rows -/

/-- A list that is read element by element. -/
theorem forall₂_range'_iff {A : Type} {f : Nat → Option A} {k n : Nat} {l : List A} :
    List.Forall₂ (fun i a => f i = some a) (List.range' k n) l ↔
      l.length = n ∧ ∀ i a, l[i]? = some a → f (k + i) = some a := by
  induction n generalizing k l with
  | zero =>
    rw [List.range'_zero, List.forall₂_nil_left_iff, List.length_eq_zero_iff,
      iff_self_and]
    rintro rfl i a h
    rw [List.getElem?_nil] at h
    cases h
  | succ n ih =>
    cases l with
    | nil => simp [List.range'_succ]
    | cons b l =>
      rw [List.range'_succ, List.forall₂_cons, ih, List.length_cons, Nat.add_right_cancel_iff]
      constructor
      · intro h
        obtain ⟨hb, hlength, hl⟩ := h
        refine ⟨hlength, fun i a hi => ?_⟩
        cases i with
        | zero => rwa [← Option.some.inj hi]
        | succ i => rw [← hl i a hi, Nat.add_assoc, Nat.add_comm 1 i]
      · intro h
        refine ⟨h.2 0 b rfl, h.1, fun i a hi => ?_⟩
        rw [Nat.add_assoc, Nat.add_comm 1 i]
        exact h.2 (i + 1) a hi

theorem fillFields_eq_some_iff {s : S} {colnums : List Nat} {json json' : JsonWriter}
    {maxcolname : Int} :
    calls.fillFields api stale json maxcolname s colnums = some json' ↔
      ∃ columns, calls.IsColumns s colnums columns ∧
        writeFields api stale json maxcolname columns = json' := by
  induction colnums generalizing json maxcolname with
  | nil =>
    simp only [fillFields, IsColumns, List.forall₂_nil_left_iff, exists_eq_left, writeFields,
      Option.some.injEq]
  | cons colnum colnums ih =>
    simp only [fillFields, IsColumns, List.forall₂_cons_left_iff, Option.bind_eq_some_iff, ih]
    constructor
    · intro h
      obtain ⟨column, hcolumn, columns, hcolumns, hwrite⟩ := h
      exact ⟨_, ⟨column, columns, hcolumn, hcolumns, rfl⟩, hwrite⟩
    · intro h
      obtain ⟨_, ⟨column, columns, hcolumn, hcolumns, rfl⟩, hwrite⟩ := h
      exact ⟨column, hcolumn, columns, hcolumns, hwrite⟩

theorem fillCells_eq_some_iff {s : S} {colnums : List Nat} {columns : List (Column T)}
    (hcolumns : calls.IsColumns s colnums columns) {json json' : JsonWriter} {maxcolname : Int} :
    calls.fillCells api json maxcolname s colnums = some json' ↔
      ∃ row, List.Forall₂ (fun colnum cell => calls.colvalue s colnum = some cell) colnums row ∧
        writeCells api json maxcolname (columns.zip row) = some json' := by
  induction hcolumns generalizing json maxcolname with
  | nil => simp only [fillCells, List.forall₂_nil_left_iff, exists_eq_left, List.zip_nil_left,
      writeCells]
  | @cons colnum column colnums columns hcolumn hcolumns ih =>
    have hne : ∀ row : List (Option CString), List.Forall₂
        (fun colnum cell => calls.colvalue s colnum = some cell) colnums row →
        (colnums ≠ [] ↔ columns.zip row ≠ []) := by
      intro row hrow
      have hlength := hcolumns.length_eq
      have hlength' := hrow.length_eq
      rw [← List.length_pos_iff, ← List.length_pos_iff, List.length_zip]
      omega
    simp only [fillCells, hcolumn, Option.bind_some, List.forall₂_cons_left_iff,
      Option.bind_eq_some_iff, ih]
    constructor
    · intro h
      obtain ⟨cell, hcell, ⟨json₁, maxcolname₁⟩, hwrite, row, hrow, hrest⟩ := h
      refine ⟨_, ⟨cell, row, hcell, hrow, rfl⟩, ?_⟩
      rw [List.zip_cons_cons, writeCells, hwrite, Option.bind_some]
      simp only [← hne row hrow]
      exact hrest
    · intro h
      obtain ⟨_, ⟨cell, row, hcell, hrow, rfl⟩, hwrite⟩ := h
      rw [List.zip_cons_cons, writeCells] at hwrite
      obtain ⟨⟨json₁, maxcolname₁⟩, hfirst, hrest⟩ := Option.bind_eq_some_iff.1 hwrite
      simp only [← hne row hrow] at hrest
      exact ⟨cell, hcell, _, hfirst, row, hrow, hrest⟩

theorem fillRow_eq_some_iff {s : S} {colnums : List Nat} {columns : List (Column T)}
    (hcolumns : calls.IsColumns s colnums columns) {json json' : JsonWriter} :
    calls.fillRow api colnums json s = some json' ↔
      ∃ row, calls.IsRow colnums s row s ∧ writeRow api columns json row = some json' := by
  simp only [fillRow, writeRow, Option.map_eq_some_iff, fillCells_eq_some_iff hcolumns, IsRow,
    and_true]
  constructor
  · intro h
    obtain ⟨json₁, ⟨row, hrow, hwrite⟩, hjson⟩ := h
    exact ⟨row, hrow, json₁, hwrite, hjson⟩
  · intro h
    obtain ⟨row, hrow, json₁, hwrite, hjson⟩ := h
    exact ⟨json₁, ⟨row, hrow, hwrite⟩, hjson⟩

theorem writeRows_eq_foldlM (columns : List (Column T)) (json : JsonWriter)
    (rows : List (List (Option CString))) :
    writeRows api columns json rows = rows.foldlM (writeRow api columns) json := by
  induction rows generalizing json with
  | nil => rfl
  | cons row rows ih =>
    rw [writeRows, List.foldlM_cons]
    exact Option.bind_congr fun json _ => ih json

theorem writeResults_eq_foldlM (json : JsonWriter) (results : List (ResultSet T)) :
    writeResults api stale json results = results.foldlM (writeResult api stale) json := by
  induction results generalizing json with
  | nil => rfl
  | cons result results ih =>
    rw [writeResults, List.foldlM_cons]
    exact Option.bind_congr fun json _ => ih json

/-- The loop over the rows. -/
theorem fillRows_ends_iff {s s' : S} {colnums : List Nat} {columns : List (Column T)}
    (hcolumns : calls.IsColumns s colnums columns) {json json' : JsonWriter} :
    Cursor.Ends (fun fuel => calls.fillRows api colnums fuel json s) (json', s') ↔
      ∃ rows, Cursor.Delivers calls.fetchRow (calls.IsRow colnums) s rows s' ∧
        writeRows api columns json rows = some json' := by
  simp only [writeRows_eq_foldlM]
  refine Cursor.loop_ends_iff (P := fun s => calls.IsColumns s colnums columns) ?_ ?_ ?_ ?_ json
    hcolumns json' s'
  · intro s s' hnext hs
    show List.Forall₂ _ colnums columns
    rw [(calls.keepsColumns hnext).2]
    exact hs
  · intro s row s' hrow hs
    rw [hrow.2]
    exact hs
  · exact fun json s => Cursor.steady_const _
  · intro json s json' s' hs
    rw [Cursor.ends_const, Option.map_eq_some_iff]
    simp only [fillRow_eq_some_iff hs, Prod.mk.injEq]
    constructor
    · intro h
      obtain ⟨json₁, ⟨row, hrow, hwrite⟩, rfl, rfl⟩ := h
      exact ⟨row, hrow, hwrite⟩
    · intro h
      obtain ⟨row, ⟨hrow, rfl⟩, hwrite⟩ := h
      exact ⟨json', ⟨row, ⟨hrow, rfl⟩, hwrite⟩, rfl, rfl⟩

/-- A row has a cell for each column. -/
theorem length_of_delivers {s s' : S} {colnums : List Nat} {rows : List (List (Option CString))}
    (h : Cursor.Delivers calls.fetchRow (calls.IsRow colnums) s rows s') :
    ∀ row ∈ rows, row.length = colnums.length := by
  induction h with
  | done => exact fun row hrow => absurd hrow List.not_mem_nil
  | more hnext hrow rest ih => exact List.forall_mem_cons.2 ⟨hrow.1.length_eq.symm, ih⟩

/-! ## Result sets -/

theorem fillRows_steady (colnums : List Nat) (json : JsonWriter) (s : S) :
    Cursor.Steady fun fuel => calls.fillRows api colnums fuel json s := by
  unfold fillRows
  exact Cursor.loop_steady (fun json s => Cursor.steady_const ((calls.fillRow api colnums json
    s).map fun json => (json, s))) json s

theorem fillResult_steady (json : JsonWriter) (s : S) :
    Cursor.Steady fun fuel => calls.fillResult api stale fuel json s :=
  (Cursor.steady_const _).bind fun _ => (fillRows_steady _ _ s).map _

theorem fillResult_ends_iff {s s' : S} {json json' : JsonWriter} :
    Cursor.Ends (fun fuel => calls.fillResult api stale fuel json s) (json', s') ↔
      ∃ result, calls.IsResult s result s' ∧ writeResult api stale json result = some json' := by
  simp only [fillResult, Cursor.ends_bind_const_iff, Cursor.ends_map_iff,
    fillFields_eq_some_iff]
  constructor
  · intro h
    obtain ⟨_, ⟨columns, hcolumns, rfl⟩, ⟨json₁, s₁⟩, hrows, hlast⟩ := h
    obtain ⟨rows, hdelivers, hwrite⟩ := (fillRows_ends_iff hcolumns).1 hrows
    obtain ⟨rfl, rfl⟩ := Prod.mk.inj hlast
    have hwidth : ∀ row ∈ rows, row.length = columns.length := fun row hrow =>
      (length_of_delivers hdelivers row hrow).trans hcolumns.length_eq
    refine ⟨⟨columns, rows, calls.rowcount s₁, hwidth⟩, ⟨hcolumns, hdelivers, rfl⟩, ?_⟩
    exact Option.map_eq_some_iff.2 ⟨json₁, hwrite, rfl⟩
  · intro h
    obtain ⟨result, ⟨hcolumns, hdelivers, hcount⟩, hwrite⟩ := h
    obtain ⟨json₁, hrows, hlast⟩ := Option.map_eq_some_iff.1 hwrite
    refine ⟨_, ⟨result.columns, hcolumns, rfl⟩, (json₁, s'),
      (fillRows_ends_iff hcolumns).2 ⟨result.rows, hdelivers, hrows⟩, ?_⟩
    rw [← hlast, ← hcount]

theorem fillData_steady (json : JsonWriter) (s : S) :
    Cursor.Steady fun fuel => calls.fillData api stale fuel json s := by
  have hloop : ∀ json, Cursor.Steady fun fuel => calls.fillResults api stale fuel json s := by
    intro json
    unfold fillResults
    exact Cursor.loop_steady fillResult_steady json s
  exact (hloop _).map _

/-- The loops of the source against the function on lists. -/
theorem fillData_ends_iff {s s' : S} {json json' : JsonWriter} :
    Cursor.Ends (fun fuel => calls.fillData api stale fuel json s) (json', s') ↔
      ∃ results, calls.DeliversResults s results s' ∧
        dbFillData api stale json results = some json' := by
  have hloop : ∀ json₁ json₂ s₂,
      Cursor.Ends (fun fuel => calls.fillResults api stale fuel json₁ s) (json₂, s₂) ↔
        ∃ results, calls.DeliversResults s results s₂ ∧
          writeResults api stale json₁ results = some json₂ := by
    intro json₁ json₂ s₂
    simp only [writeResults_eq_foldlM]
    exact Cursor.loop_ends_iff (P := fun _ => True) (fun _ _ => trivial) (fun _ _ => trivial)
      fillResult_steady (fun _ _ _ _ _ => fillResult_ends_iff) json₁ trivial json₂ s₂
  simp only [fillData, Cursor.ends_map_iff, dbFillData, Option.map_eq_some_iff]
  constructor
  · intro h
    obtain ⟨⟨json₁, s₁⟩, hrun, hlast⟩ := h
    obtain ⟨rfl, rfl⟩ := Prod.mk.inj hlast
    obtain ⟨results, hresults, hwrite⟩ := (hloop _ _ _).1 hrun
    exact ⟨results, hresults, json₁, hwrite, rfl⟩
  · intro h
    obtain ⟨results, hresults, json₁, hwrite, rfl⟩ := h
    exact ⟨(json₁, s'), (hloop _ _ _).2 ⟨results, hresults, hwrite⟩, rfl⟩

end DbCalls

end DbRelay
