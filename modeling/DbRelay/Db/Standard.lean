import DbRelay.Db.FillData
import DbRelay.Json.RoundTrip

/-!
# Result sets in the standard mode

In the standard mode `dbrelay_db_fill_data` makes the calls of a tree, so its text
is JSON in UTF-8 exactly when the tree is well formed.  Only the rows can break that:
their keys are column names, which the key writer does not escape, and the text of a
column that the backend does not quote stands there as it is.

The string writer makes a code unit of each byte of a name or a cell.  That is what the byte
stands for when the client library gives one byte for a character, and with UTF-8 only in
ASCII texts.

* `queryText_std`: the text is that of `resultItems`, if the result sets fit.
* `faithfulJson_iff`: the text stands for the result sets exactly when every cell
  is printable and every text can be read.
-/

namespace DbRelay

open JsonWriter Json

variable {T : Type}

/-! ## Names -/

/-- The names of the columns, from a value of `maxcolname` on. -/
def columnNames (maxcolname : Int) : List (Column T) → List (List UInt8)
  | [] => []
  | column :: columns =>
    (columnName maxcolname column.name.bytes).1 ::
      columnNames (columnName maxcolname column.name.bytes).2 columns

/-! ## The trees of the result sets -/

/-- A number that is left out when it is 0. -/
def optional (key : List UInt8) (l : Int) (rest : Members) : Members :=
  if l = 0 then rest else .cons key (.number (Decimal.decimalInt l)) rest

def fieldTree (api : DbApi T) (stale : CString) (name : List UInt8) (column : Column T) : Tree :=
  .object (.cons (ascii "name") (.string name)
    (.cons (ascii "sql_type") (.string (coltype api stale column))
      (optional (ascii "length") column.length
        (optional (ascii "precision") column.precision
          (optional (ascii "scale") column.scale .nil)))))

def fieldItems (api : DbApi T) (stale : CString) (maxcolname : Int) : List (Column T) → Items
  | [] => .nil
  | column :: columns =>
    .cons (fieldTree api stale (columnName maxcolname column.name.bytes).1 column)
      (fieldItems api stale (columnName maxcolname column.name.bytes).2 columns)

def cellMember (api : DbApi T) (column : Column T) : Option CString → Member
  | none => .null
  | some tmp => if api.isQuoted column.type then .string tmp.bytes else .number tmp.bytes

def rowMembers (api : DbApi T) (maxcolname : Int) : List (Column T × Option CString) → Members
  | [] => .nil
  | (column, cell) :: cells =>
    .cons (columnName maxcolname column.name.bytes).1 (cellMember api column cell)
      (rowMembers api (columnName maxcolname column.name.bytes).2 cells)

def rowItems (api : DbApi T) (columns : List (Column T)) : List (List (Option CString)) → Items
  | [] => .nil
  | row :: rows => .cons (.object (rowMembers api 0 (columns.zip row))) (rowItems api columns rows)

def countMember (rowcount : Int) : Member :=
  if rowcount = -1 then .null else .number (Decimal.decimalInt rowcount)

def resultTree (api : DbApi T) (stale : CString) (result : ResultSet T) : Tree :=
  .object (.cons (ascii "fields") (.tree (.array (fieldItems api stale 0 result.columns)))
    (.cons (ascii "rows") (.tree (.array (rowItems api result.columns result.rows)))
      (.cons (ascii "count") (countMember result.rowcount) .nil)))

def resultItems (api : DbApi T) (stale : CString) : List (ResultSet T) → Items
  | [] => .nil
  | result :: results => .cons (resultTree api stale result) (resultItems api stale results)

/-! ## Copies into the buffers -/

/-- A name and the text of its cell fit their buffers. -/
def CellFits (column : Column T) (cell : Option CString) : Prop :=
  (isUnnamedColumn column.name.bytes = true ∨ column.name.bytes.length < colnameSz) ∧
    ∀ tmp ∈ cell, tmp.bytes.length < cellSz column

instance (column : Column T) (cell : Option CString) : Decidable (CellFits column cell) :=
  inferInstanceAs (Decidable (_ ∧ _))

theorem length_decimalInt_wrapInt (z : Int) :
    (Decimal.decimalInt (wrapInt z)).length < colnameSz := by
  have hle : (Decimal.decimalInt (wrapInt z)).length ≤ 10 + 1 := by
    rw [Decimal.length_decimalInt_le_iff (by decide)]
    have hmem := wrapInt_mem z
    omega
  have hsize : colnameSz = 256 := rfl
  omega

/-- A number always fits the buffer of a name. -/
theorem columnName_fits_iff (maxcolname : Int) (colname : List UInt8) :
    (columnName maxcolname colname).1.length < colnameSz ↔
      isUnnamedColumn colname = true ∨ colname.length < colnameSz := by
  unfold columnName
  split
  · rename_i hunnamed
    exact ⟨fun _ => .inl hunnamed, fun _ => length_decimalInt_wrapInt _⟩
  · rename_i hnamed
    have hiff : (isUnnamedColumn colname = true ∨ colname.length < colnameSz) ↔
        colname.length < colnameSz := or_iff_right hnamed
    rw [hiff]
    split <;> rfl

/-! ## The calls -/

/-- No call changes the mode. -/
theorem mode_call (json : JsonWriter) (call : JsonCall) : (json.call call).mode = json.mode := by
  cases call with
  | newObject =>
    rcases newNode_wrote json .object (ascii "\x7b") with ⟨parts, -, heq⟩
    rw [JsonWriter.call, newObject, heq]
  | endObject =>
    rcases endNode_wrote json (ascii "\x7d") with ⟨parts, -, heq⟩
    rw [JsonWriter.call, endObject, heq]
  | newArray =>
    rcases newNode_wrote json .array (ascii "[") with ⟨parts, -, heq⟩
    rw [JsonWriter.call, newArray, heq]
  | endArray =>
    rcases endNode_wrote json (ascii "]") with ⟨parts, -, heq⟩
    rw [JsonWriter.call, endArray, heq]
  | addKey key =>
    rcases addKey_wrote json key with ⟨parts, -, heq⟩
    rw [JsonWriter.call, heq]
  | addNumber key value =>
    rcases addNumber_wrote json key value with ⟨parts, -, heq⟩
    rw [JsonWriter.call, heq]
  | addNull key =>
    rcases addNull_wrote json key with ⟨parts, -, heq⟩
    rw [JsonWriter.call, heq]
  | addString key value =>
    rcases addString_wrote json key value with ⟨parts, -, heq⟩
    rw [JsonWriter.call, heq]

theorem mode_run (json : JsonWriter) (calls : List JsonCall) :
    (json.run calls).mode = json.mode := by
  induction calls generalizing json with
  | nil => rfl
  | cons call calls ih => rw [run_cons, ih, mode_call]

theorem run_optional (key : List UInt8) (l : Int) (rest : Members) (json : JsonWriter) :
    json.run (optional key l rest).calls = (addInt key l json).run rest.calls := by
  unfold optional addInt
  split
  · rfl
  · rw [Members.calls, run_append]
    rfl

/-- `dbrelay_write_json_colinfo` makes the calls of a tree. -/
theorem writeJsonColinfo_eq (api : DbApi T) (stale : CString) (json : JsonWriter)
    (column : Column T) (maxcolname : Int) :
    writeJsonColinfo api stale json column maxcolname =
      (json.run (fieldTree api stale (columnName maxcolname column.name.bytes).1 column).calls,
        (columnName maxcolname column.name.bytes).2) := by
  rw [fieldTree, Tree.calls, run_cons, Members.calls, Members.calls, run_append, run_append,
    run_append, run_optional, run_optional, run_optional]
  rfl

theorem writeFields_eq (api : DbApi T) (stale : CString) (json : JsonWriter) (maxcolname : Int)
    (columns : List (Column T)) :
    writeFields api stale json maxcolname columns =
      json.run (fieldItems api stale maxcolname columns).calls := by
  induction columns generalizing json maxcolname with
  | nil => rfl
  | cons column columns ih =>
    rw [writeFields, writeJsonColinfo_eq, fieldItems, Items.calls, run_append]
    exact ih _ _

/-- A cell is one call, if the copies fit. -/
theorem writeJsonColumn_std (api : DbApi T) (json : JsonWriter) (hmode : json.mode = .std)
    (column : Column T) (cell : Option CString) (maxcolname : Int) :
    writeJsonColumn api json column cell maxcolname =
      if CellFits column cell then
        some (json.run ((cellMember api column cell).calls
          (columnName maxcolname column.name.bytes).1), (columnName maxcolname column.name.bytes).2)
      else none := by
  have hfits := columnName_fits_iff maxcolname column.name.bytes
  rw [writeJsonColumn, hmode]
  simp only
  by_cases hname : isUnnamedColumn column.name.bytes = true ∨
      column.name.bytes.length < colnameSz
  · rw [if_pos (hfits.2 hname)]
    cases cell with
    | none =>
      rw [if_pos (show CellFits column none from ⟨hname, by simp⟩)]
      rfl
    | some tmp =>
      rw [writeJsonColumnStd]
      by_cases hcell : tmp.bytes.length < cellSz column
      · rw [if_pos hcell,
          if_pos (show CellFits column (some tmp) from ⟨hname, by simpa using hcell⟩),
          cellMember]
        split
        · rfl
        · rfl
      · rw [if_neg hcell, if_neg fun h : CellFits column (some tmp) => hcell (h.2 tmp rfl)]
        rfl
  · rw [if_neg fun h => hname (hfits.1 h), if_neg fun h : CellFits column cell => hname h.1]

theorem writeCells_std (api : DbApi T) (json : JsonWriter) (hmode : json.mode = .std)
    (maxcolname : Int) (cells : List (Column T × Option CString)) :
    writeCells api json maxcolname cells =
      if ∀ p ∈ cells, CellFits p.1 p.2 then
        some (json.run (rowMembers api maxcolname cells).calls)
      else none := by
  induction cells generalizing json maxcolname with
  | nil => simp [writeCells, rowMembers, Members.calls, JsonWriter.run]
  | cons p cells ih =>
    rcases p with ⟨column, cell⟩
    rw [writeCells, writeJsonColumn_std api json hmode]
    simp only [List.forall_mem_cons]
    by_cases hfits : CellFits column cell
    · have hmode' := mode_run json ((cellMember api column cell).calls
        (columnName maxcolname column.name.bytes).1)
      rw [hmode] at hmode'
      rw [if_pos hfits, Option.bind_some]
      simp only [hmode', reduceCtorEq, false_and, if_false]
      rw [ih _ hmode', rowMembers, Members.calls, run_append]
      simp only [hfits, true_and]
    · rw [if_neg hfits, if_neg fun h => hfits h.1]
      rfl

theorem writeRows_std (api : DbApi T) (columns : List (Column T)) (json : JsonWriter)
    (hmode : json.mode = .std) (rows : List (List (Option CString))) :
    writeRows api columns json rows =
      if ∀ row ∈ rows, ∀ p ∈ columns.zip row, CellFits p.1 p.2 then
        some (json.run (rowItems api columns rows).calls)
      else none := by
  induction rows generalizing json with
  | nil => simp [writeRows, rowItems, Items.calls, JsonWriter.run]
  | cons row rows ih =>
    have hnew : json.newObject.mode = .std := by
      rw [← hmode]
      exact mode_call json .newObject
    rw [writeRows, writeRow]
    simp only [hmode, if_true, List.forall_mem_cons]
    rw [writeCells_std api _ hnew]
    by_cases hfits : ∀ p ∈ columns.zip row, CellFits p.1 p.2
    · have hmode' := mode_run json.newObject (rowMembers api 0 (columns.zip row)).calls
      rw [hnew] at hmode'
      have hend : ((json.newObject.run (rowMembers api 0 (columns.zip row)).calls).endObject).mode =
          .std := by
        rw [← hmode']
        exact mode_call _ .endObject
      rw [if_pos hfits, Option.map_some, Option.bind_some]
      simp only [hmode', if_true]
      rw [ih _ hend, rowItems, Items.calls, run_append, Tree.calls, run_cons, run_append]
      simp only [and_iff_right hfits]
      rfl
    · rw [if_neg hfits, if_neg fun h => hfits h.1]
      rfl

/-- Every cell of a result set fits its buffers. -/
def ResultFits (result : ResultSet T) : Prop :=
  ∀ row ∈ result.rows, ∀ p ∈ result.columns.zip row, CellFits p.1 p.2

instance (result : ResultSet T) : Decidable (ResultFits result) :=
  inferInstanceAs (Decidable (∀ row ∈ result.rows, _))

theorem writeCount_eq (json : JsonWriter) (rowcount : Int) :
    writeCount json rowcount = json.run ((countMember rowcount).calls (ascii "count")) := by
  unfold writeCount countMember
  split
  · rfl
  · rfl

theorem writeResult_std (api : DbApi T) (stale : CString) (json : JsonWriter)
    (hmode : json.mode = .std) (result : ResultSet T) :
    writeResult api stale json result =
      if ResultFits result then some (json.run (resultTree api stale result).calls)
      else none := by
  have hfields : ((writeFields api stale ((json.newObject.addKey (ascii "fields")).newArray) 0
      result.columns).endArray.addKey (ascii "rows")) =
      json.run ([.newObject, .addKey (ascii "fields"), .newArray] ++
        (fieldItems api stale 0 result.columns).calls ++ [.endArray, .addKey (ascii "rows")]) := by
    rw [writeFields_eq, run_append, run_append]
    rfl
  have hmode' : ((writeFields api stale ((json.newObject.addKey (ascii "fields")).newArray) 0
      result.columns).endArray.addKey (ascii "rows")).mode = .std := by
    rw [hfields, mode_run, hmode]
  have hmode'' : ((writeFields api stale ((json.newObject.addKey (ascii "fields")).newArray) 0
      result.columns).endArray.addKey (ascii "rows")).newArray.mode = .std := by
    rw [← hmode']
    exact mode_call _ .newArray
  rw [writeResult]
  simp only [hmode', if_true]
  rw [writeRows_std api _ _ hmode'']
  by_cases hfits : ∀ row ∈ result.rows, ∀ p ∈ result.columns.zip row, CellFits p.1 p.2
  · rw [if_pos hfits, if_pos (show ResultFits result from hfits), Option.map_some]
    simp only [mode_run, hmode'', if_true]
    rw [writeCount_eq, hfields]
    simp only [resultTree, Tree.calls, Members.calls, Member.calls, run_cons, run_append,
      List.cons_append, List.append_assoc, List.nil_append, List.append_nil]
    rfl
  · rw [if_neg hfits, if_neg (show ¬ResultFits result from hfits)]
    rfl

theorem writeResults_std (api : DbApi T) (stale : CString) (json : JsonWriter)
    (hmode : json.mode = .std) (results : List (ResultSet T)) :
    writeResults api stale json results =
      if ∀ result ∈ results, ResultFits result then
        some (json.run (resultItems api stale results).calls)
      else none := by
  induction results generalizing json with
  | nil => simp [writeResults, resultItems, Items.calls, JsonWriter.run]
  | cons result results ih =>
    rw [writeResults, writeResult_std api stale json hmode]
    simp only [List.forall_mem_cons]
    by_cases hfits : ResultFits result
    · rw [if_pos hfits, Option.bind_some, ih _ (by rw [mode_run, hmode]), resultItems,
        Items.calls, run_append]
      simp only [and_iff_right hfits]
    · rw [if_neg hfits, if_neg fun h => hfits h.1]
      rfl

/-- There is a buffer for each column, and each text fits its buffer. -/
def ResultWritable (api : DbApi T) (result : ResultSet T) : Prop :=
  api.Binds result ∧ ResultFits result

instance (api : DbApi T) (result : ResultSet T) : Decidable (ResultWritable api result) :=
  inferInstanceAs (Decidable (_ ∧ _))

/-- What does not depend on the mode. -/
theorem queryText_eq {api : DbApi T} {stale : CString} {prettyprint : Bool} {mode : JsonMode}
    {results : List (ResultSet T)} {text : List UInt8}
    (h : (dbFillData api stale ((JsonWriter.new prettyprint).setMode mode) results).map
      JsonWriter.toString = if ∀ result ∈ results, ResultFits result then some text else none) :
    queryText api stale prettyprint mode results =
      if ∀ result ∈ results, ResultWritable api result then some text else none := by
  rw [queryText, h]
  by_cases hbinds : ∀ result ∈ results, api.Binds result
  · rw [if_pos hbinds]
    refine if_congr ?_ rfl rfl
    exact forall₂_congr fun result hresult => (and_iff_right (hbinds result hresult)).symm
  · rw [if_neg hbinds, if_neg fun h' => hbinds fun result hresult => (h' result hresult).1]

/-- The text that a batch gives in the standard mode. -/
theorem queryText_std (api : DbApi T) (stale : CString) (prettyprint : Bool)
    (results : List (ResultSet T)) :
    queryText api stale prettyprint .std results =
      if ∀ result ∈ results, ResultWritable api result then
        some (keyText prettyprint (ascii "data") ++
          (Tree.array (resultItems api stale results)).text prettyprint 0)
      else none := by
  have hstart : (((JsonWriter.new prettyprint).setMode .std).addKey (ascii "data")).newArray =
      (JsonWriter.new prettyprint).run [.addKey (ascii "data"), .newArray] := rfl
  have hmode : ((JsonWriter.new prettyprint).run
      [.addKey (ascii "data"), .newArray]).mode = .std := mode_run _ _
  refine queryText_eq ?_
  rw [dbFillData, hstart, writeResults_std api stale _ hmode]
  by_cases hfits : ∀ result ∈ results, ResultFits result
  · rw [if_pos hfits, if_pos hfits, Option.map_some, Option.map_some]
    have hrun := (Member.run_calls (.tree (.array (resultItems api stale results)))
      (ascii "data") (.new prettyprint)).toString_eq
    have hcalls : ((JsonWriter.new prettyprint).run
        ((Member.tree (.array (resultItems api stale results))).calls (ascii "data"))) =
        (((JsonWriter.new prettyprint).run [.addKey (ascii "data"), .newArray]).run
          (resultItems api stale results).calls).endArray := by
      rw [Member.calls, Tree.calls, run_cons, run_cons, run_append]
      rfl
    rw [hcalls] at hrun
    exact congrArg some hrun
  · rw [if_neg hfits, if_neg hfits]
    rfl

/-! ## Well-formed result sets -/

/-- A cell that the standard mode writes as JSON: the name of its column is ASCII and needs
no escape, and a text that is not quoted is a number. -/
def CellPrintable (api : DbApi T) (column : Column T) (cell : Option CString) : Prop :=
  (isUnnamedColumn column.name.bytes = true ∨ IsKey .utf8 column.name.bytes) ∧
    ∀ tmp ∈ cell, api.isQuoted column.type = true ∨ isNumber tmp.bytes = true

theorem columnName_isKey_iff (maxcolname : Int) (colname : List UInt8) :
    IsKey .utf8 (columnName maxcolname colname).1 ↔
      isUnnamedColumn colname = true ∨ IsKey .utf8 colname := by
  unfold columnName
  split
  · rename_i hunnamed
    exact ⟨fun _ => .inl hunnamed, fun _ => isKey_decimalInt _⟩
  · rename_i hnamed
    have hiff : (isUnnamedColumn colname = true ∨ IsKey .utf8 colname) ↔ IsKey .utf8 colname :=
      or_iff_right hnamed
    rw [hiff]
    split <;> rfl

theorem wellFormed_optional {key : List UInt8} {l : Int} {rest : Members} (hkey : IsKey .utf8 key)
    (hrest : rest.WellFormed .utf8) : (optional key l rest).WellFormed .utf8 := by
  unfold optional
  split
  · exact hrest
  · exact ⟨hkey, isNumber_decimalInt l, hrest⟩

theorem wellFormed_fieldTree (api : DbApi T) (stale : CString) (name : List UInt8)
    (column : Column T) : (fieldTree api stale name column).WellFormed .utf8 := by
  refine ⟨?_, trivial, ?_, trivial, ?_⟩
  · decide
  · decide
  · refine wellFormed_optional (by decide) ?_
    refine wellFormed_optional (by decide) ?_
    exact wellFormed_optional (by decide) trivial

theorem wellFormed_fieldItems (api : DbApi T) (stale : CString) (maxcolname : Int)
    (columns : List (Column T)) : (fieldItems api stale maxcolname columns).WellFormed .utf8 := by
  induction columns generalizing maxcolname with
  | nil => exact trivial
  | cons column columns ih => exact ⟨wellFormed_fieldTree api stale _ column, ih _⟩

theorem wellFormed_rowMembers_iff (api : DbApi T) (maxcolname : Int)
    (cells : List (Column T × Option CString)) :
    (rowMembers api maxcolname cells).WellFormed .utf8 ↔
      ∀ p ∈ cells, CellPrintable api p.1 p.2 := by
  induction cells generalizing maxcolname with
  | nil => simp [rowMembers, Members.WellFormed]
  | cons p cells ih =>
    rcases p with ⟨column, cell⟩
    have hcell : (cellMember api column cell).WellFormed .utf8 ↔
        ∀ tmp ∈ cell, api.isQuoted column.type = true ∨ isNumber tmp.bytes = true := by
      cases cell with
      | none => simp [cellMember, Member.WellFormed]
      | some tmp =>
        rw [cellMember]
        by_cases hquoted : api.isQuoted column.type = true
        · simp [hquoted, Member.WellFormed]
        · simp [hquoted, Member.WellFormed]
    rw [rowMembers, Members.WellFormed, ih, columnName_isKey_iff, hcell, List.forall_mem_cons,
      CellPrintable, and_assoc]

theorem wellFormed_rowItems_iff (api : DbApi T) (columns : List (Column T))
    (rows : List (List (Option CString))) :
    (rowItems api columns rows).WellFormed .utf8 ↔
      ∀ row ∈ rows, ∀ p ∈ columns.zip row, CellPrintable api p.1 p.2 := by
  induction rows with
  | nil => simp [rowItems, Items.WellFormed]
  | cons row rows ih =>
    rw [rowItems, Items.WellFormed, ih, Tree.WellFormed, wellFormed_rowMembers_iff,
      List.forall_mem_cons]

/-- The rows of a result set are printable. -/
def ResultPrintable (api : DbApi T) (result : ResultSet T) : Prop :=
  ∀ row ∈ result.rows, ∀ p ∈ result.columns.zip row, CellPrintable api p.1 p.2

theorem wellFormed_count (rowcount : Int) :
    (Members.cons (ascii "count") (countMember rowcount) .nil).WellFormed .utf8 := by
  refine ⟨by decide, ?_, trivial⟩
  unfold countMember
  split
  · exact trivial
  · exact isNumber_decimalInt rowcount

theorem wellFormed_resultTree_iff (api : DbApi T) (stale : CString) (result : ResultSet T) :
    (resultTree api stale result).WellFormed .utf8 ↔ ResultPrintable api result := by
  have hrows := wellFormed_rowItems_iff api result.columns result.rows
  constructor
  · intro h
    exact hrows.1 h.2.2.2.1
  · intro h
    refine ⟨by decide, wellFormed_fieldItems api stale 0 result.columns, ?_⟩
    exact ⟨by decide, hrows.2 h, wellFormed_count result.rowcount⟩

theorem wellFormed_resultItems_iff (api : DbApi T) (stale : CString)
    (results : List (ResultSet T)) :
    (resultItems api stale results).WellFormed .utf8 ↔
      ∀ result ∈ results, ResultPrintable api result := by
  induction results with
  | nil => simp [resultItems, Items.WellFormed]
  | cons result results ih =>
    rw [resultItems, Items.WellFormed, ih, wellFormed_resultTree_iff, List.forall_mem_cons]

/-! ## What the text stands for -/

/-- The value of a cell whose text is in this encoding, if it is a text. -/
def cellValue (enc : Encoding) (api : DbApi T) (column : Column T) : Option CString → Option Value
  | none => some .null
  | some tmp =>
    if api.isQuoted column.type then (enc.units tmp.bytes).map .string
    else some (.number tmp.bytes)

/-- `v` is an object that starts with the name of a column. -/
def ListsColumn (name : List UInt16) (v : Value) : Prop :=
  ∃ ms, v = .object ((codeUnits (ascii "name"), .string name) :: ms)

/-- `v` has the cells of a row under the names of the columns. -/
def ShowsRow (enc : Encoding) (api : DbApi T) (names : List (List UInt16))
    (columns : List (Column T)) (row : List (Option CString)) (v : Value) : Prop :=
  ∃ ms, v = .object ms ∧ ms.map Prod.fst = names ∧
    List.Forall₂ (fun p value => cellValue enc api p.1 p.2 = some value) (columns.zip row)
      (ms.map Prod.snd)

/-- `v` lists the columns and the rows of a result set whose texts are in an encoding. -/
def ShowsResult (enc : Encoding) (api : DbApi T) (result : ResultSet T) (v : Value) : Prop :=
  ∃ names fields rows ms,
    v = .object ((codeUnits (ascii "fields"), .array fields) ::
      (codeUnits (ascii "rows"), .array rows) :: ms) ∧
    List.Forall₂ (fun name codes => enc.units name = some codes) (columnNames 0 result.columns)
      names ∧
    List.Forall₂ ListsColumn names fields ∧
    List.Forall₂ (ShowsRow enc api names result.columns) result.rows rows

/-- The text, between braces, is JSON for the result sets.  The client library gives their
texts in the encoding `enc`. -/
def FaithfulJson (enc : Encoding) (api : DbApi T) (stale : CString) (prettyprint : Bool)
    (results : List (ResultSet T)) : Prop :=
  ∃ text sets, queryText api stale prettyprint .std results = some text ∧
    IsText .utf8 (ascii "\x7b" ++ text ++ ascii "\x7d")
      (.object [(codeUnits (ascii "data"), .array sets)]) ∧
    List.Forall₂ (ShowsResult enc api) results sets

/-! ### Texts that are written byte by byte -/

/-- A cell whose text can be read from what the string writer makes of each byte. -/
def CellReadable (enc : Encoding) (api : DbApi T) (column : Column T) (cell : Option CString) :
    Prop :=
  ∀ tmp ∈ cell, api.isQuoted column.type = true → IsBytewise enc tmp.bytes

instance (enc : Encoding) (api : DbApi T) (column : Column T) (cell : Option CString) :
    Decidable (CellReadable enc api column cell) :=
  inferInstanceAs (Decidable (∀ tmp ∈ cell, _ → _))

/-- The names of the columns and the cells can be read. -/
def ResultReadable (enc : Encoding) (api : DbApi T) (result : ResultSet T) : Prop :=
  (∀ column ∈ result.columns, IsBytewise enc column.name.bytes) ∧
    ∀ row ∈ result.rows, ∀ p ∈ result.columns.zip row, CellReadable enc api p.1 p.2

instance (enc : Encoding) (api : DbApi T) (result : ResultSet T) :
    Decidable (ResultReadable enc api result) :=
  inferInstanceAs (Decidable (_ ∧ ∀ row ∈ result.rows, _))

variable {enc : Encoding} {api : DbApi T}

theorem cellValue_toJson_iff (column : Column T) (cell : Option CString) :
    cellValue enc api column cell = some (cellMember api column cell).toJson ↔
      CellReadable enc api column cell := by
  cases cell with
  | none => exact iff_of_true rfl fun tmp htmp => by cases htmp
  | some tmp =>
    have hiff : CellReadable enc api column (some tmp) ↔
        (api.isQuoted column.type = true → IsBytewise enc tmp.bytes) := by
      simp [CellReadable]
    rw [hiff, cellValue, cellMember]
    by_cases hquoted : api.isQuoted column.type = true
    · rw [if_pos hquoted, if_pos hquoted, imp_iff_right hquoted, ← units_eq_codeUnits_iff]
      exact (Option.map_injective fun _ _ => Value.string.inj).eq_iff
        (b := some (codeUnits tmp.bytes))
    · rw [if_neg hquoted, if_neg hquoted]
      exact iff_of_true rfl fun h => absurd h hquoted

theorem columnName_isBytewise_iff (maxcolname : Int) (colname : List UInt8) :
    IsBytewise enc (columnName maxcolname colname).1 ↔ IsBytewise enc colname := by
  unfold columnName
  split
  · rename_i hunnamed
    have hname : colname = [] ∨ colname = ascii "?column?" := by
      simpa [isUnnamedColumn] using hunnamed
    have hliteral : IsBytewise .utf8 (ascii "?column?") := by decide
    refine iff_of_true (fun _ b hb => ?_) fun _ => ?_
    · have hkey : IsKey .utf8 (Decimal.decimalInt (wrapInt (maxcolname + 1))) :=
        isKey_decimalInt _
      have hplain := hkey b hb
      simp only [isPlain, decide_eq_true_eq] at hplain
      exact hplain.2.2.2 trivial
    · rcases hname with rfl | rfl
      · simp
      · exact hliteral rfl
  · split <;> rfl

theorem columnNames_isBytewise_iff (maxcolname : Int) (columns : List (Column T)) :
    (∀ name ∈ columnNames maxcolname columns, IsBytewise enc name) ↔
      ∀ column ∈ columns, IsBytewise enc column.name.bytes := by
  induction columns generalizing maxcolname with
  | nil => simp [columnNames]
  | cons column columns ih =>
    rw [columnNames, List.forall_mem_cons, List.forall_mem_cons, ih, columnName_isBytewise_iff]

/-! ### Rows -/

theorem rowMembers_keys (api : DbApi T) (maxcolname : Int)
    (cells : List (Column T × Option CString)) :
    (rowMembers api maxcolname cells).toJson.map Prod.fst =
      (columnNames maxcolname (cells.map Prod.fst)).map codeUnits := by
  induction cells generalizing maxcolname with
  | nil => rfl
  | cons p cells ih => exact congrArg (_ :: ·) (ih _)

theorem rowMembers_values (api : DbApi T) (maxcolname : Int)
    (cells : List (Column T × Option CString)) :
    (rowMembers api maxcolname cells).toJson.map Prod.snd =
      cells.map fun p => (cellMember api p.1 p.2).toJson := by
  induction cells generalizing maxcolname with
  | nil => rfl
  | cons p cells ih => exact congrArg (_ :: ·) (ih _)

/-- The tree of a row shows it if its cells can be read. -/
theorem showsRow_toJson_iff {columns : List (Column T)} {row : List (Option CString)}
    (hwidth : row.length = columns.length) :
    ShowsRow enc api ((columnNames 0 columns).map codeUnits) columns row
        (Tree.object (rowMembers api 0 (columns.zip row))).toJson ↔
      ∀ p ∈ columns.zip row, CellReadable enc api p.1 p.2 := by
  have hkeys := rowMembers_keys api 0 (columns.zip row)
  rw [List.map_fst_zip (Nat.le_of_eq hwidth.symm)] at hkeys
  have hcells : List.Forall₂ (fun p value => cellValue enc api p.1 p.2 = some value)
      (columns.zip row) ((rowMembers api 0 (columns.zip row)).toJson.map Prod.snd) ↔
        ∀ p ∈ columns.zip row, CellReadable enc api p.1 p.2 := by
    rw [rowMembers_values, List.forall₂_map_right_iff, List.forall₂_same]
    exact forall₂_congr fun p _ => cellValue_toJson_iff p.1 p.2
  constructor
  · rintro ⟨ms, hms, -, hshows⟩
    cases hms
    exact hcells.1 hshows
  · intro h
    exact ⟨_, rfl, hkeys, hcells.2 h⟩

theorem rowItems_toJson (columns : List (Column T)) (rows : List (List (Option CString))) :
    (rowItems api columns rows).toJson =
      rows.map fun row => (Tree.object (rowMembers api 0 (columns.zip row))).toJson := by
  induction rows with
  | nil => rfl
  | cons row rows ih => exact congrArg (_ :: ·) ih

/-! ### Result sets -/

theorem fieldItems_toJson (api : DbApi T) (stale : CString) (maxcolname : Int)
    (columns : List (Column T)) :
    List.Forall₂ ListsColumn ((columnNames maxcolname columns).map codeUnits)
      (fieldItems api stale maxcolname columns).toJson := by
  induction columns generalizing maxcolname with
  | nil => exact .nil
  | cons column columns ih => exact .cons ⟨_, rfl⟩ (ih _)

/-- A list of fields has one list of names. -/
theorem names_eq_of_listsColumn {names names' : List (List UInt16)} {fields : List Value}
    (h : List.Forall₂ ListsColumn names fields) (h' : List.Forall₂ ListsColumn names' fields) :
    names = names' := by
  induction h generalizing names' with
  | nil => cases h'; rfl
  | cons hname _ ih =>
    cases h' with
    | cons hname' hnames' =>
      obtain ⟨ms, rfl⟩ := hname
      obtain ⟨ms', heq⟩ := hname'
      cases heq
      rw [ih hnames']

/-- The tree of a result set shows it if its texts can be read. -/
theorem resultTree_shows_iff (stale : CString) (result : ResultSet T) :
    ShowsResult enc api result (resultTree api stale result).toJson ↔
      ResultReadable enc api result := by
  have hfields := fieldItems_toJson api stale 0 result.columns
  have hnames : List.Forall₂ (fun name codes => enc.units name = some codes)
      (columnNames 0 result.columns) ((columnNames 0 result.columns).map codeUnits) ↔
        ∀ column ∈ result.columns, IsBytewise enc column.name.bytes := by
    rw [List.forall₂_map_right_iff, List.forall₂_same, ← columnNames_isBytewise_iff 0]
    exact forall₂_congr fun name _ => units_eq_codeUnits_iff enc name
  have hrows : List.Forall₂
      (ShowsRow enc api ((columnNames 0 result.columns).map codeUnits) result.columns)
      result.rows (rowItems api result.columns result.rows).toJson ↔
        ∀ row ∈ result.rows, ∀ p ∈ result.columns.zip row, CellReadable enc api p.1 p.2 := by
    rw [rowItems_toJson, List.forall₂_map_right_iff, List.forall₂_same]
    exact forall₂_congr fun row hrow => showsRow_toJson_iff (result.width row hrow)
  constructor
  · rintro ⟨names, fields, rows, ms, hv, hunits, hlisted, hshown⟩
    cases hv
    obtain rfl := names_eq_of_listsColumn hlisted hfields
    exact ⟨hnames.1 hunits, hrows.1 hshown⟩
  · intro h
    exact ⟨_, _, _, _, rfl, hnames.2 h.1, hfields, hrows.2 h.2⟩

theorem resultItems_toJson (stale : CString) (results : List (ResultSet T)) :
    (resultItems api stale results).toJson =
      results.map fun result => (resultTree api stale result).toJson := by
  induction results with
  | nil => rfl
  | cons result results ih => exact congrArg (_ :: ·) ih

theorem resultItems_shows_iff (stale : CString) (results : List (ResultSet T)) :
    List.Forall₂ (ShowsResult enc api) results (resultItems api stale results).toJson ↔
      ∀ result ∈ results, ResultReadable enc api result := by
  rw [resultItems_toJson, List.forall₂_map_right_iff, List.forall₂_same]
  exact forall₂_congr fun result _ => resultTree_shows_iff stale result

/-! ### What reads as the result sets is well formed -/

theorem cellMember_agrees {column : Column T} {cell : Option CString} {v : Value}
    (h : cellValue enc api column cell = some v) : (cellMember api column cell).Agrees .utf8 v := by
  cases cell with
  | none => exact trivial
  | some tmp =>
    rw [cellValue] at h
    rw [cellMember]
    split at h
    · rename_i hquoted
      rw [if_pos hquoted]
      exact trivial
    · rename_i hquoted
      rw [if_neg hquoted]
      exact .inr (Option.some.inj h).symm

theorem rowMembers_agrees {maxcolname : Int} {cells : List (Column T × Option CString)}
    {ms : List (List UInt16 × Value)}
    (hkeys : ms.map Prod.fst = (columnNames maxcolname (cells.map Prod.fst)).map codeUnits)
    (hcells : List.Forall₂ (fun p value => cellValue enc api p.1 p.2 = some value) cells
      (ms.map Prod.snd)) :
    (rowMembers api maxcolname cells).Agrees .utf8 ms := by
  induction cells generalizing maxcolname ms with
  | nil => exact trivial
  | cons p cells ih =>
    cases ms with
    | nil => cases hcells
    | cons m ms =>
      obtain ⟨hkey, hkeys⟩ := List.cons.inj hkeys
      cases hcells with
      | cons hcell hcells =>
        exact .inr ⟨m.2, ms, by rw [← hkey], cellMember_agrees hcell, fun _ => ih hkeys hcells⟩

theorem rowItems_agrees {columns : List (Column T)} {rows : List (List (Option CString))}
    (hwidth : ∀ row ∈ rows, row.length = columns.length) {vs : List Value}
    (h : List.Forall₂ (ShowsRow enc api ((columnNames 0 columns).map codeUnits) columns) rows vs) :
    (rowItems api columns rows).Agrees .utf8 vs := by
  induction h with
  | nil => exact trivial
  | cons hrow _ ih =>
    obtain ⟨hlen, hwidth⟩ := List.forall_mem_cons.1 hwidth
    obtain ⟨ms, rfl, hkeys, hcells⟩ := hrow
    rw [← List.map_fst_zip (Nat.le_of_eq hlen.symm)] at hkeys
    exact .inr ⟨_, _, rfl, .inr ⟨ms, rfl, rowMembers_agrees hkeys hcells⟩, fun _ => ih hwidth⟩

/-- A value that shows a result set agrees with its tree: all but the rows is well
formed anyway, and the fields that stand before them have the names. -/
theorem resultTree_agrees {stale : CString} {result : ResultSet T} {v : Value}
    (h : ShowsResult enc api result v) : (resultTree api stale result).Agrees .utf8 v := by
  obtain ⟨names, fields, rows, ms, rfl, -, hlisted, hrows⟩ := h
  refine .inr ⟨_, rfl, .inr ⟨_, _, rfl, .inl (wellFormed_fieldItems api stale 0 result.columns),
    fun hfields => .inr ⟨_, _, rfl, .inr ⟨_, rfl, ?_⟩, fun _ =>
      .inl (wellFormed_count result.rowcount)⟩⟩⟩
  cases hfields
  obtain rfl := names_eq_of_listsColumn hlisted (fieldItems_toJson api stale 0 result.columns)
  exact rowItems_agrees result.width hrows

theorem resultItems_agrees {stale : CString} {results : List (ResultSet T)}
    {sets : List Value} (h : List.Forall₂ (ShowsResult enc api) results sets) :
    (resultItems api stale results).Agrees .utf8 sets := by
  induction h with
  | nil => exact trivial
  | cons hresult _ ih => exact .inr ⟨_, _, rfl, resultTree_agrees hresult, fun _ => ih⟩

/-- The text stands for the result sets exactly when the columns have their buffers, every
text can be read, every copy fits its buffer and every cell is printable. -/
theorem faithfulJson_iff (enc : Encoding) (api : DbApi T) (stale : CString) (prettyprint : Bool)
    (results : List (ResultSet T)) :
    FaithfulJson enc api stale prettyprint results ↔
      ∀ result ∈ results, api.Binds result ∧ ResultReadable enc api result ∧
        ∀ row ∈ result.rows, ∀ p ∈ result.columns.zip row,
          CellFits p.1 p.2 ∧ CellPrintable api p.1 p.2 := by
  have hdata : IsKey .utf8 (ascii "data") := by decide
  have htree : (Tree.array (resultItems api stale results)).WellFormed .utf8 →
      IsText .utf8 (ascii "\x7b" ++ (keyText prettyprint (ascii "data") ++
          (Tree.array (resultItems api stale results)).text prettyprint 0) ++ ascii "\x7d")
        (.object [(codeUnits (ascii "data"), .array (resultItems api stale results).toJson)]) :=
    fun hwf => isText_between hdata (Tree.derives _ hwf prettyprint 0) prettyprint
  constructor
  · intro h
    obtain ⟨text, sets, htext, hjson, hsets⟩ := h
    rw [queryText_std] at htext
    split at htext
    · rename_i hfits
      obtain rfl := Option.some.inj htext
      have hagrees : (Tree.array (resultItems api stale results)).Agrees .utf8 (.array sets) :=
        .inr ⟨sets, rfl, resultItems_agrees hsets⟩
      obtain ⟨fuel, rest, hfuel, hparse⟩ :=
        parseValue_of_isText_between (Tree.skipSpace_text _ _ _) hjson
      have hwf := Tree.wellFormed_of_parseValue _ _ _ hagrees hfuel hparse
      have hprintable := (wellFormed_resultItems_iff api stale results).1 hwf
      -- The text stands for the tree, too, so the sets are those of the tree.
      have hvalue := (parse_of_isText hjson).symm.trans (parse_of_isText (htree hwf))
      cases hvalue
      have hreadable := (resultItems_shows_iff stale results).1 hsets
      intro result hresult
      refine ⟨(hfits result hresult).1, hreadable result hresult, fun row hrow p hp => ?_⟩
      exact ⟨(hfits result hresult).2 row hrow p hp, hprintable result hresult row hrow p hp⟩
    · cases htext
  · intro h
    have hfits : ∀ result ∈ results, ResultWritable api result := fun result hresult =>
      ⟨(h result hresult).1, fun row hrow p hp => ((h result hresult).2.2 row hrow p hp).1⟩
    have hwf := (wellFormed_resultItems_iff api stale results).2
      fun result hresult row hrow p hp => ((h result hresult).2.2 row hrow p hp).2
    refine ⟨_, (resultItems api stale results).toJson, ?_, htree hwf,
      (resultItems_shows_iff stale results).2 fun result hresult => (h result hresult).2.1⟩
    rw [queryText_std, if_pos hfits]

theorem width_singleton {cell : Option CString} {column : Column T} :
    ∀ row ∈ [[cell]], row.length = [column].length := by
  intro row hrow
  rw [List.mem_singleton.1 hrow]
  rfl

/-- `select 'x' as `a"b``: one row, under a name with a quote. -/
def quoteInName : ResultSet MysqlType where
  columns := [⟨.ofBytes (ascii "a\"b"), .varString, 1, 1, 0⟩]
  rows := [[some (.ofBytes (ascii "x"))]]
  rowcount := 1
  width := width_singleton

/-- The row is `{"a"b":"x"}`. -/
theorem not_faithfulJson_quoteInName : ¬FaithfulJson .utf8 mysql .empty false [quoteInName] := by
  intro h
  obtain ⟨text, sets, htext, hjson, -⟩ := h
  have hnone : ((queryText mysql .empty false .std [quoteInName]).bind fun text =>
      parse .utf8 (ascii "\x7b" ++ text ++ ascii "\x7d")).isNone = true := by
    decide +kernel
  rw [htext, Option.bind_some, parse_of_isText hjson] at hnone
  cases hnone

/-- A timestamp is neither quoted nor a number. -/
example (name : CString) : ¬CellPrintable mysql ⟨name, .timestamp, 19, 19, 0⟩
    (some (.ofBytes (ascii "2010-01-01 00:00:00"))) := by
  intro h
  rcases h.2 _ rfl with hquoted | hnumber
  · cases hquoted
  · revert hnumber
    decide +kernel

end DbRelay
