import DbRelay.Db.Backend
import DbRelay.Json.Writer
import DbRelay.Lib.CArray

/-!
# Result sets as JSON

`dbrelay_db_fill_data` and the functions it calls for each column: one object for
each result set, with the fields, the rows and the row count.  The rows are an
array of objects, or one string of comma-separated values.

A column without a name is numbered.  The number goes on from the largest number
among the names before it, and it is computed again for each row.

`stale` is what an uninitialised buffer holds when the backend writes no name for
a type.  A copy that does not fit its buffer has no result, and neither has a result
set with more columns than `api->has_results` has buffers for.
-/

namespace DbRelay

open JsonWriter

variable {T : Type}

/-! ## Column names -/

/-- `dbrelay_is_unnamed_column`. -/
def isUnnamedColumn (colname : List UInt8) : Bool :=
  colname.isEmpty || decide (colname = ascii "?column?")

/-- `atoi`. -/
def atoi (s : List UInt8) : Int := wrapInt (Decimal.atol s)

/-- The name of a column and the new value of `maxcolname`. -/
def columnName (maxcolname : Int) (colname : List UInt8) : List UInt8 × Int :=
  if isUnnamedColumn colname then
    (Decimal.decimalInt (wrapInt (maxcolname + 1)), wrapInt (maxcolname + 1))
  else if 0 < atoi colname ∧ maxcolname < atoi colname then (colname, atoi colname)
  else (colname, maxcolname)

/-- The size of the buffer for a name. -/
def colnameSz : Nat := 256

/-- The size of the buffer for the text of a cell. -/
def cellSz (column : Column T) : Nat := max 256 column.length.toNat

/-! ## Columns -/

/-- `api->coltype`, into a buffer that holds `stale`. -/
def coltype (api : DbApi T) (stale : CString) (column : Column T) : List UInt8 :=
  (api.sqltypeString column.type column.length).getD stale.bytes

/-- A number that is left out when it is 0. -/
def addInt (key : List UInt8) (l : Int) (json : JsonWriter) : JsonWriter :=
  if l = 0 then json else json.addNumber key (Decimal.decimalInt l)

/-- `dbrelay_write_json_colinfo`. -/
def writeJsonColinfo (api : DbApi T) (stale : CString) (json : JsonWriter) (column : Column T)
    (maxcolname : Int) : JsonWriter × Int :=
  let (name, maxcolname) := columnName maxcolname column.name.bytes
  let json := json.newObject.addString (ascii "name") name
  let json := json.addString (ascii "sql_type") (coltype api stale column)
  let json := addInt (ascii "length") column.length json
  let json := addInt (ascii "precision") column.precision json
  let json := addInt (ascii "scale") column.scale json
  (json.endObject, maxcolname)

/-- `dbrelay_write_json_column_csv`. -/
def writeJsonColumnCsv (json : JsonWriter) (column : Column T) (cell : Option CString) :
    Option JsonWriter :=
  match cell with
  | none => some json
  | some tmp =>
    if tmp.bytes.length < cellSz column then
      if 44 ∈ tmp.bytes then
        some (((json.addJson (ascii "\\\"")).addJson tmp.bytes).addJson (ascii "\\\""))
      else some (json.addJson tmp.bytes)
    else none

/-- `dbrelay_write_json_column_std`. -/
def writeJsonColumnStd (api : DbApi T) (json : JsonWriter) (column : Column T)
    (colname : List UInt8) (cell : Option CString) : Option JsonWriter :=
  match cell with
  | none => some (json.addNull colname)
  | some tmp =>
    if tmp.bytes.length < cellSz column then
      if api.isQuoted column.type then some (json.addString colname tmp.bytes)
      else some (json.addNumber colname tmp.bytes)
    else none

/-- `dbrelay_write_json_column`. -/
def writeJsonColumn (api : DbApi T) (json : JsonWriter) (column : Column T)
    (cell : Option CString) (maxcolname : Int) : Option (JsonWriter × Int) :=
  let (tmpcolname, maxcolname) := columnName maxcolname column.name.bytes
  -- A named column is copied into the buffer, in both modes.
  if tmpcolname.length < colnameSz then
    match json.mode with
    | .csv => (writeJsonColumnCsv json column cell).map fun json => (json, maxcolname)
    | .std => (writeJsonColumnStd api json column tmpcolname cell).map fun json =>
        (json, maxcolname)
  else none

/-! ## Result sets -/

/-- The loop over the columns that writes the fields. -/
def writeFields (api : DbApi T) (stale : CString) (json : JsonWriter) (maxcolname : Int) :
    List (Column T) → JsonWriter
  | [] => json
  | column :: columns =>
    let (json, maxcolname) := writeJsonColinfo api stale json column maxcolname
    writeFields api stale json maxcolname columns

/-- The loop over the columns of a row. -/
def writeCells (api : DbApi T) (json : JsonWriter) (maxcolname : Int) :
    List (Column T × Option CString) → Option JsonWriter
  | [] => some json
  | (column, cell) :: cells =>
    (writeJsonColumn api json column cell maxcolname).bind fun (json, maxcolname) =>
      let json :=
        if json.mode = .csv ∧ cells ≠ [] then json.addJson (ascii ",") else json
      writeCells api json maxcolname cells

/-- A row. -/
def writeRow (api : DbApi T) (columns : List (Column T)) (json : JsonWriter)
    (row : List (Option CString)) : Option JsonWriter :=
  let json := if json.mode = .std then json.newObject else json
  (writeCells api json 0 (columns.zip row)).map fun json =>
    if json.mode = .std then json.endObject else json.addJson (ascii "\\n")

/-- The loop over the rows. -/
def writeRows (api : DbApi T) (columns : List (Column T)) (json : JsonWriter) :
    List (List (Option CString)) → Option JsonWriter
  | [] => some json
  | row :: rows =>
    (writeRow api columns json row).bind fun json => writeRows api columns json rows

/-- The member `count`. -/
def writeCount (json : JsonWriter) (rowcount : Int) : JsonWriter :=
  if rowcount = -1 then json.addNull (ascii "count")
  else json.addNumber (ascii "count") (Decimal.decimalInt rowcount)

/-- A result set. -/
def writeResult (api : DbApi T) (stale : CString) (json : JsonWriter) (result : ResultSet T) :
    Option JsonWriter :=
  let json := (json.newObject.addKey (ascii "fields")).newArray
  let json := (writeFields api stale json 0 result.columns).endArray
  let json := json.addKey (ascii "rows")
  let json := if json.mode = .std then json.newArray else json.addJson (ascii "\"")
  (writeRows api result.columns json result.rows).map fun json =>
    let json := if json.mode = .std then json.endArray else json.addJson (ascii "\",")
    (writeCount json result.rowcount).endObject

/-- The loop over the result sets. -/
def writeResults (api : DbApi T) (stale : CString) (json : JsonWriter) :
    List (ResultSet T) → Option JsonWriter
  | [] => some json
  | result :: results =>
    (writeResult api stale json result).bind fun json => writeResults api stale json results

/-- `dbrelay_db_fill_data`. -/
def dbFillData (api : DbApi T) (stale : CString) (json : JsonWriter)
    (results : List (ResultSet T)) : Option JsonWriter :=
  (writeResults api stale (json.addKey (ascii "data")).newArray results).map
    JsonWriter.endArray

/-- The text that `dbrelay_exec_query` returns when the batch runs. -/
def queryText (api : DbApi T) (stale : CString) (prettyprint : Bool) (mode : JsonMode)
    (results : List (ResultSet T)) : Option (List UInt8) :=
  if ∀ result ∈ results, api.Binds result then
    (dbFillData api stale ((JsonWriter.new prettyprint).setMode mode) results).map
      JsonWriter.toString
  else none

end DbRelay
