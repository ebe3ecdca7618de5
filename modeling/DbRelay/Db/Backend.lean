import DbRelay.Lib.CArray
import DbRelay.Lib.CString

/-!
# Backends and their result sets

The part of a backend that the writer of result sets asks: which column types it
quotes, what it calls them, and the result sets that a batch delivers.

A `DbApi T` is a table over the column types `T` of a client library.  The three
tables of the source follow it, with the types that their `switch` statements
name.
-/

namespace DbRelay

/-! ## Columns and type tables -/

/-- What the backend says about a column.  A missing name is an empty one. -/
structure Column (T : Type) where
  name : CString
  type : T
  length : Int
  precision : Int
  scale : Int
  deriving DecidableEq, Repr

/-- `api->is_quoted` and `api->coltype`, as functions of the column type.  The
name of a type may depend on the length; `none` leaves the buffer as it is. -/
structure DbApi (T : Type) where
  isQuoted : T → Bool
  sqltypeString : T → Int → Option (List UInt8)
  /-- `api->has_results` has a buffer for each of these columns, if it uses any. -/
  binds : List (Column T) → Bool := fun _ => true

inductive MysqlType
  | varchar | string | varString | blob | longBlob | tinyBlob | mediumBlob
  | date | newdate | time | datetime | decimal | newdecimal | tiny | short | long
  | float | double | null | timestamp | longlong | int24 | year | bit | enum | set
  | geometry
  deriving DecidableEq, Repr

/-- `dbrelay_mysql_is_quoted`. -/
def MysqlType.isQuoted : MysqlType → Bool
  | .varchar | .varString | .date | .time | .datetime | .blob | .string | .longBlob
  | .tinyBlob | .newdate | .mediumBlob => true
  | _ => false

/-- `dbrelay_mysql_get_sqltype_string`. -/
def MysqlType.sqltypeString : MysqlType → List UInt8
  | .varchar | .string | .varString => ascii "varchar"
  | .blob | .longBlob | .tinyBlob | .mediumBlob => ascii "blob"
  | .date | .newdate => ascii "date"
  | .time => ascii "time"
  | .datetime => ascii "datetime"
  | .decimal | .newdecimal => ascii "decimal"
  | .tiny => ascii "tinyint"
  | .short => ascii "shortint"
  | .long => ascii "longint"
  | .float => ascii "float"
  | .double => ascii "double"
  | .null => ascii "null"
  | .timestamp => ascii "timestamp"
  | .longlong => ascii "longlong"
  | .int24 => ascii "int24"
  | .year => ascii "year"
  | .bit => ascii "bit"
  | .enum => ascii "enum"
  | .set => ascii "enum"
  | .geometry => ascii "geometry"

def mysql : DbApi MysqlType where
  isQuoted := MysqlType.isQuoted
  sqltypeString type _ := some type.sqltypeString

inductive SybType
  | varchar | char | int4 | int2 | int1 | intn | flt8 | real | fltn | money | money4
  | image | text | bit | datetime4 | datetime | datetimn | numeric | decimal | unique
  | binary | varbinary
  deriving DecidableEq, Repr

/-- `dbrelay_mssql_is_quoted`. -/
def SybType.isQuoted : SybType → Bool
  | .varchar | .char | .text | .datetimn | .datetime | .datetime4 | .binary
  | .varbinary | .unique => true
  | _ => false

/-- `dbrelay_mssql_get_sqltype_string`. -/
def SybType.sqltypeString : SybType → Int → Option (List UInt8)
  | .varchar, _ => some (ascii "varchar")
  | .char, _ => some (ascii "char")
  | .int4, collen | .int2, collen | .int1, collen | .intn, collen =>
    if collen = 1 then some (ascii "tinyint")
    else if collen = 2 then some (ascii "smallint")
    else if collen = 4 then some (ascii "int")
    else none
  | .flt8, collen | .real, collen | .fltn, collen =>
    if collen = 4 then some (ascii "real")
    else if collen = 8 then some (ascii "float")
    else none
  | .money, _ => some (ascii "money")
  | .money4, _ => some (ascii "smallmoney")
  | .image, _ => some (ascii "image")
  | .text, _ => some (ascii "text")
  | .bit, _ => some (ascii "bit")
  | .datetime4, collen | .datetime, collen | .datetimn, collen =>
    if collen = 4 then some (ascii "smalldatetime")
    else if collen = 8 then some (ascii "datetime")
    else none
  | .numeric, _ => some (ascii "numeric")
  | .decimal, _ => some (ascii "decimal")
  | .unique, _ => some (ascii "guid")
  | .binary, _ => some (ascii "binary")
  | .varbinary, _ => some (ascii "varbinary")

/-- `MSSQL_MAX_COLUMNS`. -/
abbrev Mssql.maxColumns : Nat := 256

/-- The size of the buffer that `dbrelay_mssql_has_results` binds.  The sum is an `int`. -/
def bindSz (colsize : Int) : Int := if 256 < colsize then wrapInt (colsize + 1) else 256

/-- The columns that the loop over `colval` has room for, with sizes that `malloc` takes. -/
def Mssql.Binds {T : Type} (columns : List (Column T)) : Prop :=
  columns.length ≤ maxColumns ∧ ∀ column ∈ columns, 0 < bindSz column.length

instance {T : Type} (columns : List (Column T)) : Decidable (Mssql.Binds columns) :=
  inferInstanceAs (Decidable (_ ∧ ∀ column ∈ columns, _))

def mssql : DbApi SybType where
  isQuoted := SybType.isQuoted
  sqltypeString := SybType.sqltypeString
  binds columns := decide (Mssql.Binds columns)

inductive OdbcType
  | char | varchar | longvarchar | wchar | wvarchar | wlongvarchar | date | time
  | timestamp | decimal | numeric | smallint | integer | real | float | double | bit
  | tinyint | bigint | binary | varbinary | longvarbinary
  deriving DecidableEq, Repr

/-- `dbrelay_odbc_is_quoted`. -/
def OdbcType.isQuoted : OdbcType → Bool
  | .char | .varchar | .longvarchar | .wchar | .wvarchar | .wlongvarchar | .date | .time
  | .timestamp => true
  | _ => false

/-- `dbrelay_odbc_get_sqltype_string`. -/
def OdbcType.sqltypeString : OdbcType → List UInt8
  | .char => ascii "char"
  | .varchar | .longvarchar => ascii "varchar"
  | .wchar => ascii "wchar"
  | .wvarchar | .wlongvarchar => ascii "wvarchar"
  | .date => ascii "date"
  | .time => ascii "time"
  | .timestamp => ascii "timestamp"
  | .decimal => ascii "decimal"
  | .numeric => ascii "numeric"
  | .smallint => ascii "smallint"
  | .integer => ascii "integer"
  | .real => ascii "real"
  | .float => ascii "float"
  | .double => ascii "double"
  | .bit => ascii "bit"
  | .tinyint => ascii "tinyint"
  | .bigint => ascii "bigint"
  | .binary => ascii "binary"
  | .varbinary | .longvarbinary => ascii "varbinary"

def odbc : DbApi OdbcType where
  isQuoted := OdbcType.isQuoted
  sqltypeString type _ := some type.sqltypeString

/-! ## Result sets -/

/-- A result set.  A cell is its text, or `none` for `NULL`; the row count is -1
when the backend does not know it. -/
structure ResultSet (T : Type) where
  columns : List (Column T)
  rows : List (List (Option CString))
  rowcount : Int
  /-- A row has a cell for each column. -/
  width : ∀ row ∈ rows, row.length = columns.length

/-- The backend has a buffer for each column. -/
def DbApi.Binds {T : Type} (api : DbApi T) (result : ResultSet T) : Prop :=
  api.binds result.columns = true

instance {T : Type} (api : DbApi T) (result : ResultSet T) : Decidable (api.Binds result) :=
  inferInstanceAs (Decidable (_ = true))

end DbRelay
