import DbRelay.Lib.CString

/-!
# Requests and connection records

The constants and the two records of `dbrelay.h`.  A request lives in one
worker.  A connection record lives in the table of shared memory, which every
worker reads and writes.

The character arrays are `CharBuf`s of the declared sizes.  `sock_path` has
room for 255 bytes in a request and for 100 in a record, and the copy between
them is not bounded by the code.

Processes are named by the type `W`, so `pid : Option W` is a `pid_t` whose
`none` is the `0` of a free slot.
-/

namespace DbRelay

/-! ## Constants -/

def maxConn : Nat := 1000
def maxParams : Nat := 100
def objSz : Nat := 31
def nameSz : Nat := 101
def socketBufsize : Nat := 4096

/-- The size of `sql_port`. -/
def portSz : Nat := 6

/-- The size of `sock_path` in a request. -/
def sockPathSz : Nat := 256

theorem maxParams_pos : 0 < maxParams := Nat.zero_lt_succ _

instance : NeZero objSz := ⟨by decide⟩
instance : NeZero nameSz := ⟨by decide⟩
instance : NeZero portSz := ⟨by decide⟩
instance : NeZero sockPathSz := ⟨by decide⟩
instance : NeZero socketBufsize := ⟨by decide⟩

/-- `DBRELAY_HARD_TIMEOUT`, in seconds. -/
def hardTimeout : Int := 28800

def flagEchosql : UInt64 := 0x01
def flagPp : UInt64 := 0x02
def flagXact : UInt64 := 0x04
def flagEmbedcsv : UInt64 := 0x08
def flagNomagic : UInt64 := 0x10

/-- A sum of two `long`s.  It wraps at 64 bits. -/
def addLong (a b : Int) : Int := (a + b).bmod (2 ^ 64)

/-! ## The request -/

/-- `dbrelay_request_t`.  The default of every field is what the `memset` of
`dbrelay_alloc_request` leaves there. -/
structure Request where
  sqlServer : CharBuf nameSz := .empty
  sqlPort : CharBuf portSz := .empty
  sqlDatabase : CharBuf objSz := .empty
  sqlUser : CharBuf objSz := .empty
  sqlPassword : CharBuf objSz := .empty
  /-- `none` is the `NULL` pointer. -/
  sql : Option CString := none
  queryTag : CharBuf nameSz := .empty
  connectionName : CharBuf nameSz := .empty
  connectionTimeout : Int64 := 0
  /-- `none` is a `NULL` entry of the array. -/
  params : Vector (Option CString) maxParams := .replicate maxParams none
  /-- The path that the `-S` option of the command line sets. -/
  sockPath : CharBuf sockPathSz := .empty
  flags : UInt64 := 0
  jsCallback : CharBuf nameSz := .empty
  jsError : CharBuf nameSz := .empty
  deriving DecidableEq, Repr

/-- `dbrelay_alloc_request`. -/
def allocRequest : Request := { connectionTimeout := 60 }

/-- A request with a non-empty `connection_name` is served by a connector, and
any other one by the worker itself. -/
def Request.named (request : Request) : Bool := request.connectionName.isSet

/-! ## The connection record -/

/-- A database handle, the `void *` that `api->connect` returns.  Handles of
different calls are different. -/
abbrev Handle := Nat

/-- The path of a connector's socket, as a connection record keeps it. -/
abbrev SockPath := CharBuf nameSz

/-- `dbrelay_connection_t`. -/
structure Connection (W : Type) where
  sqlServer : CharBuf nameSz := .empty
  sqlPort : CharBuf portSz := .empty
  sqlDatabase : CharBuf objSz := .empty
  sqlUser : CharBuf objSz := .empty
  sqlPassword : CharBuf objSz := .empty
  connectionName : CharBuf nameSz := .empty
  connectionTimeout : Int64 := 0
  tmCreate : Int := 0
  tmAccessed : Int := 0
  inUse : UInt32 := 0
  slot : Nat := 0
  pid : Option W := none
  helperPid : Nat := 0
  sockPath : SockPath := .empty
  db : Option Handle := none
  deriving DecidableEq, Repr

/-- A slot of the table. -/
abbrev Slot := Fin maxConn

/-- The table of shared memory. -/
abbrev Table (W : Type) := Slot → Connection W

end DbRelay
