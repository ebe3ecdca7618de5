import DbRelay.Types
import Mathlib.Data.List.FinRange

/-!
# The operations on the connection table

The functions of `db.c` and `admin.c` that read or write connection records.
Each of them runs between `dbrelay_time_get_shmem` and
`dbrelay_time_release_shmem`, so the system of `DbRelay.Pool.System` takes
each as one step.

A function that may call `api->close` returns the handles that it closed,
next to the new record.

There are three groups.

* One record: `dbMatch`, `dbPopulateConnection`, `dbZeroConnection`,
  `dbCloseConnection` and `dbFreeConnection`.
* The scans: `firstFree`, `dbFindSlot` and `adminFindSlot`.
* The reaper: `reapConnection` is the loop body of
  `dbrelay_db_close_connections`.
-/

namespace DbRelay

variable {W : Type}

/-! ## One record -/

/-- `match` of `db.c`: equal strings, where two empty ones are equal. -/
def matchString {size : Nat} (s1 s2 : CharBuf size) : Bool :=
  if !s1.isSet && !s2.isSet then true
  else decide (s1.bytes = s2.bytes)

/-- `dbrelay_db_match`. -/
def dbMatch (conn : Connection W) (request : Request) : Bool :=
  matchString conn.sqlServer request.sqlServer &&
  matchString conn.sqlPort request.sqlPort &&
  matchString conn.sqlDatabase request.sqlDatabase &&
  matchString conn.sqlUser request.sqlUser &&
  matchString conn.sqlPassword request.sqlPassword &&
  matchString conn.connectionName request.connectionName

/-- The path that `dbrelay_db_populate_connection` gives the record of a named
request: the explicit one, else the answer of `tmpnam`.  An explicit path of
more than 100 bytes has no result. -/
def newSockPath (request : Request) (tmpnam : Option SockPath) :
    Option (Option SockPath) :=
  if request.named then
    if request.sockPath.isSet then request.sockPath.strcpy.map some else some tmpnam
  else some none

/-- The explicit path of the request fits a record. -/
def Request.PathFits (request : Request) : Prop := request.sockPath.bytes.length < nameSz

instance (request : Request) : Decidable request.PathFits :=
  inferInstanceAs (Decidable (_ < _))

/-- `dbrelay_db_populate_connection`, with the path of `newSockPath`.  It also
returns the request, whose timeout it sets when there is none.

The source copies a field only when it is set.  The record was zeroed before,
so an unset field ends up empty on both sides.  When `tmpnam` fails the
function returns before `pid` and `in_use` are set. -/
def dbPopulateConnection (request : Request) (db : Option Handle)
    (path : Option SockPath) (now : Int) (pid : W) :
    Request × Connection W :=
  let request :=
    if request.connectionTimeout = 0 then { request with connectionTimeout := 60 }
    else request
  let conn : Connection W :=
    { sqlServer := request.sqlServer
      sqlPort := request.sqlPort
      sqlUser := request.sqlUser
      sqlPassword := request.sqlPassword
      sqlDatabase := request.sqlDatabase
      connectionName := request.connectionName
      connectionTimeout := request.connectionTimeout }
  if request.named then
    match path with
    | none => (request, conn)
    | some path =>
      (request,
        { conn with
          sockPath := path
          tmCreate := now
          tmAccessed := now
          inUse := conn.inUse + 1
          pid := some pid })
  else
    (request,
      { conn with
        db := db
        tmCreate := now
        tmAccessed := now
        inUse := conn.inUse + 1
        pid := some pid })

/-- The path on which `dbrelay_db_populate_connection` launches a connector. -/
def launchPath (request : Request) (path : Option SockPath) : Option SockPath :=
  if request.named && !request.sockPath.isSet then path else none

/-- `dbrelay_db_zero_connection`.  The path, the helper, the times and `db`
stay as they are. -/
def dbZeroConnection (conn : Connection W) : Connection W :=
  { conn with
    pid := none
    sqlServer := .empty
    sqlUser := .empty
    sqlDatabase := .empty
    sqlPort := .empty
    sqlPassword := .empty
    connectionName := .empty
    inUse := 0 }

/-- `dbrelay_db_close_connection`. -/
def dbCloseConnection (conn : Connection W) : Connection W × List Handle :=
  (dbZeroConnection conn, conn.db.toList)

/-- `dbrelay_db_free_connection`. -/
def dbFreeConnection (conn : Connection W) : Connection W × List Handle :=
  let conn := { conn with inUse := conn.inUse - 1 }
  if conn.connectionName.isSet then (conn, []) else dbCloseConnection conn

/-! ## The scans -/

/-- The first slot with `pid == 0`, the scan of `dbrelay_db_alloc_connection`. -/
def firstFree (connections : Table W) : Option Slot :=
  (List.finRange maxConn).find? fun i => (connections i).pid.isNone

/-- The scan of `dbrelay_db_find_connection`: the first occupied slot that
matches the request. -/
def dbFindSlot (connections : Table W) (request : Request) : Option Slot :=
  (List.finRange maxConn).find? fun i =>
    (connections i).pid.isSome && dbMatch (connections i) request

/-- What `dbrelay_db_find_connection` does to the record that it found. -/
def touchConnection (conn : Connection W) (now : Int) : Connection W :=
  { conn with inUse := conn.inUse + 1, tmAccessed := now }

/-- The scan of `dbrelay_admin_kill`, which does not stop at a match: the last
occupied slot with the path. -/
def adminFindSlot (connections : Table W) (sockPath : CString) : Option Slot :=
  (List.finRange maxConn).reverse.find? fun i =>
    (connections i).pid.isSome && decide ((connections i).sockPath.bytes = sockPath.bytes)

/-! ## The reaper -/

/-- `conn->tm_accessed + DBRELAY_HARD_TIMEOUT < now`. -/
def hardExpired (conn : Connection W) (now : Int) : Bool :=
  decide (addLong conn.tmAccessed hardTimeout < now)

/-- `conn->tm_accessed + conn->connection_timeout < now`. -/
def idleExpired (conn : Connection W) (now : Int) : Bool :=
  decide (addLong conn.tmAccessed conn.connectionTimeout.toInt < now)

/-- The record of an unnamed connection whose worker is dead. -/
def orphaned (alive : W → Bool) (conn : Connection W) : Bool :=
  match conn.pid with
  | none => false
  | some pid => !conn.connectionName.isSet && !alive pid

/-- The loop body of `dbrelay_db_close_connections`.  `alive` is the answer
of `kill(pid, 0)`. -/
def reapConnection (alive : W → Bool) (now : Int) (conn : Connection W) :
    Connection W × List Handle :=
  let conn := if orphaned alive conn then dbZeroConnection conn else conn
  if conn.pid.isNone then (conn, [])
  else if hardExpired conn now then dbCloseConnection conn
  else if conn.inUse ≠ 0 then (conn, [])
  else if idleExpired conn now then dbCloseConnection conn
  else (conn, [])

/-! ## Matching -/

@[simp] theorem matchString_iff {size : Nat} {s1 s2 : CharBuf size} :
    matchString s1 s2 = true ↔ s1 = s2 := by
  rw [matchString]
  split
  · rename_i h
    have hempty : s1.bytes = [] ∧ s2.bytes = [] := by
      simpa [CharBuf.isSet] using h
    simpa using CharBuf.ext' (hempty.1.trans hempty.2.symm)
  · rw [decide_eq_true_iff]
    exact ⟨CharBuf.ext', fun h => h ▸ rfl⟩

/-- A match is equality of the six fields. -/
theorem dbMatch_iff {conn : Connection W} {request : Request} :
    dbMatch conn request = true ↔
      conn.sqlServer = request.sqlServer ∧ conn.sqlPort = request.sqlPort ∧
      conn.sqlDatabase = request.sqlDatabase ∧ conn.sqlUser = request.sqlUser ∧
      conn.sqlPassword = request.sqlPassword ∧
      conn.connectionName = request.connectionName := by
  simp [dbMatch, and_assoc]

/-- A record that matches a named request is named. -/
theorem named_of_dbMatch {conn : Connection W} {request : Request}
    (h : dbMatch conn request = true) :
    conn.connectionName.isSet = request.named := by
  rw [Request.named, (dbMatch_iff.1 h).2.2.2.2.2]

/-- Both records are the same connection: what a request that holds the slot
relies on is equal. -/
structure Keeps (conn conn' : Connection W) : Prop where
  pid : conn'.pid = conn.pid
  key : ∀ request, dbMatch conn' request = dbMatch conn request
  sockPath : conn'.sockPath = conn.sockPath

theorem Keeps.refl (conn : Connection W) : Keeps conn conn :=
  ⟨rfl, fun _ => rfl, rfl⟩

/-- The request that asks for exactly this connection. -/
def Connection.key (conn : Connection W) : Request :=
  { sqlServer := conn.sqlServer
    sqlPort := conn.sqlPort
    sqlDatabase := conn.sqlDatabase
    sqlUser := conn.sqlUser
    sqlPassword := conn.sqlPassword
    connectionName := conn.connectionName }

theorem dbMatch_key (conn : Connection W) : dbMatch conn conn.key = true :=
  dbMatch_iff.2 ⟨rfl, rfl, rfl, rfl, rfl, rfl⟩

/-- Two records that match the same request are for the same connection. -/
theorem key_eq_of_dbMatch {conn conn' : Connection W} {request : Request}
    (h : dbMatch conn request = true) (h' : dbMatch conn' request = true) :
    conn.key = conn'.key := by
  obtain ⟨h₁, h₂, h₃, h₄, h₅, h₆⟩ := dbMatch_iff.1 h
  obtain ⟨h₁', h₂', h₃', h₄', h₅', h₆'⟩ := dbMatch_iff.1 h'
  unfold Connection.key
  rw [h₁, h₂, h₃, h₄, h₅, h₆, h₁', h₂', h₃', h₄', h₅', h₆']

/-- A match depends on the key only. -/
theorem dbMatch_of_key_eq {conn conn' : Connection W} {request : Request}
    (hkey : conn.key = conn'.key) (h : dbMatch conn request = true) :
    dbMatch conn' request = true := by
  have hmatch : dbMatch conn' conn.key = true := hkey ▸ dbMatch_key conn'
  obtain ⟨h₁, h₂, h₃, h₄, h₅, h₆⟩ := dbMatch_iff.1 hmatch
  rw [dbMatch_iff] at h ⊢
  rwa [h₁, h₂, h₃, h₄, h₅, h₆]

theorem Keeps.named {conn conn' : Connection W} (h : Keeps conn conn') :
    conn'.connectionName = conn.connectionName := by
  have hmatch : dbMatch conn' conn.key = true := (h.key _).trans (dbMatch_key conn)
  exact (dbMatch_iff.1 hmatch).2.2.2.2.2

/-! ## The scans -/

theorem firstFree_some {connections : Table W} {i : Slot}
    (h : firstFree connections = some i) : (connections i).pid = none := by
  simpa using List.find?_some h

theorem dbFindSlot_some {connections : Table W} {request : Request} {i : Slot}
    (h : dbFindSlot connections request = some i) :
    (connections i).pid ≠ none ∧ dbMatch (connections i) request = true := by
  have hp := List.find?_some h
  simpa [Option.isSome_iff_ne_none] using hp

theorem dbFindSlot_none {connections : Table W} {request : Request} :
    dbFindSlot connections request = none ↔
      ∀ i, (connections i).pid ≠ none → dbMatch (connections i) request = false := by
  simp [dbFindSlot, List.find?_eq_none, Option.isSome_iff_ne_none]

/-! ## A populated record -/

theorem newSockPath_unnamed {request : Request} (h : request.named = false)
    (tmpnam : Option SockPath) : newSockPath request tmpnam = some none := by
  rw [newSockPath, h]
  rfl

/-- There is a path, or the answer that there is none, if the explicit one fits. -/
theorem exists_newSockPath {request : Request} (h : request.PathFits)
    (tmpnam : Option SockPath) : ∃ path, newSockPath request tmpnam = some path := by
  have hlt : request.sockPath.bytes.length < nameSz := h
  rw [newSockPath, CharBuf.strcpy, dif_pos hlt]
  split
  · split
    · exact ⟨_, rfl⟩
    · exact ⟨_, rfl⟩
  · exact ⟨_, rfl⟩

section Populate

variable (request : Request) (db : Option Handle) (path : Option SockPath)
  (now : Int) (pid : W)

/-- The timeout is all that changes in the request. -/
theorem dbPopulateConnection_request :
    ∃ timeout, (dbPopulateConnection request db path now pid).1 =
      { request with connectionTimeout := timeout } := by
  cases path <;> simp only [dbPopulateConnection] <;> split <;> split <;> exact ⟨_, rfl⟩

theorem pathFits_populate (h : request.PathFits) :
    (dbPopulateConnection request db path now pid).1.PathFits := by
  obtain ⟨timeout, heq⟩ := dbPopulateConnection_request request db path now pid
  rw [heq]
  exact h

theorem named_populate :
    (dbPopulateConnection request db path now pid).1.named = request.named := by
  obtain ⟨timeout, h⟩ := dbPopulateConnection_request request db path now pid
  rw [h]
  rfl

theorem dbMatch_populate_request (conn : Connection W) :
    dbMatch conn (dbPopulateConnection request db path now pid).1 =
      dbMatch conn request := by
  obtain ⟨timeout, h⟩ := dbPopulateConnection_request request db path now pid
  rw [h]
  rfl

/-- The record matches the request that it was filled in for. -/
theorem dbMatch_populate :
    dbMatch (dbPopulateConnection request db path now pid).2 request = true := by
  rw [dbMatch_iff]
  cases path <;> simp only [dbPopulateConnection] <;> split <;> split <;>
    exact ⟨rfl, rfl, rfl, rfl, rfl, rfl⟩

/-- A record without a path is not marked as taken. -/
theorem dbPopulateConnection_pid_none (hnamed : request.named = true) :
    (dbPopulateConnection request db none now pid).2.pid = none := by
  unfold dbPopulateConnection
  split <;> simp_all [Request.named]

/-- A record that is marked as taken: one user, a path or a handle. -/
theorem dbPopulateConnection_taken (h : request.named = true → path ≠ none) :
    (dbPopulateConnection request db path now pid).2.pid = some pid ∧
    (dbPopulateConnection request db path now pid).2.inUse = 1 ∧
    (dbPopulateConnection request db path now pid).2.db =
      (if request.named then none else db) ∧
    (request.named = true → path =
      some (dbPopulateConnection request db path now pid).2.sockPath) := by
  cases path <;> simp only [dbPopulateConnection] <;> split <;> cases hnamed : request.named <;>
    simp_all [Request.named]

end Populate

/-! ## A record that is given back -/

/-- A named record stays in the table when a request gives it back. -/
theorem dbFreeConnection_named {conn : Connection W}
    (h : conn.connectionName.isSet = true) (now : Int) :
    Keeps conn (dbFreeConnection { conn with tmAccessed := now }).1 ∧
      (dbFreeConnection { conn with tmAccessed := now }).1.inUse = conn.inUse - 1 := by
  have hfree : (dbFreeConnection { conn with tmAccessed := now }).1 =
      { conn with tmAccessed := now, inUse := conn.inUse - 1 } := by
    simp [dbFreeConnection, h]
  rw [hfree]
  exact ⟨⟨rfl, fun _ => rfl, rfl⟩, rfl⟩

/-- An unnamed record is closed. -/
theorem dbFreeConnection_unnamed {conn : Connection W}
    (h : conn.connectionName.isSet = false) (now : Int) :
    (dbFreeConnection { conn with tmAccessed := now }).1.pid = none ∧
      (dbFreeConnection { conn with tmAccessed := now }).2 = conn.db.toList := by
  simp [dbFreeConnection, dbCloseConnection, dbZeroConnection, h]

/-! ## A reaped record -/

/-- The reaper leaves a record alone that is in use, belongs to a live worker
and has not passed the hard timeout. -/
theorem reapConnection_eq_self {alive : W → Bool} {now : Int} {conn : Connection W}
    (horphaned : orphaned alive conn = false) (hhard : hardExpired conn now = false)
    (hinUse : conn.inUse ≠ 0) : reapConnection alive now conn = (conn, []) := by
  rw [reapConnection]
  simp [horphaned, hhard, hinUse]

/-- A record that the reaper leaves occupied is unchanged. -/
theorem reapConnection_of_pid {alive : W → Bool} {now : Int} {conn : Connection W}
    (h : (reapConnection alive now conn).1.pid ≠ none) :
    reapConnection alive now conn = (conn, []) := by
  have hzero : ∀ c : Connection W, (dbZeroConnection c).pid = none := fun _ => rfl
  rw [reapConnection] at h ⊢
  by_cases horphaned : orphaned alive conn = true
  · simp [horphaned, hzero] at h
  · simp only [horphaned, Bool.false_eq_true, ↓reduceIte] at h ⊢
    split_ifs at h ⊢ <;>
      first
        | rfl
        | exact absurd (hzero conn) h

/-- The slot of a dead worker is freed, and its handle is left alone. -/
theorem reapConnection_orphaned {alive : W → Bool} {now : Int} {conn : Connection W}
    (h : orphaned alive conn = true) : (reapConnection alive now conn).2 = [] := by
  rw [reapConnection]
  simp [h, dbZeroConnection]

/-- A record without a handle closes none. -/
theorem reapConnection_closes_none {alive : W → Bool} {now : Int} {conn : Connection W}
    (h : conn.db = none) : (reapConnection alive now conn).2 = [] := by
  rw [reapConnection]
  split <;> split_ifs <;> simp [dbCloseConnection, dbZeroConnection, h]

end DbRelay
