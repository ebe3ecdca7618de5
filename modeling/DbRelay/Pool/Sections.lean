import DbRelay.Lib.CriticalSection
import DbRelay.Pool.Table

/-!
# The critical sections of the connection table

`dbrelay_time_get_shmem` takes a semaphore, and `dbrelay_time_release_shmem` gives it
back.  Each code between the two is here a `Code` on the table: an access looks at one
record, or assigns one field of it, in the order of the source.  A call that the
section makes on the way is answered by `Answers`.

The functions of `DbRelay.Pool.Table` take each section as one step.  The `finish`
lemmas say that they are the sections without a break.

`Moves` says what a single access may do to a record that others can see, and the
`always` lemmas that every access of every section is one.  A record is free while
it is filled in, because its `pid` is assigned last, and it is freed first when it is
cleared.  So the two hold also for the accesses before a crash.
-/

namespace DbRelay.Pool

open Function CriticalSection

variable {W : Type}

/-! ## The code -/

/-- What a section asks the environment during an access. -/
structure Answers (W : Type) where
  /-- `time(NULL)` -/
  now : Int
  /-- `kill(pid, 0) == 0` -/
  alive : W → Bool

/-- What a section hands on to the code after it. -/
inductive Outcome (W : Type)
  | slot (slot : Option Slot)
  | copied (conn : Connection W)
  /-- The handles that `api->close` was called on. -/
  | closed (handles : List Handle)
  | helper (found : Option (Slot × Nat))

abbrev TableCode (W : Type) := Code (Table W) (Answers W) (Outcome W)

/-- An assignment to the record of slot `i`. -/
def assign (i : Slot) (f : Answers W → Connection W → Connection W) (next : TableCode W) :
    TableCode W :=
  .put (fun x connections => update connections i (f x (connections i))) next

/-- An assignment that the source makes under a condition on the request. -/
def assignIf (p : Bool) (i : Slot) (f : Connection W → Connection W) (next : TableCode W) :
    TableCode W :=
  if p then assign i (fun _ => f) next else next

/-- A look at the record of slot `i`. -/
def examine (i : Slot) (next : Answers W → Connection W → TableCode W) : TableCode W :=
  .look fun x connections => next x (connections i)

/-- The loop of `dbrelay_db_find_connection`. -/
def findLoop (request : Request) : List Slot → TableCode W
  | [] => .done (.slot none)
  | i :: is =>
    examine i fun _ conn =>
      if conn.pid.isSome && dbMatch conn request then
        assign i (fun _ conn => { conn with inUse := conn.inUse + 1 }) <|
        assign i (fun x conn => { conn with tmAccessed := x.now }) <|
        .done (.slot (some i))
      else findLoop request is

/-- `dbrelay_db_find_connection`. -/
def findCode (request : Request) : TableCode W := findLoop request (List.finRange maxConn)

/-- The end of `dbrelay_db_populate_connection`, which marks the record as taken, and
the assignment that `dbrelay_db_alloc_connection` makes after it. -/
def takeCode (w : W) (i : Slot) : TableCode W :=
  assign i (fun x conn => { conn with tmCreate := x.now }) <|
  assign i (fun x conn => { conn with tmAccessed := x.now }) <|
  assign i (fun _ conn => { conn with inUse := conn.inUse + 1 }) <|
  assign i (fun _ conn => { conn with pid := some w }) <|
  assign i (fun _ conn => { conn with slot := i }) <|
  .done (.slot (some i))

/-- `dbrelay_db_populate_connection` on slot `i`.  The copy of a string is one access. -/
def populateCode (w : W) (request : Request) (db : Option Handle) (path : Option SockPath)
    (i : Slot) : TableCode W :=
  assign i (fun _ _ => {}) <|
  assignIf request.sqlServer.isSet i
    (fun conn => { conn with sqlServer := request.sqlServer }) <|
  assignIf request.sqlPort.isSet i (fun conn => { conn with sqlPort := request.sqlPort }) <|
  assignIf request.sqlUser.isSet i (fun conn => { conn with sqlUser := request.sqlUser }) <|
  assignIf request.sqlPassword.isSet i
    (fun conn => { conn with sqlPassword := request.sqlPassword }) <|
  assignIf request.sqlDatabase.isSet i
    (fun conn => { conn with sqlDatabase := request.sqlDatabase }) <|
  assignIf request.connectionName.isSet i
    (fun conn => { conn with connectionName := request.connectionName }) <|
  assign i (fun _ conn =>
    { conn with connectionTimeout :=
        if request.connectionTimeout = 0 then 60 else request.connectionTimeout }) <|
  if request.named then
    match path with
    | none => assign i (fun _ conn => { conn with slot := i }) <| .done (.slot (some i))
    | some path => assign i (fun _ conn => { conn with sockPath := path }) <| takeCode w i
  else assign i (fun _ conn => { conn with db := db }) <| takeCode w i

/-- The loop of `dbrelay_db_alloc_connection`, and what follows it. -/
def allocLoop (w : W) (request : Request) (db : Option Handle) (path : Option SockPath) :
    List Slot → TableCode W
  | [] => .done (.slot none)
  | i :: is =>
    examine i fun _ conn =>
      if conn.pid.isNone then populateCode w request db path i
      else allocLoop w request db path is

/-- `dbrelay_db_alloc_connection`. -/
def allocCode (w : W) (request : Request) (db : Option Handle) (path : Option SockPath) :
    TableCode W :=
  allocLoop w request db path (List.finRange maxConn)

/-- `dbrelay_db_zero_connection` on slot `i`. -/
def zeroCode (i : Slot) (next : TableCode W) : TableCode W :=
  assign i (fun _ conn => { conn with pid := none }) <|
  assign i (fun _ conn => { conn with sqlServer := .empty }) <|
  assign i (fun _ conn => { conn with sqlUser := .empty }) <|
  assign i (fun _ conn => { conn with sqlDatabase := .empty }) <|
  assign i (fun _ conn => { conn with sqlPort := .empty }) <|
  assign i (fun _ conn => { conn with sqlPassword := .empty }) <|
  assign i (fun _ conn => { conn with connectionName := .empty }) <|
  assign i (fun _ conn => { conn with inUse := 0 }) next

/-- `dbrelay_db_close_connection` on slot `i`. -/
def closeCode (i : Slot) (next : List Handle → TableCode W) : TableCode W :=
  examine i fun _ conn => zeroCode i (next conn.db.toList)

/-- The loop body of `dbrelay_db_close_connections` after the test for a dead worker. -/
def expireCode (now : Int) (i : Slot) (next : List Handle → TableCode W) : TableCode W :=
  examine i fun _ conn =>
    if conn.pid.isNone then next []
    else if hardExpired conn now then closeCode i next
    else if conn.inUse ≠ 0 then next []
    else if idleExpired conn now then closeCode i next
    else next []

/-- The loop body of `dbrelay_db_close_connections`. -/
def reapSlotCode (now : Int) (i : Slot) (next : List Handle → TableCode W) : TableCode W :=
  examine i fun x conn =>
    if orphaned x.alive conn then zeroCode i (expireCode now i next)
    else expireCode now i next

/-- The loop of `dbrelay_db_close_connections`, with the handles that it closed. -/
def reapLoop (now : Int) : List Slot → List Handle → TableCode W
  | [], closed => .done (.closed closed)
  | i :: is, closed => reapSlotCode now i fun handles => reapLoop now is (closed ++ handles)

/-- `dbrelay_db_close_connections`. -/
def reapCode (now : Int) : TableCode W := reapLoop now (List.finRange maxConn) []

/-- The copy of the record in `dbrelay_wait_for_connection`. -/
def copyCode (slot : Slot) : TableCode W :=
  examine slot fun _ conn => .done (.copied { conn with slot := slot })

/-- `connections[slot].pid=0` in `dbrelay_wait_for_connection`. -/
def cleanupCode (slot : Slot) : TableCode W :=
  assign slot (fun _ conn => { conn with pid := none }) <| .done (.closed [])

/-- `connections[slot].helper_pid = helper_pid` in `dbrelay_db_run_query`. -/
def setHelperCode (slot : Slot) (helperPid : Nat) : TableCode W :=
  assign slot (fun _ conn => { conn with helperPid := helperPid }) <| .done (.closed [])

/-- The end of `dbrelay_db_run_query`, with `dbrelay_db_free_connection`. -/
def releaseCode (slot : Slot) : TableCode W :=
  assign slot (fun x conn => { conn with tmAccessed := x.now }) <|
  assign slot (fun _ conn => { conn with inUse := conn.inUse - 1 }) <|
  examine slot fun _ conn =>
    if conn.connectionName.isSet then .done (.closed [])
    else closeCode slot fun handles => .done (.closed handles)

/-- The loop of `dbrelay_admin_kill`, with its `slot` and `pid`. -/
def adminFindLoop (sockPath : CString) : List Slot → Option (Slot × Nat) → TableCode W
  | [], found => .done (.helper found)
  | i :: is, found =>
    examine i fun _ conn =>
      if conn.pid.isSome && decide (conn.sockPath.bytes = sockPath.bytes) then
        adminFindLoop sockPath is (some (i, conn.helperPid))
      else adminFindLoop sockPath is found

def adminFindCode (sockPath : CString) : TableCode W :=
  adminFindLoop sockPath (List.finRange maxConn) none

/-- The second section of `dbrelay_admin_kill`. -/
def adminCloseCode (slot : Slot) : TableCode W :=
  closeCode slot fun handles => .done (.closed handles)

/-! ## Without a break -/

section Finish

variable (x : Answers W) (connections : Table W)

@[simp] theorem finish_assign (i : Slot) (f : Answers W → Connection W → Connection W)
    (next : TableCode W) :
    (assign i f next).finish x connections =
      next.finish x (update connections i (f x (connections i))) := rfl

@[simp] theorem finish_examine (i : Slot) (next : Answers W → Connection W → TableCode W) :
    (examine i next).finish x connections =
      (next x (connections i)).finish x connections := rfl

theorem finish_findLoop (request : Request) (is : List Slot) :
    (findLoop request is).finish x connections =
      ((is.find? fun i => (connections i).pid.isSome && dbMatch (connections i) request).elim
          connections
          fun i => update connections i (touchConnection (connections i) x.now),
        .slot (is.find? fun i =>
          (connections i).pid.isSome && dbMatch (connections i) request)) := by
  induction is with
  | nil => rfl
  | cons i is ih =>
    rw [findLoop, finish_examine, List.find?_cons]
    split
    · rename_i h
      rw [h]
      simp [touchConnection]
    · rename_i h
      rw [Bool.not_eq_true] at h
      rw [h, ih]

theorem finish_findCode (request : Request) :
    (findCode request).finish x connections =
      ((dbFindSlot connections request).elim connections
          fun i => update connections i (touchConnection (connections i) x.now),
        .slot (dbFindSlot connections request)) :=
  finish_findLoop x connections request _

/-- A string that the source does not copy is the empty one that the `memset` left. -/
theorem eq_empty_of_isSet {size : Nat} [NeZero size] {s : CharBuf size}
    (h : s.isSet = false) : s = .empty := by
  refine CharBuf.ext' ?_
  rw [CharBuf.isSet, Bool.not_eq_false', List.isEmpty_iff] at h
  rw [h]
  rfl

/-- A string is copied into a record that has an empty one there. -/
theorem finish_copyString {size : Nat} [NeZero size] (g : CharBuf size → Connection W)
    (s : CharBuf size) (i : Slot) {f : Connection W → Connection W} {next : TableCode W}
    (hempty : connections i = g .empty) (hf : f (connections i) = g s) :
    (assignIf s.isSet i f next).finish x connections =
      next.finish x (update connections i (g s)) := by
  cases hset : s.isSet with
  | true =>
    show next.finish x (update connections i (f (connections i))) = _
    rw [hf]
  | false =>
    rw [eq_empty_of_isSet hset, ← hempty, update_eq_self]
    rfl

theorem finish_takeCode (w : W) (i : Slot) :
    (takeCode w i).finish x connections =
      (update connections i
        { connections i with
          tmCreate := x.now
          tmAccessed := x.now
          inUse := (connections i).inUse + 1
          pid := some w
          slot := i }, .slot (some i)) := by
  simp only [takeCode, finish_assign, Code.finish_done, update_self, update_idem]

/-- The record of `dbrelay_db_populate_connection` before its path or handle. -/
def copiedFields (request : Request) : Connection W :=
  { sqlServer := request.sqlServer
    sqlPort := request.sqlPort
    sqlUser := request.sqlUser
    sqlPassword := request.sqlPassword
    sqlDatabase := request.sqlDatabase
    connectionName := request.connectionName
    connectionTimeout :=
      if request.connectionTimeout = 0 then 60 else request.connectionTimeout }

theorem dbPopulateConnection_eq (w : W) (request : Request) (db : Option Handle)
    (path : Option SockPath) (now : Int) :
    (dbPopulateConnection request db path now w).2 =
      if request.named then
        path.elim (copiedFields request) fun path =>
          { (copiedFields request : Connection W) with
            sockPath := path, tmCreate := now, tmAccessed := now, inUse := 1, pid := some w }
      else
        { (copiedFields request : Connection W) with
          db := db, tmCreate := now, tmAccessed := now, inUse := 1, pid := some w } := by
  have hone : (0 : UInt32) + 1 = 1 := rfl
  rw [dbPopulateConnection.eq_def]
  by_cases htimeout : request.connectionTimeout = 0
  · simp only [htimeout, if_true, Request.named, copiedFields, hone]
    cases request.connectionName.isSet <;> cases path <;> rfl
  · simp only [htimeout, if_false, copiedFields, hone]
    cases request.named <;> cases path <;> rfl

theorem finish_populateCode (w : W) (request : Request) (db : Option Handle)
    (path : Option SockPath) (i : Slot) :
    (populateCode w request db path i).finish x connections =
      (update connections i
        { (dbPopulateConnection request db path x.now w).2 with slot := i },
        .slot (some i)) := by
  rw [populateCode.eq_def, finish_assign,
    finish_copyString x _ (fun s => { sqlServer := s }) _ _ (update_self i _ _)
      (by rw [update_self]), update_idem,
    finish_copyString x _ (fun s => { sqlServer := request.sqlServer, sqlPort := s }) _ _
      (update_self i _ _) (by rw [update_self]), update_idem,
    finish_copyString x _ (fun s =>
      { sqlServer := request.sqlServer, sqlPort := request.sqlPort, sqlUser := s }) _ _
      (update_self i _ _) (by rw [update_self]), update_idem,
    finish_copyString x _ (fun s =>
      { sqlServer := request.sqlServer, sqlPort := request.sqlPort
        sqlUser := request.sqlUser, sqlPassword := s }) _ _
      (update_self i _ _) (by rw [update_self]), update_idem,
    finish_copyString x _ (fun s =>
      { sqlServer := request.sqlServer, sqlPort := request.sqlPort
        sqlUser := request.sqlUser, sqlPassword := request.sqlPassword
        sqlDatabase := s }) _ _
      (update_self i _ _) (by rw [update_self]), update_idem,
    finish_copyString x _ (fun s =>
      { sqlServer := request.sqlServer, sqlPort := request.sqlPort
        sqlUser := request.sqlUser, sqlPassword := request.sqlPassword
        sqlDatabase := request.sqlDatabase, connectionName := s }) _ _
      (update_self i _ _) (by rw [update_self]), update_idem,
    finish_assign, update_self, update_idem, dbPopulateConnection_eq]
  show Code.finish x (if request.named then _ else _)
    (update connections i (copiedFields request)) = _
  by_cases hnamed : request.named = true
  · simp only [if_pos hnamed]
    cases path with
    | none =>
      simp only [finish_assign, update_self, update_idem]
      rfl
    | some path =>
      simp only [finish_assign, finish_takeCode, update_self, update_idem]
      rfl
  · simp only [if_neg hnamed, finish_assign, finish_takeCode, update_self, update_idem]
    rfl

theorem finish_allocLoop (w : W) (request : Request) (db : Option Handle)
    (path : Option SockPath) (is : List Slot) :
    (allocLoop w request db path is).finish x connections =
      ((is.find? fun i => (connections i).pid.isNone).elim connections
          fun i => update connections i
            { (dbPopulateConnection request db path x.now w).2 with slot := i },
        .slot (is.find? fun i => (connections i).pid.isNone)) := by
  induction is with
  | nil => rfl
  | cons i is ih =>
    rw [allocLoop, finish_examine, List.find?_cons]
    split
    · rename_i h
      rw [h, finish_populateCode]
      rfl
    · rename_i h
      rw [Bool.not_eq_true] at h
      rw [h, ih]

theorem finish_allocCode (w : W) (request : Request) (db : Option Handle)
    (path : Option SockPath) :
    (allocCode w request db path).finish x connections =
      ((firstFree connections).elim connections
          fun i => update connections i
            { (dbPopulateConnection request db path x.now w).2 with slot := i },
        .slot (firstFree connections)) :=
  finish_allocLoop x connections w request db path _

theorem finish_zeroCode (i : Slot) (next : TableCode W) :
    (zeroCode i next).finish x connections =
      next.finish x (update connections i (dbZeroConnection (connections i))) := by
  simp only [zeroCode, finish_assign, update_self, update_idem]
  rfl

theorem finish_closeCode (i : Slot) (next : List Handle → TableCode W) :
    (closeCode i next).finish x connections =
      (next (dbCloseConnection (connections i)).2).finish x
        (update connections i (dbCloseConnection (connections i)).1) := by
  rw [closeCode, finish_examine, finish_zeroCode]
  rfl

/-- The tests of the reaper after the one for a dead worker. -/
def expireConnection (now : Int) (conn : Connection W) : Connection W × List Handle :=
  if conn.pid.isNone then (conn, [])
  else if hardExpired conn now then dbCloseConnection conn
  else if conn.inUse ≠ 0 then (conn, [])
  else if idleExpired conn now then dbCloseConnection conn
  else (conn, [])

theorem finish_expireCode (now : Int) (i : Slot) (next : List Handle → TableCode W) :
    (expireCode now i next).finish x connections =
      (next (expireConnection now (connections i)).2).finish x
        (update connections i (expireConnection now (connections i)).1) := by
  rw [expireCode, finish_examine, expireConnection]
  split_ifs <;> simp only [finish_closeCode, update_eq_self]

theorem finish_reapSlotCode (now : Int) (i : Slot) (next : List Handle → TableCode W) :
    (reapSlotCode now i next).finish x connections =
      (next (reapConnection x.alive now (connections i)).2).finish x
        (update connections i (reapConnection x.alive now (connections i)).1) := by
  have hreap : reapConnection x.alive now (connections i) =
      expireConnection now (if orphaned x.alive (connections i)
        then dbZeroConnection (connections i) else connections i) := rfl
  rw [reapSlotCode, finish_examine, hreap]
  split
  · rw [finish_zeroCode, finish_expireCode, update_self, update_idem]
  · rw [finish_expireCode]

/-- The loop treats each slot that is still to come by its record of now. -/
theorem finish_reapLoop (now : Int) (is : List Slot) : ∀ (table : Table W)
    (closed : List Handle), is.Nodup →
    (reapLoop now is closed).finish x table =
      (fun j => if j ∈ is then (reapConnection x.alive now (table j)).1 else table j,
        .closed (closed ++ is.flatMap fun i => (reapConnection x.alive now (table i)).2)) := by
  induction is with
  | nil =>
    intro table closed _
    simp [reapLoop]
  | cons i is ih =>
    intro table closed hnodup
    obtain ⟨hi, hrest⟩ := List.nodup_cons.1 hnodup
    have hsame : ∀ j ∈ is, update table i (reapConnection x.alive now (table i)).1 j = table j :=
      fun j hj => update_of_ne (fun h : j = i => hi (h ▸ hj)) _ _
    rw [reapLoop, finish_reapSlotCode, ih _ _ hrest]
    congr 1
    · funext j
      by_cases hji : j = i
      · subst hji
        simp [hi]
      · simp [hji]
    · rw [List.flatMap_cons, List.append_assoc]
      congr 3
      exact List.flatMap_congr fun j hj => by rw [hsame j hj]

theorem finish_reapCode (now : Int) :
    (reapCode now).finish x connections =
      (fun i => (reapConnection x.alive now (connections i)).1,
        .closed ((List.finRange maxConn).flatMap fun i =>
          (reapConnection x.alive now (connections i)).2)) := by
  have hall : ∀ is : List Slot, is.Nodup → (∀ i, i ∈ is) →
      (reapLoop now is []).finish x connections =
        (fun i => (reapConnection x.alive now (connections i)).1,
          .closed (is.flatMap fun i => (reapConnection x.alive now (connections i)).2)) := by
    intro is hnodup hmem
    rw [finish_reapLoop x now is _ _ hnodup]
    simp only [hmem, if_true, List.nil_append]
  exact hall _ (List.nodup_finRange maxConn) List.mem_finRange

theorem finish_releaseCode (slot : Slot) :
    (releaseCode slot).finish x connections =
      (update connections slot
        (dbFreeConnection { connections slot with tmAccessed := x.now }).1,
        .closed (dbFreeConnection { connections slot with tmAccessed := x.now }).2) := by
  rw [releaseCode, dbFreeConnection]
  simp only [finish_assign, finish_examine, update_self, update_idem]
  split
  · rfl
  · rw [finish_closeCode, update_self, update_idem]
    rfl

theorem finish_adminFindLoop (sockPath : CString) (is : List Slot) :
    ∀ found : Option (Slot × Nat),
    (adminFindLoop sockPath is found).finish x connections =
      (connections, .helper <|
        ((is.reverse.find? fun i =>
          (connections i).pid.isSome &&
            decide ((connections i).sockPath.bytes = sockPath.bytes)).map
              fun i => (i, (connections i).helperPid)).or found) := by
  induction is with
  | nil => exact fun found => rfl
  | cons i is ih =>
    intro found
    rw [adminFindLoop, finish_examine, List.reverse_cons, List.find?_append]
    split
    · rename_i h
      rw [ih, List.find?_cons, h]
      congr 2
      cases List.find? _ is.reverse <;> rfl
    · rename_i h
      rw [Bool.not_eq_true] at h
      rw [ih, List.find?_cons, h, List.find?_nil, Option.or_none]

theorem finish_adminFindCode (sockPath : CString) :
    (adminFindCode sockPath).finish x connections =
      (connections, .helper ((adminFindSlot connections sockPath).map fun i =>
        (i, (connections i).helperPid))) := by
  rw [adminFindCode, finish_adminFindLoop, Option.or_none]
  rfl

end Finish

/-! ## One access -/

/-- The record is the same but for what the requests that share it write. -/
def Used (conn conn' : Connection W) : Prop :=
  conn' = { conn with
    inUse := conn'.inUse
    tmAccessed := conn'.tmAccessed
    helperPid := conn'.helperPid
    slot := conn'.slot }

theorem Used.refl (conn : Connection W) : Used conn conn := rfl

theorem Used.trans {conn conn' conn'' : Connection W} (h : Used conn conn')
    (h' : Used conn' conn'') : Used conn conn'' := by
  rw [Used] at h h' ⊢
  rw [h'] at ⊢
  rw [h]

/-- What an access may do to a record.  `filled` are the records that the section may
put into a free slot. -/
inductive Moves (filled : Connection W → Prop) (conn conn' : Connection W) : Prop
  | free (h : conn'.pid = none)
  | filled (hfree : conn.pid = none) (h : filled conn')
  | used (h : Used conn conn')

theorem Moves.mono {filled filled' : Connection W → Prop} {conn conn' : Connection W}
    (hfilled : ∀ conn, filled conn → filled' conn) (h : Moves filled conn conn') :
    Moves filled' conn conn' := by
  cases h with
  | free h => exact .free h
  | filled hfree h => exact .filled hfree (hfilled _ h)
  | used h => exact .used h

/-- An access changes one record. -/
def TableMoves (filled : Connection W → Prop) (connections connections' : Table W) : Prop :=
  ∃ i, (∀ j, j ≠ i → connections' j = connections j) ∧
    Moves filled (connections i) (connections' i)

variable {filled : Connection W → Prop} {connections : Table W}

theorem always_assign {i : Slot} {f : Answers W → Connection W → Connection W}
    {next : TableCode W} (hmove : ∀ x, Moves filled (connections i) (f x (connections i)))
    (hnext : ∀ x, next.Always (TableMoves filled)
      (update connections i (f x (connections i)))) :
    (assign i f next).Always (TableMoves filled) connections := by
  refine Code.always_put (fun x => ⟨i, fun j hj => update_of_ne hj _ _, ?_⟩) hnext
  rw [update_self]
  exact hmove x

theorem always_examine {i : Slot} {next : Answers W → Connection W → TableCode W}
    (hnext : ∀ x, (next x (connections i)).Always (TableMoves filled) connections) :
    (examine i next).Always (TableMoves filled) connections :=
  Code.always_look ⟨i, fun _ _ => rfl, .used (Used.refl _)⟩ hnext

/-- A string is copied into a record that is free. -/
theorem always_copyString {size : Nat} [NeZero size] (g : CharBuf size → Connection W)
    (s : CharBuf size) {i : Slot} {f : Connection W → Connection W} {next : TableCode W}
    (hempty : connections i = g .empty) (hf : f (connections i) = g s)
    (hpid : (g s).pid = none)
    (hnext : next.Always (TableMoves filled) (update connections i (g s))) :
    (assignIf s.isSet i f next).Always (TableMoves filled) connections := by
  cases hset : s.isSet with
  | true =>
    refine always_assign (fun _ => .free ?_) fun _ => ?_
    · rw [hf, hpid]
    · rwa [hf]
  | false =>
    rw [eq_empty_of_isSet hset, ← hempty, update_eq_self] at hnext
    exact hnext

theorem always_findLoop (request : Request) (is : List Slot) :
    ∀ connections : Table W,
      (findLoop request is).Always (TableMoves filled) connections := by
  induction is with
  | nil => exact fun _ => trivial
  | cons i is ih =>
    intro connections
    refine always_examine fun x => ?_
    split
    · exact always_assign (fun x => .used rfl) fun x =>
        always_assign (fun x => .used rfl) fun x => trivial
    · exact ih connections

/-- The mark is the access that shows the record, and by then it is complete. -/
theorem always_takeCode (w : W) {i : Slot} (hfree : (connections i).pid = none)
    (hfilled : ∀ created accessed, filled
      { connections i with
        tmCreate := created
        tmAccessed := accessed
        inUse := (connections i).inUse + 1
        pid := some w }) :
    (takeCode w i).Always (TableMoves filled) connections := by
  refine always_assign (fun _ => .free hfree) fun x₁ => ?_
  refine always_assign (fun _ => .free (by rw [update_self]; exact hfree)) fun x₂ => ?_
  refine always_assign (fun _ => .free (by simp only [update_self, hfree])) fun x₃ => ?_
  refine always_assign (fun _ => .filled (by simp only [update_self, hfree]) ?_) fun x₄ => ?_
  · simp only [update_self]
    exact hfilled x₁.now x₂.now
  · exact always_assign (fun _ => .used rfl) fun _ => trivial

/-- The records that `dbrelay_db_alloc_connection` may put into a slot.  The clock is read
twice. -/
def FilledBy (w : W) (request : Request) (db : Option Handle) (path : Option SockPath)
    (conn : Connection W) : Prop :=
  ∃ created accessed, conn =
    { (dbPopulateConnection request db path created w).2 with tmAccessed := accessed }

theorem always_populateCode (w : W) (request : Request) (db : Option Handle)
    (path : Option SockPath) {i : Slot} :
    (populateCode w request db path i).Always
      (TableMoves (FilledBy w request db path)) connections := by
  refine always_assign (fun _ => .free rfl) fun _ => ?_
  refine always_copyString (fun s => { sqlServer := s }) _ (update_self i _ _)
    (by rw [update_self]) rfl ?_
  rw [update_idem]
  refine always_copyString (fun s => { sqlServer := request.sqlServer, sqlPort := s }) _
    (update_self i _ _) (by rw [update_self]) rfl ?_
  rw [update_idem]
  refine always_copyString (fun s =>
    { sqlServer := request.sqlServer, sqlPort := request.sqlPort, sqlUser := s }) _
    (update_self i _ _) (by rw [update_self]) rfl ?_
  rw [update_idem]
  refine always_copyString (fun s =>
    { sqlServer := request.sqlServer, sqlPort := request.sqlPort
      sqlUser := request.sqlUser, sqlPassword := s }) _
    (update_self i _ _) (by rw [update_self]) rfl ?_
  rw [update_idem]
  refine always_copyString (fun s =>
    { sqlServer := request.sqlServer, sqlPort := request.sqlPort
      sqlUser := request.sqlUser, sqlPassword := request.sqlPassword
      sqlDatabase := s }) _
    (update_self i _ _) (by rw [update_self]) rfl ?_
  rw [update_idem]
  refine always_copyString (fun s =>
    { sqlServer := request.sqlServer, sqlPort := request.sqlPort
      sqlUser := request.sqlUser, sqlPassword := request.sqlPassword
      sqlDatabase := request.sqlDatabase, connectionName := s }) _
    (update_self i _ _) (by rw [update_self]) rfl ?_
  rw [update_idem]
  refine always_assign (fun _ => .free (by rw [update_self])) fun _ => ?_
  rw [update_self, update_idem]
  show Code.Always _ (if request.named then _ else _)
    (update connections i (copiedFields request))
  by_cases hnamed : request.named = true
  · rw [if_pos hnamed]
    cases path with
    | none => exact always_assign (fun _ => .free (by rw [update_self]; rfl)) fun _ => trivial
    | some path =>
      refine always_assign (fun _ => .free (by rw [update_self]; rfl)) fun _ => ?_
      rw [update_self, update_idem]
      refine always_takeCode w (by rw [update_self]; rfl) fun created accessed =>
        ⟨created, accessed, ?_⟩
      rw [update_self, dbPopulateConnection_eq, if_pos hnamed]
      rfl
  · rw [if_neg hnamed]
    refine always_assign (fun _ => .free (by rw [update_self]; rfl)) fun _ => ?_
    rw [update_self, update_idem]
    refine always_takeCode w (by rw [update_self]; rfl) fun created accessed =>
      ⟨created, accessed, ?_⟩
    rw [update_self, dbPopulateConnection_eq, if_neg hnamed]
    rfl

theorem always_allocLoop (w : W) (request : Request) (db : Option Handle)
    (path : Option SockPath) (is : List Slot) :
    (allocLoop w request db path is).Always
      (TableMoves (FilledBy w request db path)) connections := by
  induction is with
  | nil => exact trivial
  | cons i is ih =>
    refine always_examine fun x => ?_
    split
    · exact always_populateCode w request db path
    · exact ih

/-- The `pid` is cleared first, and after that nobody looks at the record. -/
theorem always_zeroCode {i : Slot} {next : TableCode W}
    (hnext : ∀ connections, next.Always (TableMoves filled) connections)
    (connections : Table W) : (zeroCode i next).Always (TableMoves filled) connections := by
  refine always_assign (fun _ => .free rfl) fun _ => ?_
  refine always_assign (fun _ => .free (by simp only [update_self])) fun _ => ?_
  refine always_assign (fun _ => .free (by simp only [update_self])) fun _ => ?_
  refine always_assign (fun _ => .free (by simp only [update_self])) fun _ => ?_
  refine always_assign (fun _ => .free (by simp only [update_self])) fun _ => ?_
  refine always_assign (fun _ => .free (by simp only [update_self])) fun _ => ?_
  refine always_assign (fun _ => .free (by simp only [update_self])) fun _ => ?_
  exact always_assign (fun _ => .free (by simp only [update_self])) fun _ => hnext _

theorem always_closeCode {i : Slot} {next : List Handle → TableCode W}
    (hnext : ∀ handles connections, (next handles).Always (TableMoves filled) connections)
    (connections : Table W) : (closeCode i next).Always (TableMoves filled) connections :=
  always_examine fun _ => always_zeroCode (hnext _) connections

theorem always_expireCode {now : Int} {i : Slot} {next : List Handle → TableCode W}
    (hnext : ∀ handles connections, (next handles).Always (TableMoves filled) connections)
    (connections : Table W) : (expireCode now i next).Always (TableMoves filled) connections := by
  refine always_examine fun _ => ?_
  split_ifs
  · exact hnext [] connections
  · exact always_closeCode hnext connections
  · exact hnext [] connections
  · exact always_closeCode hnext connections
  · exact hnext [] connections

theorem always_reapSlotCode {now : Int} {i : Slot} {next : List Handle → TableCode W}
    (hnext : ∀ handles connections, (next handles).Always (TableMoves filled) connections)
    (connections : Table W) :
    (reapSlotCode now i next).Always (TableMoves filled) connections := by
  refine always_examine fun x => ?_
  split
  · exact always_zeroCode (always_expireCode hnext) connections
  · exact always_expireCode hnext connections

theorem always_reapLoop (now : Int) (is : List Slot) : ∀ (closed : List Handle)
    (connections : Table W), (reapLoop now is closed).Always (TableMoves filled) connections := by
  induction is with
  | nil => exact fun _ _ => trivial
  | cons i is ih =>
    exact fun closed => always_reapSlotCode fun handles => ih (closed ++ handles)

theorem always_copyCode (slot : Slot) :
    (copyCode slot).Always (TableMoves filled) connections := by
  refine always_examine fun _ => ?_
  exact trivial

theorem always_cleanupCode (slot : Slot) :
    (cleanupCode slot).Always (TableMoves filled) connections := by
  refine always_assign (fun _ => .free rfl) fun _ => ?_
  exact trivial

theorem always_setHelperCode (slot : Slot) (helperPid : Nat) :
    (setHelperCode slot helperPid).Always (TableMoves filled) connections := by
  refine always_assign (fun _ => .used rfl) fun _ => ?_
  exact trivial

theorem always_adminCloseCode (slot : Slot) :
    (adminCloseCode slot).Always (TableMoves filled) connections := by
  rw [adminCloseCode]
  refine always_closeCode (fun handles _ => ?_) connections
  exact trivial

theorem always_releaseCode (slot : Slot) :
    (releaseCode slot).Always (TableMoves filled) connections := by
  refine always_assign (fun _ => .used rfl) fun _ => ?_
  refine always_assign (fun _ => .used rfl) fun _ => ?_
  refine always_examine fun _ => ?_
  split
  · exact trivial
  · exact always_adminCloseCode slot

theorem always_adminFindLoop (sockPath : CString) (is : List Slot) :
    ∀ found, (adminFindLoop sockPath is found).Always (TableMoves filled) connections := by
  induction is with
  | nil => exact fun _ => trivial
  | cons i is ih =>
    intro found
    refine always_examine fun _ => ?_
    split
    · exact ih _
    · exact ih _

end DbRelay.Pool
