import DbRelay.Pool.System
import DbRelay.Query.RunQuery

/-!
# What a query takes and gives back

`dbrelay_db_run_query` with the effects of the calls that it makes: on the connection
table, on the sockets to connectors, and on the database handles.  The request runs alone.
What its steps come to is an argument: one `Attempt` for each round of the loop of
`dbrelay_wait_for_connection`, and the `Answers` for the rest.

* `GivesBack` is what should hold when the call returns.
* `dbRunQuery_givesBack_iff`: the outcomes with which it does.

The table is the one of `DbRelay.Pool.System`, whose logs start empty here.  A socket is
named by the number of sockets that were opened before it.
-/

namespace DbRelay

open Function

variable {W : Type} [DecidableEq W]

/-! ## Outcomes -/

/-- What `dbrelay_socket_connect` comes to. -/
inductive ConnectOutcome
  /-- There is no socket. -/
  | noSocket
  /-- `ioctl` or `connect` fails, and the socket is left open. -/
  | refused
  | connected
  deriving DecidableEq, Repr

/-- A round of the loop. -/
structure Attempt where
  /-- The seconds until the table is locked. -/
  before : Nat := 0
  /-- `api->connect` returns a handle. -/
  handle : Bool := true
  tmpnam : Option SockPath := none
  /-- The seconds until `dbrelay_db_close_connections` reads the clock. -/
  waited : Nat := 0
  connect : ConnectOutcome := .connected
  deriving DecidableEq, Repr

/-- Where a request of the worker `w` starts.  Handles that were not opened yet have larger
numbers than those in the table. -/
structure QueryStart (w : W) where
  connections : Table W
  now : Int
  alive : W → Bool
  alive_self : alive w = true
  nextHandle : Handle
  db_lt : ∀ i, ∀ db ∈ (connections i).db, db < nextHandle

/-- The table, with empty logs. -/
def QueryStart.pool {w : W} (start : QueryStart w) : Pool.State W :=
  { connections := start.connections
    now := start.now
    workers := fun v => if start.alive v then .idle else .dead
    serials := fun _ => 0
    lives := fun _ => 0
    nextHandle := start.nextHandle
    opened := []
    closed := []
    launched := fun _ => none }

structure QueryState (W : Type) where
  pool : Pool.State W
  /-- The number of sockets that were opened. -/
  sockets : Nat := 0
  /-- The arguments of the calls of `close`. -/
  closedSockets : List Nat := []

/-! ## The connection -/

/-- Time passes. -/
def pass (s : Pool.State W) (seconds : Nat) : Pool.State W := { s with now := s.now + seconds }

/-- `dbrelay_db_find_connection`. -/
def dbFindConnection (request : Request) (s : Pool.State W) : Option Slot × Pool.State W :=
  match dbFindSlot s.connections request with
  | some i => (some i, s.setConnection i (touchConnection (s.connections i) s.now))
  | none => (none, s)

/-- `dbrelay_db_open_connection`, which a named request does not call. -/
def dbOpenConnection (w : W) (request : Request) (handle : Bool) (s : Pool.State W) :
    Option Handle × Pool.State W :=
  if request.named || !handle then (none, s) else (some s.nextHandle, s.logOpened w)

/-- `dbrelay_db_alloc_connection`.  It also returns the request, as
`dbPopulateConnection`.  There is no result if the path does not fit the record. -/
def dbAllocConnection (w : W) (request : Request) (a : Attempt) (s : Pool.State W) :
    Option (Request × Option Slot × Pool.State W) :=
  let (db, s) := dbOpenConnection w request a.handle s
  match firstFree s.connections with
  | some i =>
    (newSockPath request a.tmpnam).map fun path =>
      ((dbPopulateConnection request db path s.now w).1, some i, s.populate w i request db path)
  | none => some (request, none, s.logClosed w db.toList)

/-- `dbrelay_db_get_connection`. -/
def dbGetConnection (w : W) (request : Request) (a : Attempt) (s : Pool.State W) :
    Option (Request × Option Slot × Pool.State W) :=
  let s := pass s a.before
  let found := if request.named then dbFindConnection request s else (none, s)
  let taken :=
    match found with
    | (some i, s) => some (request, some i, s)
    | (none, s) => dbAllocConnection w request a s
  taken.map fun (request, slot, s) =>
    let s := pass s a.waited
    (request, slot, s.reapAll w s.now)

/-- `connections[slot].pid=0`. -/
def clearPid (i : Slot) (s : Pool.State W) : Pool.State W :=
  s.setConnection i { s.connections i with pid := none }

/-- `dbrelay_wait_for_connection`: the slot and the socket, or no connection.  There is no
result if the attempts are not those of one call. -/
def waitForConnection (w : W) : List Attempt → Request → QueryState W →
    Option (Request × Option (Slot × Nat) × QueryState W)
  | [], _, _ => none
  | a :: rest, request, s =>
    match dbGetConnection w request a s.pool with
    | none => none
    | some (request, none, pool) =>
      if rest.isEmpty then some (request, none, { s with pool := pool }) else none
    | some (request, some i, pool) =>
      if request.named then
        match a.connect with
        | .noSocket => waitForConnection w rest request { s with pool := clearPid i pool }
        | .refused =>
          waitForConnection w rest request
            { s with pool := clearPid i pool, sockets := s.sockets + 1 }
        | .connected =>
          if rest.isEmpty then
            some (request, some (i, s.sockets),
              { s with pool := pool, sockets := s.sockets + 1 })
          else none
      -- The socket is 0 from the start.
      else if rest.isEmpty then some (request, some (i, 0), { s with pool := pool })
      else none

/-! ## The query -/

/-- `close(s)`, at the end of `dbrelay_conn_kill` and `dbrelay_conn_close`. -/
def QueryState.close (s : QueryState W) (socket : Nat) : QueryState W :=
  { s with closedSockets := s.closedSockets ++ [socket] }

/-- The pid of the helper goes into the table, if there is one. -/
def setHelper (i : Slot) (helperPid : Nat) (s : Pool.State W) : Pool.State W :=
  if helperPid = 0 then s
  else s.setConnection i { s.connections i with helperPid := helperPid }

/-- The end of `dbrelay_db_run_query`. -/
def releaseSlot (w : W) (i : Slot) (s : Pool.State W) : Pool.State W :=
  let freed := dbFreeConnection { s.connections i with tmAccessed := s.now }
  (s.setConnection i freed.1).logClosed w freed.2

/-- The part of `dbrelay_db_run_query` after a connection was found.  The query takes some
seconds. -/
def useConnection (w : W) (request : Request) (answers : Answers) (seconds : Nat) (i : Slot)
    (socket : Nat) (s : QueryState W) : QueryState W :=
  if request.named then
    match answers.helperPid with
    -- This exit gives nothing back.
    | none => s
    | some pid =>
      let s := { s with pool := setHelper i pid s.pool }
      let s := if answers.haveError = 2 then s.close socket else s
      let s := s.close socket
      { s with pool := releaseSlot w i (pass s.pool seconds) }
  else { s with pool := releaseSlot w i (pass s.pool seconds) }

/-- `dbrelay_db_run_query`. -/
def dbRunQuery (w : W) (magic : CString) (request : Request) (attempts : List Attempt)
    (answers : Answers) (seconds : Nat) (start : QueryStart w) :
    Option (List UInt8 × QueryState W) :=
  (runQuery magic request answers).bind fun ret =>
    if !checkRequest request then some (ret, { pool := start.pool })
    else
      (waitForConnection w attempts request { pool := start.pool }).bind
        fun (request, conn, s) =>
          if conn.isSome = answers.connection then
            match conn with
            | none => some (ret, s)
            | some (i, socket) => some (ret, useConnection w request answers seconds i socket s)
          else none

/-! ## Giving back -/

/-- A named slot that is still there has as many users as before, a new one has none.  No
unnamed slot that the call filled is still there, and sockets and handles are closed once. -/
structure GivesBack {w : W} (start : QueryStart w) (s : QueryState W) : Prop where
  inUse : ∀ i, (s.pool.connections i).pid ≠ none →
    (s.pool.connections i).connectionName.isSet = true →
      (s.pool.connections i).inUse =
        if s.pool.serials i = 0 then (start.connections i).inUse else 0
  unnamed : ∀ i, s.pool.serials i ≠ 0 → (s.pool.connections i).pid ≠ none →
    (s.pool.connections i).connectionName.isSet = true
  sockets : ∀ n < s.sockets, s.closedSockets.count n = 1
  handles : ∀ p ∈ s.pool.opened, (s.pool.closed.map Prod.fst).count p.1 = 1

/-! ## Slots during the loop -/

/-- A slot is free, or it was not filled in this call and has as many users as before. -/
def Untouched {w : W} (start : QueryStart w) (s : Pool.State W) (i : Slot) : Prop :=
  (s.connections i).pid ≠ none →
    s.serials i = 0 ∧ (s.connections i).inUse = (start.connections i).inUse

/-- A slot is free, or the named request is one more user of it. -/
def Taken {w : W} (start : QueryStart w) (s : Pool.State W) (i : Slot) : Prop :=
  (s.connections i).pid ≠ none →
    (s.connections i).connectionName.isSet = true ∧
      (s.connections i).inUse =
        (if s.serials i = 0 then (start.connections i).inUse else 0) + 1

/-- The reaper keeps what is true of an occupied slot. -/
theorem reapAll_keeps {s : Pool.State W} (w : W) (now : Int) {i : Slot}
    {P : Connection W → Prop} (h : (s.connections i).pid ≠ none → P (s.connections i)) :
    ((s.reapAll w now).connections i).pid ≠ none → P ((s.reapAll w now).connections i) := by
  intro hpid
  have heq := @reapConnection_of_pid W s.alive now (s.connections i) hpid
  show P (reapConnection s.alive now (s.connections i)).1
  rw [heq]
  refine h fun hnone => hpid ?_
  show (reapConnection s.alive now (s.connections i)).1.pid = none
  rw [heq]
  exact hnone

omit [DecidableEq W] in
theorem Pool.State.setConnection_self (s : Pool.State W) (i : Slot) (conn : Connection W) :
    (s.setConnection i conn).connections i = conn :=
  update_self i _ _

omit [DecidableEq W] in
theorem Pool.State.setConnection_of_ne (s : Pool.State W) {i j : Slot} (h : j ≠ i)
    (conn : Connection W) :
    (s.setConnection i conn).connections j = s.connections j :=
  update_of_ne h _ _

variable {w : W} {start : QueryStart w} {s : Pool.State W}

theorem Untouched.reapAll {i : Slot} (h : Untouched start s i) (now : Int) :
    Untouched start (s.reapAll w now) i :=
  @reapAll_keeps W _ s w now i
    (fun conn => s.serials i = 0 ∧ conn.inUse = (start.connections i).inUse) h

theorem Taken.reapAll {i : Slot} (h : Taken start s i) (now : Int) :
    Taken start (s.reapAll w now) i :=
  @reapAll_keeps W _ s w now i (fun conn => conn.connectionName.isSet = true ∧
    conn.inUse = (if s.serials i = 0 then (start.connections i).inUse else 0) + 1) h

omit [DecidableEq W] in
/-- A slot that was found. -/
theorem taken_touch {request : Request} {i : Slot} (hnamed : request.named = true)
    (hi : Untouched start s i) (hfind : dbFindSlot s.connections request = some i) :
    Taken start (s.setConnection i (touchConnection (s.connections i) s.now)) i := by
  intro _
  rcases dbFindSlot_some hfind with ⟨hpid, hmatch⟩
  rcases hi hpid with ⟨hserial, hinUse⟩
  rw [Pool.State.setConnection_self]
  refine ⟨(named_of_dbMatch hmatch).trans hnamed, ?_⟩
  show (s.connections i).inUse + 1 = (if s.serials i = 0 then _ else _) + 1
  rw [if_pos hserial, hinUse]

omit [DecidableEq W] in
/-- A slot that was filled. -/
theorem taken_populate {request : Request} {i : Slot} (hnamed : request.named = true)
    (path : Option SockPath) : Taken start (s.populate w i request none path) i := by
  intro hpid
  rw [Pool.State.populate_self] at hpid ⊢
  have hname := (named_of_dbMatch (dbMatch_populate request none path s.now w)).trans hnamed
  have hpath : path ≠ none := by
    rintro rfl
    exact hpid (dbPopulateConnection_pid_none request none s.now w hnamed)
  have htaken := (dbPopulateConnection_taken request none path s.now w fun _ => hpath).2.1
  have hserial : (s.populate w i request none path).serials i = s.serials i + 1 :=
    update_self i _ _
  refine ⟨hname, ?_⟩
  rw [hserial, if_neg (Nat.succ_ne_zero _)]
  exact htaken

omit [DecidableEq W] in
theorem Untouched.populate {request : Request} {i j : Slot} (hj : Untouched start s j)
    (hne : j ≠ i) (db : Option Handle) (path : Option SockPath) :
    Untouched start (s.populate w i request db path) j := by
  intro hpid
  have hserial : (s.populate w i request db path).serials j = s.serials j := update_of_ne hne _ _
  rw [Pool.State.populate_of_ne _ _ hne] at hpid ⊢
  rw [hserial]
  exact hj hpid

omit [DecidableEq W] in
theorem Untouched.setConnection {i j : Slot} (hj : Untouched start s j) (hne : j ≠ i)
    (conn : Connection W) : Untouched start (s.setConnection i conn) j := by
  intro hpid
  rw [Pool.State.setConnection_of_ne _ hne] at hpid ⊢
  exact hj hpid

omit [DecidableEq W] in
/-- The scans have their equations as lemmas, since the definitions unfold to them. -/
theorem dbFindConnection_none {request : Request}
    (h : dbFindSlot s.connections request = none) : dbFindConnection request s = (none, s) := by
  unfold dbFindConnection
  simp only [h]

omit [DecidableEq W] in
theorem dbFindConnection_some {request : Request} {i : Slot}
    (h : dbFindSlot s.connections request = some i) :
    dbFindConnection request s =
      (some i, s.setConnection i (touchConnection (s.connections i) s.now)) := by
  unfold dbFindConnection
  simp only [h]

omit [DecidableEq W] in
theorem dbAllocConnection_none {request : Request} {a : Attempt} {db : Option Handle}
    {s' : Pool.State W} (hopen : dbOpenConnection w request a.handle s = (db, s'))
    (h : firstFree s'.connections = none) :
    dbAllocConnection w request a s = some (request, none, s'.logClosed w db.toList) := by
  unfold dbAllocConnection
  simp only [hopen, h]

omit [DecidableEq W] in
theorem dbAllocConnection_some {request : Request} {a : Attempt} {db : Option Handle}
    {s' : Pool.State W} {i : Slot} (hopen : dbOpenConnection w request a.handle s = (db, s'))
    (h : firstFree s'.connections = some i) :
    dbAllocConnection w request a s = (newSockPath request a.tmpnam).map fun path =>
      ((dbPopulateConnection request db path s'.now w).1, some i,
        s'.populate w i request db path) := by
  unfold dbAllocConnection
  simp only [hopen, h]

/-- A named request becomes a user of the slot that it gets, and opens no handle. -/
theorem dbGetConnection_named {request : Request} (hnamed : request.named = true)
    (hs : ∀ i, Untouched start s i) (a : Attempt) {request' : Request} {slot : Option Slot}
    {s' : Pool.State W} (h : dbGetConnection w request a s = some (request', slot, s')) :
    request'.named = true ∧ s'.opened = s.opened ∧
      (∀ j, slot ≠ some j → Untouched start s' j) ∧ ∀ i, slot = some i → Taken start s' i := by
  have hpass : ∀ i, Untouched start (pass s a.before) i := hs
  have hopen : dbOpenConnection w request a.handle (pass s a.before) = (none, pass s a.before) := by
    rw [dbOpenConnection, hnamed]
    rfl
  cases hfind : dbFindSlot (pass s a.before).connections request with
  | none =>
    have hfound := dbFindConnection_none hfind
    cases hfree : firstFree (pass s a.before).connections with
    | none =>
      have halloc := dbAllocConnection_none hopen hfree
      simp only [dbGetConnection, hnamed, if_true, hfound, halloc, Option.map_some] at h
      cases h
      exact ⟨hnamed, rfl, fun j _ => (hpass j).reapAll _,
        fun i hi => absurd hi.symm (Option.some_ne_none i)⟩
    | some i =>
      have halloc := dbAllocConnection_some hopen hfree
      simp only [dbGetConnection, hnamed, if_true, hfound, halloc, Option.map_map,
        Option.map_eq_some_iff] at h
      obtain ⟨path, -, heq⟩ := h
      cases heq
      refine ⟨?_, rfl, fun j hj => ?_, ?_⟩
      · rw [named_populate, hnamed]
      · exact ((hpass j).populate (fun heq => hj (heq ▸ rfl)) none path).reapAll _
      · intro _ hgiven
        cases hgiven
        exact (taken_populate hnamed path).reapAll _
  | some i =>
    have hfound := dbFindConnection_some hfind
    simp only [dbGetConnection, hnamed, if_true, hfound, Option.map_some] at h
    cases h
    refine ⟨hnamed, rfl, fun j hj => ?_, ?_⟩
    · exact ((hpass j).setConnection (fun heq => hj (heq ▸ rfl)) _).reapAll _
    · intro _ hgiven
      cases hgiven
      exact (taken_touch hnamed (hpass i) hfind).reapAll _

/-! ## The loop -/

/-- The sockets that failed attempts leave open.  The last attempt does not fail. -/
def refusals (attempts : List Attempt) : Nat :=
  attempts.dropLast.countP fun a => decide (a.connect = .refused)

theorem refusals_cons (a : Attempt) {rest : List Attempt} (h : rest ≠ []) :
    refusals (a :: rest) = (if a.connect = .refused then 1 else 0) + refusals rest := by
  rw [refusals, List.dropLast_cons_of_ne_nil h, List.countP_cons, refusals, Nat.add_comm]
  simp only [decide_eq_true_iff]

omit [DecidableEq W] in
theorem Untouched.clearPid {i : Slot} (hs : ∀ j, j ≠ i → Untouched start s j) (j : Slot) :
    Untouched start (clearPid i s) j := by
  by_cases hj : j = i
  · intro hpid
    rw [hj, DbRelay.clearPid, Pool.State.setConnection_self] at hpid
    exact absurd rfl hpid
  · exact (hs j hj).setConnection hj _

/-- What the loop leaves for a named request after `refused` refused sockets. -/
inductive Waited (start : QueryStart w) (refused : Nat) (s : QueryState W) :
    Option (Slot × Nat) → Prop
  | failed (untouched : ∀ i, Untouched start s.pool i) (opened : s.pool.opened = [])
      (closed : s.closedSockets = []) (sockets : s.sockets = refused) :
      Waited start refused s none
  | connected {i : Slot} (untouched : ∀ j, j ≠ i → Untouched start s.pool j)
      (taken : Taken start s.pool i) (opened : s.pool.opened = [])
      (closed : s.closedSockets = []) (sockets : s.sockets = refused + 1) :
      Waited start refused s (some (i, refused))

/-- The loop leaves the slot of a named request taken, and each refused socket open. -/
theorem waitForConnection_named {attempts : List Attempt} {request : Request} {s : QueryState W}
    (hnamed : request.named = true) (hs : ∀ i, Untouched start s.pool i)
    (hopened : s.pool.opened = []) (hclosed : s.closedSockets = []) {request' : Request}
    {conn : Option (Slot × Nat)} {s' : QueryState W}
    (h : waitForConnection w attempts request s = some (request', conn, s')) :
    request'.named = true ∧ Waited start (s.sockets + refusals attempts) s' conn := by
  induction attempts generalizing request s with
  | nil => cases h
  | cons a rest ih =>
    unfold waitForConnection at h
    rcases hget : dbGetConnection w request a s.pool with - | ⟨request₁, slot, pool⟩
    · rw [hget] at h
      cases h
    rcases dbGetConnection_named hnamed hs a hget with ⟨hnamed₁, hopened₁, huntouched, htaken⟩
    have hopened₁ := hopened₁.trans hopened
    have hlast : rest.isEmpty = true → s.sockets + refusals (a :: rest) = s.sockets := by
      intro hempty
      rw [List.isEmpty_iff.1 hempty]
      rfl
    have hretry : ∀ s₁ : QueryState W, s₁.pool.opened = [] → s₁.closedSockets = [] →
        (∀ i, Untouched start s₁.pool i) →
        s₁.sockets = s.sockets + (if a.connect = .refused then 1 else 0) →
        waitForConnection w rest request₁ s₁ = some (request', conn, s') →
        request'.named = true ∧ Waited start (s.sockets + refusals (a :: rest)) s' conn := by
      intro s₁ ho hc hu hcount hwait
      have hrest : rest ≠ [] := by
        rintro rfl
        cases hwait
      rw [refusals_cons a hrest, ← Nat.add_assoc, ← hcount]
      exact ih hnamed₁ hu ho hc hwait
    simp only [hget] at h
    cases slot with
    | none =>
      simp only [Option.ite_none_right_eq_some] at h
      rcases h with ⟨hempty, heq⟩
      cases heq
      exact ⟨hnamed₁,
        .failed (fun i => huntouched i (by simp)) hopened₁ hclosed (hlast hempty).symm⟩
    | some i =>
      have hothers : ∀ j, j ≠ i → Untouched start pool j :=
        fun j hj => huntouched j fun heq => hj (Option.some.inj heq).symm
      simp only [hnamed₁, if_true] at h
      cases hconnect : a.connect with
      | noSocket =>
        rw [hconnect] at h
        exact hretry { s with pool := clearPid i pool } hopened₁ hclosed
          (Untouched.clearPid hothers) (by rw [hconnect]; rfl) h
      | refused =>
        rw [hconnect] at h
        exact hretry { s with pool := clearPid i pool, sockets := s.sockets + 1 } hopened₁
          hclosed (Untouched.clearPid hothers) (by rw [hconnect]; rfl) h
      | connected =>
        rw [hconnect] at h
        simp only [Option.ite_none_right_eq_some] at h
        rcases h with ⟨hempty, heq⟩
        cases heq
        rw [hlast hempty]
        exact ⟨hnamed₁, .connected hothers (htaken i rfl) hopened₁ hclosed rfl⟩

/-! ## A named request -/

/-- What `GivesBack` says of a slot. -/
def Settled (start : QueryStart w) (s : Pool.State W) (i : Slot) : Prop :=
  (s.connections i).pid ≠ none →
    ((s.connections i).connectionName.isSet = true →
      (s.connections i).inUse = if s.serials i = 0 then (start.connections i).inUse else 0) ∧
    (s.serials i ≠ 0 → (s.connections i).connectionName.isSet = true)

omit [DecidableEq W] in
theorem Untouched.settled {i : Slot} (h : Untouched start s i) : Settled start s i := by
  intro hpid
  rcases h hpid with ⟨hserial, hinUse⟩
  exact ⟨fun _ => by rw [if_pos hserial, hinUse], fun hne => absurd hserial hne⟩

omit [DecidableEq W] in
/-- The request is no longer a user of the slot. -/
theorem Taken.settled {i : Slot} (h : Taken start s i) : Settled start (releaseSlot w i s) i := by
  intro hpid
  have hrecord : (releaseSlot w i s).connections i =
      (dbFreeConnection { s.connections i with tmAccessed := s.now }).1 :=
    Pool.State.setConnection_self s i _
  rw [hrecord] at hpid ⊢
  by_cases hname : (s.connections i).connectionName.isSet = true
  · rcases dbFreeConnection_named hname s.now with ⟨hkeeps, hinUse⟩
    rw [hkeeps.pid] at hpid
    rcases h hpid with ⟨-, htaken⟩
    refine ⟨fun _ => ?_, fun _ => by rw [hkeeps.named]; exact hname⟩
    rw [hinUse, htaken, UInt32.add_sub_cancel]
    rfl
  · rw [Bool.not_eq_true] at hname
    exact absurd (dbFreeConnection_unnamed hname s.now).1 hpid

omit [DecidableEq W] in
theorem Settled.releaseSlot_of_ne {i j : Slot} (h : Settled start s j) (hne : j ≠ i) :
    Settled start (releaseSlot w i s) j := by
  have hrecord : (releaseSlot w i s).connections j = s.connections j :=
    Pool.State.setConnection_of_ne s hne _
  intro hpid
  rw [hrecord] at hpid ⊢
  exact h hpid

omit [DecidableEq W] in
theorem setHelper_taken {i : Slot} (h : Taken start s i) (helperPid : Nat) :
    Taken start (setHelper i helperPid s) i := by
  rw [setHelper]
  split
  · exact h
  · intro hpid
    rw [Pool.State.setConnection_self] at hpid ⊢
    exact h hpid

omit [DecidableEq W] in
theorem setHelper_untouched {i j : Slot} (h : Untouched start s j) (hne : j ≠ i)
    (helperPid : Nat) : Untouched start (setHelper i helperPid s) j := by
  rw [setHelper]
  split
  · exact h
  · exact h.setConnection hne _

omit [DecidableEq W] in
theorem GivesBack.of_settled {s : QueryState W} (hsettled : ∀ i, Settled start s.pool i)
    (hsockets : ∀ n < s.sockets, s.closedSockets.count n = 1)
    (hhandles : ∀ p ∈ s.pool.opened, (s.pool.closed.map Prod.fst).count p.1 = 1) :
    GivesBack start s :=
  ⟨fun i hpid => (hsettled i hpid).1, fun i hserial hpid => (hsettled i hpid).2 hserial, hsockets,
    hhandles⟩

omit [DecidableEq W] in
/-- A call without a connection gives all back if no socket was refused. -/
theorem givesBack_noConnection {s : QueryState W} {refused : Nat}
    (huntouched : ∀ i, Untouched start s.pool i) (hopened : s.pool.opened = [])
    (hclosed : s.closedSockets = []) (hsockets : s.sockets = refused) :
    GivesBack start s ↔ refused = 0 := by
  constructor
  · intro h
    by_contra hne
    have hone := h.sockets 0 (by rw [hsockets]; exact Nat.pos_of_ne_zero hne)
    rw [hclosed] at hone
    cases hone
  · intro hzero
    refine .of_settled (fun i => (huntouched i).settled) (fun n hn => ?_) fun p hp => ?_
    · rw [hsockets, hzero] at hn
      exact absurd hn (Nat.not_lt_zero n)
    · rw [hopened] at hp
      cases hp

omit [DecidableEq W] in
/-- A connection that was used gives all back if the socket is the first one and is closed
once. -/
theorem useConnection_named {request : Request} {s : QueryState W} {i : Slot} {refused : Nat}
    (hnamed : request.named = true) (huntouched : ∀ j, j ≠ i → Untouched start s.pool j)
    (htaken : Taken start s.pool i) (hopened : s.pool.opened = [])
    (hsockets : s.sockets = refused + 1) (hclosed : s.closedSockets = []) (answers : Answers)
    (seconds : Nat) :
    GivesBack start (useConnection w request answers seconds i refused s) ↔
      refused = 0 ∧ answers.helperPid ≠ none ∧ answers.haveError ≠ 2 := by
  unfold useConnection
  rw [if_pos hnamed]
  cases hpid : answers.helperPid with
  | none =>
    refine iff_of_false (fun h => ?_) fun h => h.2.1 rfl
    have hcount := h.sockets 0 (by rw [hsockets]; exact Nat.succ_pos _)
    rw [hclosed] at hcount
    cases hcount
  | some pid =>
    simp only [ne_eq, reduceCtorEq, not_false_eq_true, true_and]
    have hsettled : ∀ j, Settled start
        (releaseSlot w i (pass (setHelper i pid s.pool) seconds)) j := by
      intro j
      by_cases hj : j = i
      · rw [hj]
        exact Taken.settled (s := pass (setHelper i pid s.pool) seconds)
          (setHelper_taken htaken pid)
      · exact Settled.releaseSlot_of_ne (s := pass (setHelper i pid s.pool) seconds)
          (setHelper_untouched (huntouched j hj) hj pid).settled hj
    have hnone : (releaseSlot w i (pass (setHelper i pid s.pool) seconds)).opened = [] := by
      rw [← hopened]
      show (setHelper i pid s.pool).opened = _
      rw [setHelper]
      split <;> rfl
    by_cases herror : answers.haveError = 2
    · refine iff_of_false (fun h => ?_) fun h => h.2 herror
      have hcount := h.sockets refused (by
        rw [if_pos herror]
        exact lt_of_lt_of_eq (Nat.lt_succ_self refused) hsockets.symm)
      simp only [if_pos herror, QueryState.close, hclosed] at hcount
      simp at hcount
    · rw [and_iff_left herror]
      have hlist : s.closedSockets ++ [refused] = [refused] := by
        rw [hclosed]
        rfl
      constructor
      · intro h
        have hcount := h.sockets 0 (by
          rw [if_neg herror]
          exact lt_of_lt_of_eq (Nat.succ_pos refused) hsockets.symm)
        simp only [if_neg herror, QueryState.close, hlist] at hcount
        by_contra hne
        rw [List.count_eq_zero_of_not_mem (by simpa using Ne.symm hne)] at hcount
        cases hcount
      · intro hzero
        simp only [if_neg herror, QueryState.close, hlist]
        refine .of_settled hsettled (fun n hn => ?_) fun p hp => ?_
        · rw [hsockets, hzero] at hn
          have hn0 : n = 0 := Nat.lt_one_iff.1 hn
          rw [hn0, hzero]
          rfl
        · rw [hnone] at hp
          cases hp

/-! ## An unnamed request -/

/-- The hard timeout passes between filling the slot and reading the clock. -/
def Overdue (start : QueryStart w) (a : Attempt) : Prop :=
  addLong (start.now + a.before) hardTimeout < start.now + a.before + a.waited

/-- In a flattened list, a value of one part only. -/
theorem count_flatMap_of_ne {ι α : Type} [DecidableEq α] {l : List ι} (hl : l.Nodup)
    {f : ι → List α} {a : α} {i : ι} (hi : i ∈ l) (h : ∀ j, j ≠ i → a ∉ f j) :
    (l.flatMap f).count a = (f i).count a := by
  rcases List.append_of_mem hi with ⟨l₁, l₂, rfl⟩
  have hnodup := List.nodup_middle.1 hl
  rw [List.nodup_cons, List.mem_append, not_or] at hnodup
  have hzero : ∀ l' : List ι, i ∉ l' → (l'.flatMap f).count a = 0 := by
    intro l' hl'
    rw [List.count_eq_zero, List.mem_flatMap]
    intro hgiven
    obtain ⟨j, hj, hmem⟩ := hgiven
    exact h j (ne_of_mem_of_not_mem hj hl') hmem
  rw [List.flatMap_append, List.flatMap_cons, List.count_append, List.count_append,
    hzero l₁ hnodup.1.1, hzero l₂ hnodup.1.2, Nat.zero_add, Nat.add_zero]

omit [DecidableEq W] in
/-- The reaper closes the handle that a record has. -/
theorem db_of_mem_reapConnection {alive : W → Bool} {now : Int} {conn : Connection W} {db : Handle}
    (h : db ∈ (reapConnection alive now conn).2) : conn.db = some db := by
  by_contra hne
  cases hdb : conn.db with
  | none =>
    rw [reapConnection_closes_none hdb] at h
    cases h
  | some db' =>
    have hsub : ∀ db ∈ (reapConnection alive now conn).2, db ∈ conn.db.toList := by
      rw [reapConnection]
      split <;> split_ifs <;> simp [dbCloseConnection, dbZeroConnection]
    have hmem := hsub db h
    rw [hdb, Option.toList_some, List.mem_singleton] at hmem
    exact hne (by rw [hdb, hmem])

/-- The handles that the reaper closes. -/
def reapedHandles (s : Pool.State W) (now : Int) : List Handle :=
  (List.finRange maxConn).flatMap fun i => (reapConnection s.alive now (s.connections i)).2

theorem reapAll_closed_handles (s : Pool.State W) (w : W) (now : Int) :
    (s.reapAll w now).closed.map Prod.fst = s.closed.map Prod.fst ++ reapedHandles s now := by
  rw [reapedHandles]
  show (s.closed ++ _).map Prod.fst = _
  rw [List.map_append, List.map_flatMap]
  refine congrArg _ (List.flatMap_congr fun i _ => ?_)
  rw [List.map_map]
  exact List.map_id' _

/-- A handle that at most the slot `i` has is closed as that slot is. -/
theorem count_reapedHandles {s : Pool.State W} {db : Handle} {i : Slot}
    (h : ∀ j, j ≠ i → (s.connections j).db ≠ some db) (now : Int) :
    (reapedHandles s now).count db =
      (reapConnection s.alive now (s.connections i)).2.count db :=
  count_flatMap_of_ne (List.nodup_finRange _) (List.mem_finRange i)
    fun j hj hmem => h j hj (db_of_mem_reapConnection hmem)

/-- The table before an unnamed request looks for a slot. -/
theorem dbOpenConnection_unnamed {request : Request} (hnamed : request.named = false)
    (start : QueryStart w) (a : Attempt) :
    ∃ db s, dbOpenConnection w request a.handle (pass start.pool a.before) = (db, s) ∧
      s.connections = start.connections ∧ (∀ i, s.serials i = 0) ∧ s.closed = [] ∧
      s.now = start.now + a.before ∧ s.alive w = true ∧
      s.opened.map Prod.fst = db.toList ∧ (db.isSome = true ↔ a.handle = true) ∧
      ∀ h ∈ db, ∀ i, (start.connections i).db ≠ some h := by
  have halive : ∀ s : Pool.State W, s.workers = start.pool.workers → s.alive w = true := by
    intro s hworkers
    have hself : s.workers w = .idle := by
      rw [hworkers]
      exact if_pos start.alive_self
    rw [Pool.State.alive, hself]
    rfl
  rw [dbOpenConnection, hnamed]
  cases a.handle with
  | false => exact ⟨none, _, rfl, rfl, fun _ => rfl, rfl, rfl, halive _ rfl, rfl, by simp, by simp⟩
  | true =>
    refine ⟨some start.nextHandle, _, rfl, rfl, fun _ => rfl, rfl, rfl, halive _ rfl, rfl,
      by simp, ?_⟩
    rintro _ ⟨⟩ i hdb
    exact absurd (start.db_lt i _ hdb) (lt_irrefl _)

omit [DecidableEq W] in
/-- A filled record of an unnamed request. -/
theorem dbPopulateConnection_unnamed {request : Request} (hnamed : request.named = false)
    (db : Option Handle) (path : Option SockPath) (now : Int) (pid : W) :
    (dbPopulateConnection request db path now pid).1.named = false ∧
      (dbPopulateConnection request db path now pid).2.connectionName.isSet = false ∧
      (dbPopulateConnection request db path now pid).2.pid = some pid ∧
      (dbPopulateConnection request db path now pid).2.inUse = 1 ∧
      (dbPopulateConnection request db path now pid).2.db = db ∧
      (dbPopulateConnection request db path now pid).2.tmAccessed = now := by
  have htaken := dbPopulateConnection_taken request db path now pid
    fun h => absurd h (by rw [hnamed]; exact Bool.false_ne_true)
  have hmatch := named_of_dbMatch (dbMatch_populate request db path now pid)
  refine ⟨(named_populate request db path now pid).trans hnamed, hmatch.trans hnamed, htaken.1,
    htaken.2.1, ?_, ?_⟩
  · rw [htaken.2.2.1, hnamed]
    rfl
  · have hset : request.connectionName.isSet = false := hnamed
    cases path <;> simp only [dbPopulateConnection] <;> split <;> simp [Request.named, hset]

omit [DecidableEq W] in
/-- What the reaper makes of the slot of the request that runs it. -/
theorem reapConnection_own {alive : W → Bool} {now : Int} {conn : Connection W}
    (hpid : conn.pid = some w) (halive : alive w = true) (hinUse : conn.inUse = 1) :
    reapConnection alive now conn = if hardExpired conn now then dbCloseConnection conn
      else (conn, []) := by
  have horphaned : orphaned alive conn = false := by
    rw [orphaned, hpid]
    simp [halive]
  have hone : (1 : UInt32) ≠ 0 := by decide
  rw [reapConnection, horphaned]
  simp only [Bool.false_eq_true, if_false, hpid, Option.isNone_some, hinUse, hone, ne_eq,
    not_false_eq_true, if_true]

/-- No slot is free for an unnamed request: its handle is closed at once. -/
theorem givesBack_exhausted {s : Pool.State W} {db : Option Handle} {seconds : Nat} {now : Int}
    (hconnections : s.connections = start.connections) (hserials : ∀ i, s.serials i = 0)
    (hclosed : s.closed = []) (hopened : s.opened.map Prod.fst = db.toList)
    (hfresh : ∀ h ∈ db, ∀ i, (start.connections i).db ≠ some h) :
    GivesBack start
      { pool := (pass (s.logClosed w db.toList) seconds).reapAll w now : QueryState W } := by
  have huntouched : ∀ i, Untouched start (pass (s.logClosed w db.toList) seconds) i := by
    intro i _
    refine ⟨hserials i, ?_⟩
    show (s.connections i).inUse = _
    rw [hconnections]
  refine .of_settled (fun i => ((huntouched i).reapAll now).settled)
    (fun n hn => absurd hn (Nat.not_lt_zero n)) fun p hp => ?_
  have hmem : p.1 ∈ db.toList := by
    rw [← hopened]
    exact List.mem_map_of_mem hp
  rw [Option.mem_toList] at hmem
  have hcount : (reapedHandles (pass (s.logClosed w db.toList) seconds) now).count p.1 = 0 := by
    rw [List.count_eq_zero, reapedHandles, List.mem_flatMap]
    intro hgiven
    obtain ⟨i, -, hreaped⟩ := hgiven
    have hdb : (s.connections i).db = some p.1 := db_of_mem_reapConnection hreaped
    rw [hconnections] at hdb
    exact hfresh _ hmem i hdb
  rw [reapAll_closed_handles, List.count_append, hcount]
  show ((s.closed ++ db.toList.map fun h => (h, s.process w)).map Prod.fst).count p.1 + 0 = 1
  rw [hclosed, Option.mem_def.1 hmem]
  simp

/-- The table after the slot `i` was filled for an unnamed request, with the handle `db`. -/
structure UnnamedFilled (start : QueryStart w) (i : Slot) (db : Option Handle) (since : Int)
    (filled : Pool.State W) : Prop where
  pid : (filled.connections i).pid = some w
  inUse : (filled.connections i).inUse = 1
  name : (filled.connections i).connectionName.isSet = false
  handle : (filled.connections i).db = db
  accessed : (filled.connections i).tmAccessed = since
  others : ∀ j, j ≠ i → filled.connections j = start.connections j
  serials : ∀ j, j ≠ i → filled.serials j = 0
  alive : filled.alive w = true
  closed : filled.closed = []
  opened : filled.opened.map Prod.fst = db.toList

theorem unnamedFilled_populate {request : Request} (hnamed : request.named = false)
    {s : Pool.State W} {db : Option Handle} (path : Option SockPath) (waited : Nat) (i : Slot)
    (hconnections : s.connections = start.connections) (hserials : ∀ j, s.serials j = 0)
    (hclosed : s.closed = []) (halive : s.alive w = true)
    (hopened : s.opened.map Prod.fst = db.toList) :
    UnnamedFilled start i db s.now (pass (s.populate w i request db path) waited) := by
  have hself : (pass (s.populate w i request db path) waited).connections i =
      { (dbPopulateConnection request db path s.now w).2 with slot := i } :=
    Pool.State.populate_self s w i request db path
  rcases dbPopulateConnection_unnamed hnamed db path s.now w with
    ⟨-, hname, hpid, hinUse, hdb, haccessed⟩
  refine ⟨?_, ?_, ?_, ?_, ?_, fun j hj => ?_, fun j hj => ?_, halive, hclosed, hopened⟩
  · rw [hself]
    exact hpid
  · rw [hself]
    exact hinUse
  · rw [hself]
    exact hname
  · rw [hself]
    exact hdb
  · rw [hself]
    exact haccessed
  · rw [← hconnections]
    exact Pool.State.populate_of_ne s w hj request db path
  · exact (update_of_ne hj _ _).trans (hserials j)

namespace UnnamedFilled

variable {i : Slot} {db : Option Handle} {since : Int} {filled : Pool.State W}

/-- The reaper closes the slot if its hard timeout is over. -/
theorem reap (h : UnnamedFilled start i db since filled) (now : Int) :
    reapConnection filled.alive now (filled.connections i) =
      if hardExpired (filled.connections i) now then dbCloseConnection (filled.connections i)
      else (filled.connections i, []) :=
  reapConnection_own h.pid h.alive h.inUse

/-- Closed or not, the slot keeps its handle and has no name. -/
theorem reaped (h : UnnamedFilled start i db since filled) (now : Int) :
    ((filled.reapAll w now).connections i).connectionName.isSet = false ∧
      ((filled.reapAll w now).connections i).db = db := by
  have hleft : (filled.reapAll w now).connections i =
      (reapConnection filled.alive now (filled.connections i)).1 := rfl
  rw [hleft, h.reap now]
  split
  · exact ⟨rfl, h.handle⟩
  · exact ⟨h.name, h.handle⟩

/-- The end of the request frees the slot and closes its handle. -/
theorem freed (h : UnnamedFilled start i db since filled) (now : Int) (seconds : Nat) :
    ((releaseSlot w i (pass (filled.reapAll w now) seconds)).connections i).pid = none ∧
      (releaseSlot w i (pass (filled.reapAll w now) seconds)).closed.map Prod.fst =
        reapedHandles filled now ++ db.toList := by
  rcases dbFreeConnection_unnamed (h.reaped now).1 (pass (filled.reapAll w now) seconds).now with
    ⟨hpid, hgiven⟩
  have hlog : (releaseSlot w i (pass (filled.reapAll w now) seconds)).closed =
      (filled.reapAll w now).closed ++
        ((filled.reapAll w now).connections i).db.toList.map
          fun h => (h, (filled.reapAll w now).process w) := by
    rw [← hgiven]
    rfl
  have hhandles : ∀ (l : List Handle) (p : Pool.Process W),
      (l.map fun h => (h, p)).map Prod.fst = l := by
    intro l p
    rw [List.map_map]
    exact List.map_id' _
  constructor
  · have hfinal : (releaseSlot w i (pass (filled.reapAll w now) seconds)).connections i =
        (dbFreeConnection { (filled.reapAll w now).connections i with
          tmAccessed := (pass (filled.reapAll w now) seconds).now }).1 :=
      Pool.State.setConnection_self _ i _
    rw [hfinal]
    exact hpid
  · rw [hlog, (h.reaped now).2, List.map_append, hhandles, reapAll_closed_handles, h.closed,
      List.map_nil, List.nil_append]

theorem settled (h : UnnamedFilled start i db since filled) (now : Int) (seconds : Nat)
    (j : Slot) : Settled start (releaseSlot w i (pass (filled.reapAll w now) seconds)) j := by
  by_cases hj : j = i
  · intro hpid
    rw [hj] at hpid
    exact absurd (h.freed now seconds).1 hpid
  · have huntouched : Untouched start filled j := by
      intro _
      rw [h.others j hj]
      exact ⟨h.serials j hj, rfl⟩
    have hlater : Untouched start (pass (filled.reapAll w now) seconds) j :=
      huntouched.reapAll now
    exact hlater.settled.releaseSlot_of_ne hj

/-- The handle is closed once more if the reaper has closed the slot. -/
theorem count_closed (h : UnnamedFilled start i db since filled) (now : Int) (seconds : Nat)
    (hfresh : ∀ h ∈ db, ∀ j, (start.connections j).db ≠ some h) {handle : Handle}
    (hdb : handle ∈ db) :
    ((releaseSlot w i (pass (filled.reapAll w now) seconds)).closed.map Prod.fst).count handle =
      (if hardExpired (filled.connections i) now then 1 else 0) + 1 := by
  have hothers : ∀ j, j ≠ i → (filled.connections j).db ≠ some handle := by
    intro j hj
    rw [h.others j hj]
    exact hfresh handle hdb j
  rw [(h.freed now seconds).2, List.count_append, count_reapedHandles hothers, h.reap now,
    Option.mem_def.1 hdb, Option.toList_some, List.count_singleton_self]
  refine congrArg (· + 1) ?_
  split
  · rw [dbCloseConnection, h.handle, Option.mem_def.1 hdb, Option.toList_some,
      List.count_singleton_self]
  · rfl

end UnnamedFilled

/-- A slot is filled for an unnamed request and closed at the end.  The handle is closed twice
if the reaper has closed the slot before. -/
theorem givesBack_unnamed_iff {request : Request} (hnamed : request.named = false)
    {s : Pool.State W} {db : Option Handle} {a : Attempt} (path : Option SockPath) (i : Slot)
    (seconds : Nat)
    (hconnections : s.connections = start.connections) (hserials : ∀ j, s.serials j = 0)
    (hclosed : s.closed = []) (hnow : s.now = start.now + a.before) (halive : s.alive w = true)
    (hopened : s.opened.map Prod.fst = db.toList)
    (hfresh : ∀ h ∈ db, ∀ j, (start.connections j).db ≠ some h) :
    GivesBack start
        { pool := releaseSlot w i
            (pass ((pass (s.populate w i request db path) a.waited).reapAll w
              (s.now + a.waited)) seconds) : QueryState W } ↔
      ∀ h ∈ db, ¬Overdue start a := by
  have hfilled : UnnamedFilled start i db s.now
      (pass (s.populate w i request db path) a.waited) :=
    unnamedFilled_populate hnamed path a.waited i hconnections hserials hclosed halive hopened
  generalize pass (s.populate w i request db path) a.waited = filled at hfilled ⊢
  have hexpired : hardExpired (filled.connections i) (s.now + a.waited) = true ↔
      Overdue start a := by
    rw [hardExpired, decide_eq_true_iff, Overdue, ← hnow, hfilled.accessed]
  have hcount := fun (h : Handle) (hh : h ∈ db) =>
    hfilled.count_closed (s.now + a.waited) seconds hfresh hh
  have hopenedEq : (releaseSlot w i (pass (filled.reapAll w (s.now + a.waited)) seconds)).opened.map
      Prod.fst = db.toList := hfilled.opened
  constructor
  · intro h db' hdb' hover
    have hmem : db' ∈ (releaseSlot w i (pass (filled.reapAll w (s.now + a.waited))
        seconds)).opened.map Prod.fst := by
      rw [hopenedEq]
      exact Option.mem_toList.2 hdb'
    rcases List.mem_map.1 hmem with ⟨p, hp, heq⟩
    have hone := h.handles p hp
    rw [heq, hcount db' hdb', if_pos (hexpired.2 hover)] at hone
    cases hone
  · intro h
    refine .of_settled (hfilled.settled _ seconds) (fun n hn => absurd hn (Nat.not_lt_zero n))
      fun p hp => ?_
    have hmem : p.1 ∈ db := Option.mem_toList.1 (hopenedEq ▸ List.mem_map_of_mem hp)
    show ((releaseSlot w i (pass (filled.reapAll w (s.now + a.waited))
      seconds)).closed.map Prod.fst).count p.1 = 1
    rw [hcount _ hmem, if_neg fun hover => h _ hmem (hexpired.1 hover)]

/-- The loop makes one round for an unnamed request, and connects to no socket. -/
theorem waitForConnection_unnamed {attempts : List Attempt} {request : Request} {s : QueryState W}
    (hnamed : request.named = false) {request' : Request} {conn : Option (Slot × Nat)}
    {s' : QueryState W} (h : waitForConnection w attempts request s = some (request', conn, s')) :
    ∃ a, attempts = [a] ∧ ∃ db opened,
      dbOpenConnection w request a.handle (pass s.pool a.before) = (db, opened) ∧
      (conn = none ∧ s' = { s with
          pool := (pass (opened.logClosed w db.toList) a.waited).reapAll w
            (opened.now + a.waited) } ∨
        ∃ i, conn = some (i, 0) ∧ request'.named = false ∧ s' = { s with
          pool := (pass (opened.populate w i request db none) a.waited).reapAll w
            (opened.now + a.waited) }) := by
  cases attempts with
  | nil => cases h
  | cons a rest =>
    rcases hopen : dbOpenConnection w request a.handle (pass s.pool a.before) with ⟨db, opened⟩
    have hpath := newSockPath_unnamed hnamed a.tmpnam
    unfold waitForConnection at h
    cases hfree : firstFree opened.connections with
    | none =>
      have halloc := dbAllocConnection_none hopen hfree
      simp only [dbGetConnection, hnamed, Bool.false_eq_true, if_false, halloc, Option.map_some,
        Option.ite_none_right_eq_some] at h
      rcases h with ⟨hempty, heq⟩
      cases heq
      exact ⟨a, by rw [List.isEmpty_iff.1 hempty], db, opened, hopen, .inl ⟨rfl, rfl⟩⟩
    | some i =>
      have halloc := dbAllocConnection_some hopen hfree
      have hnamed' := (named_populate request db none opened.now w).trans hnamed
      simp only [dbGetConnection, hnamed, Bool.false_eq_true, if_false, halloc, hpath,
        Option.map_some, hnamed', Option.ite_none_right_eq_some] at h
      rcases h with ⟨hempty, heq⟩
      cases heq
      exact ⟨a, by rw [List.isEmpty_iff.1 hempty], db, opened, hopen,
        .inr ⟨i, rfl, hnamed', rfl⟩⟩

/-! ## The call -/

/-- The steps that lose nothing.  No attempt of a named request to connect is refused, its
connector starts, and the exchange does not break.  The slot of an unnamed request that has
a handle does not become overdue before the reaper looks. -/
def LosesNothing (start : QueryStart w) (request : Request) (attempts : List Attempt)
    (answers : Answers) : Prop :=
  if request.named then
    (∀ a ∈ attempts.dropLast, a.connect ≠ .refused) ∧
      (answers.connection = true → answers.helperPid ≠ none ∧ answers.haveError ≠ 2)
  else answers.connection = true → ∀ a ∈ attempts, a.handle = true → ¬Overdue start a

theorem refusals_eq_zero_iff {attempts : List Attempt} :
    refusals attempts = 0 ↔ ∀ a ∈ attempts.dropLast, a.connect ≠ .refused := by
  rw [refusals, List.countP_eq_zero]
  simp only [decide_eq_true_iff, ne_eq]

omit [DecidableEq W] in
theorem QueryStart.untouched (start : QueryStart w) (i : Slot) : Untouched start start.pool i :=
  fun _ => ⟨rfl, rfl⟩

/-- The call gives back what it took exactly if its steps lose nothing.  A request that is
not checked takes nothing. -/
theorem dbRunQuery_givesBack_iff {magic : CString} {request : Request} {attempts : List Attempt}
    {answers : Answers} {seconds : Nat} {ret : List UInt8} {s : QueryState W}
    (hrun : dbRunQuery w magic request attempts answers seconds start = some (ret, s)) :
    GivesBack start s ↔
      (checkRequest request = true → LosesNothing start request attempts answers) := by
  rw [dbRunQuery, Option.bind_eq_some_iff] at hrun
  rcases hrun with ⟨text, -, hrun⟩
  cases hcheck : checkRequest request with
  | false =>
    rw [hcheck] at hrun
    cases hrun
    refine iff_of_true ?_ fun h => absurd h Bool.false_ne_true
    exact .of_settled (fun i => (start.untouched i).settled)
      (fun n hn => absurd hn (Nat.not_lt_zero n)) fun p hp => absurd hp List.not_mem_nil
  | true =>
    simp only [hcheck, Bool.not_true, Bool.false_eq_true, if_false,
      Option.bind_eq_some_iff] at hrun
    rcases hrun with ⟨⟨request', conn, s₁⟩, hwait, hrun⟩
    simp only [Option.ite_none_right_eq_some] at hrun
    rcases hrun with ⟨hconn, hrun⟩
    simp only [true_implies]
    cases hnamed : request.named with
    | true =>
      rcases waitForConnection_named hnamed start.untouched rfl rfl hwait with ⟨hnamed', hwaited⟩
      rw [Nat.zero_add] at hwaited
      rw [LosesNothing, if_pos hnamed, ← refusals_eq_zero_iff, ← hconn]
      cases hwaited with
      | failed huntouched hopened hclosed hsockets =>
        cases hrun
        simp only [Option.isSome_none, Bool.false_eq_true, false_implies, and_true]
        exact givesBack_noConnection huntouched hopened hclosed hsockets
      | connected huntouched htaken hopened hclosed hsockets =>
        cases hrun
        simp only [Option.isSome_some, true_implies]
        exact useConnection_named hnamed' huntouched htaken hopened hsockets hclosed answers seconds
    | false =>
      rcases waitForConnection_unnamed hnamed hwait with ⟨a, rfl, db, opened, hopen, hend⟩
      rcases dbOpenConnection_unnamed hnamed start a with
        ⟨db', opened', hopen', hconnections, hserials, hnoneClosed, hnow, halive, hlog, hhandle,
          hfresh⟩
      cases hopen'.symm.trans hopen
      simp only [LosesNothing, hnamed, Bool.false_eq_true, if_false, List.mem_singleton,
        forall_eq, ← hconn]
      rcases hend with ⟨rfl, rfl⟩ | ⟨i, rfl, hnamed', rfl⟩
      · cases hrun
        refine iff_of_true ?_ fun h => absurd h Bool.false_ne_true
        exact givesBack_exhausted hconnections hserials hnoneClosed hlog hfresh
      · cases hrun
        simp only [useConnection, hnamed', Bool.false_eq_true, if_false, Option.isSome_some,
          true_implies]
        rw [givesBack_unnamed_iff hnamed none i seconds hconnections hserials hnoneClosed hnow
          halive hlog hfresh, ← hhandle]
        exact ⟨fun h hsome => h _ (Option.get_mem hsome),
          fun h db hdb => h (Option.isSome_of_mem hdb)⟩

/-- A request of one worker to an empty table. -/
def firstStart : QueryStart () where
  connections _ := {}
  now := 0
  alive _ := true
  alive_self := rfl
  nextHandle := 0
  db_lt _ _ h := by cases h

def pooledRequest : Request where
  sqlServer := copyString (ascii "db")
  sqlUser := copyString (ascii "u")
  sql := some (.ofBytes (ascii "select 1"))
  connectionName := copyString (ascii "pool")

def firstAttempt : Attempt where
  tmpnam := some Pool.firstPath

theorem givesBack_success :
    ∃ ret s, dbRunQuery () .empty pooledRequest [firstAttempt]
        { connection := true, helperPid := some 7 } 1 firstStart = some (ret, s) ∧
      GivesBack firstStart s := by
  have hrun : (dbRunQuery () .empty pooledRequest [firstAttempt]
      { connection := true, helperPid := some 7 } 1 firstStart).isSome = true := by
    decide +kernel
  rcases Option.isSome_iff_exists.1 hrun with ⟨⟨ret, s⟩, hsome⟩
  refine ⟨ret, s, hsome, (dbRunQuery_givesBack_iff hsome).2 fun _ => ?_⟩
  have hnamed : pooledRequest.named = true := by decide
  rw [LosesNothing, if_pos hnamed]
  exact ⟨by simp, fun _ => ⟨by simp, by decide⟩⟩

/-- The connector does not start.  The socket stays open. -/
theorem not_givesBack_noConnector :
    ∃ ret s, dbRunQuery () .empty pooledRequest [firstAttempt] { connection := true } 1
        firstStart = some (ret, s) ∧ ¬GivesBack firstStart s := by
  have hrun : (dbRunQuery () .empty pooledRequest [firstAttempt] { connection := true } 1
      firstStart).map (fun p => (p.2.sockets, p.2.closedSockets)) = some (1, []) := by
    decide +kernel
  rcases Option.map_eq_some_iff.1 hrun with ⟨⟨ret, s⟩, hsome, heq⟩
  rcases Prod.mk.inj heq with ⟨hsockets, hclosed⟩
  refine ⟨ret, s, hsome, fun h => ?_⟩
  have hone := h.sockets 0 (by rw [hsockets]; exact Nat.zero_lt_one)
  rw [hclosed] at hone
  cases hone

end DbRelay
