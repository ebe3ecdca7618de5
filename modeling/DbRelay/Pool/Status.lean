import DbRelay.Pool.Isolation
import DbRelay.Json.RoundTrip

/-!
# The status of the pool

`dbrelay_db_status` writes the connection table as JSON, in one section of the table.

`ShownConnection` is what the text should tell of a record: everything but the password and
the database handle.  The rest of the table, the records of free slots, should not be seen.

* `parse_dbStatus`: the text is JSON that stands for the shown records.
* `dbStatus_eq_iff`: two tables have one text exactly if they show the same records.
* `dbStatus_of_undisturbed`: the status of a pool lists each occupied slot once, under its
  own number, and counts no fewer users than the slot has.

`localtime` and `strftime` are not part of the source, and a `pid_t` is printed as a
number.  Both are the argument `Formats`.
-/

namespace DbRelay

open JsonWriter Json Decimal

variable {W : Type}

/-- How `sprintf` and `strftime` print what the model keeps abstract. -/
structure Formats (W : Type) where
  pid : W → Nat
  localTime : Int → CString

/-! ## The source -/

/-- The loop body of `dbrelay_db_status` for an occupied slot. -/
def addConnection (f : Formats W) (conn : Connection W) (pid : W) (json : JsonWriter) :
    JsonWriter :=
  let json := json.newObject
  let json := json.addNumber (ascii "slot") (decimal conn.slot)
  let json := json.addNumber (ascii "pid") (decimal (f.pid pid))
  let json := json.addString (ascii "name") conn.connectionName.bytes
  let json := json.addString (ascii "tm_created") (f.localTime conn.tmCreate).bytes
  let json := json.addString (ascii "tm_accessed") (f.localTime conn.tmAccessed).bytes
  let json := json.addString (ascii "sql_server") conn.sqlServer.bytes
  let json := json.addString (ascii "sql_port") conn.sqlPort.bytes
  let json := json.addString (ascii "sql_database") conn.sqlDatabase.bytes
  let json := json.addString (ascii "sql_user") conn.sqlUser.bytes
  let json := json.addNumber (ascii "connection_timeout")
    (decimalInt conn.connectionTimeout.toInt)
  let json := json.addNumber (ascii "in_use") (decimal conn.inUse.toNat)
  let json := json.addString (ascii "sock_path") conn.sockPath.bytes
  let json := json.addNumber (ascii "helper_pid") (decimal conn.helperPid)
  json.endObject

/-- The loop over the slots. -/
def addConnections (f : Formats W) (connections : Table W) (json : JsonWriter) :
    List Slot → JsonWriter
  | [] => json
  | i :: slots =>
    match (connections i).pid with
    | some pid => addConnections f connections (addConnection f (connections i) pid json) slots
    | none => addConnections f connections json slots

/-- `dbrelay_db_status`. -/
def dbStatus (f : Formats W) (build ipcKey : CString) (connections : Table W) : List UInt8 :=
  let json := (JsonWriter.new false).newObject
  let json := (json.addKey (ascii "status")).newObject
  let json := (json.addKey (ascii "info")).newObject
  let json := json.addString (ascii "build") build.bytes
  let json := (json.addString (ascii "ipckey") ipcKey.bytes).endObject
  let json := (json.addKey (ascii "connections")).newArray
  let json := addConnections f connections json (List.finRange maxConn)
  json.endArray.endObject.endObject.toString

/-! ## What it should tell -/

/-- What the status tells of a record. -/
@[ext]
structure ShownConnection where
  slot : Nat
  pid : Nat
  connectionName : CharBuf nameSz
  tmCreate : CString
  tmAccessed : CString
  sqlServer : CharBuf nameSz
  sqlPort : CharBuf portSz
  sqlDatabase : CharBuf objSz
  sqlUser : CharBuf objSz
  connectionTimeout : Int64
  inUse : UInt32
  sockPath : SockPath
  helperPid : Nat
  deriving DecidableEq

def Connection.shown (f : Formats W) (conn : Connection W) (pid : W) : ShownConnection where
  slot := conn.slot
  pid := f.pid pid
  connectionName := conn.connectionName
  tmCreate := f.localTime conn.tmCreate
  tmAccessed := f.localTime conn.tmAccessed
  sqlServer := conn.sqlServer
  sqlPort := conn.sqlPort
  sqlDatabase := conn.sqlDatabase
  sqlUser := conn.sqlUser
  connectionTimeout := conn.connectionTimeout
  inUse := conn.inUse
  sockPath := conn.sockPath
  helperPid := conn.helperPid

/-- The shown records of some slots. -/
def shownAt (f : Formats W) (connections : Table W) (slots : List Slot) : List ShownConnection :=
  slots.filterMap fun i => (connections i).pid.map (connections i |>.shown f)

/-- The shown records of a table. -/
def shownIn (f : Formats W) (connections : Table W) : List ShownConnection :=
  shownAt f connections (List.finRange maxConn)

/-! ## The tree -/

def ShownConnection.tree (r : ShownConnection) : Tree :=
  .object <|
    .cons (ascii "slot") (.number (decimal r.slot)) <|
    .cons (ascii "pid") (.number (decimal r.pid)) <|
    .cons (ascii "name") (.string r.connectionName.bytes) <|
    .cons (ascii "tm_created") (.string r.tmCreate.bytes) <|
    .cons (ascii "tm_accessed") (.string r.tmAccessed.bytes) <|
    .cons (ascii "sql_server") (.string r.sqlServer.bytes) <|
    .cons (ascii "sql_port") (.string r.sqlPort.bytes) <|
    .cons (ascii "sql_database") (.string r.sqlDatabase.bytes) <|
    .cons (ascii "sql_user") (.string r.sqlUser.bytes) <|
    .cons (ascii "connection_timeout") (.number (decimalInt r.connectionTimeout.toInt)) <|
    .cons (ascii "in_use") (.number (decimal r.inUse.toNat)) <|
    .cons (ascii "sock_path") (.string r.sockPath.bytes) <|
    .cons (ascii "helper_pid") (.number (decimal r.helperPid)) .nil

def shownItems : List ShownConnection → Items
  | [] => .nil
  | r :: rs => .cons r.tree (shownItems rs)

def statusTree (build ipcKey : CString) (rs : List ShownConnection) : Tree :=
  .object <| .cons (ascii "status")
    (.tree <| .object <|
      .cons (ascii "info")
        (.tree <| .object <|
          .cons (ascii "build") (.string build.bytes) <|
          .cons (ascii "ipckey") (.string ipcKey.bytes) .nil) <|
      .cons (ascii "connections") (.tree <| .array (shownItems rs)) .nil) .nil

theorem addConnections_eq (f : Formats W) (connections : Table W) (slots : List Slot)
    (json : JsonWriter) :
    addConnections f connections json slots =
      json.run (shownItems (shownAt f connections slots)).calls := by
  induction slots generalizing json with
  | nil => rfl
  | cons i slots ih =>
    rw [addConnections, shownAt, List.filterMap_cons]
    cases hpid : (connections i).pid with
    | none => exact ih json
    | some pid =>
      rw [Option.map_some, shownItems, Items.calls, run_append]
      exact ih (addConnection f (connections i) pid json)

theorem dbStatus_eq (f : Formats W) (build ipcKey : CString) (connections : Table W) :
    dbStatus f build ipcKey connections =
      ((JsonWriter.new false).run
        (statusTree build ipcKey (shownIn f connections)).calls).toString := by
  rw [dbStatus, addConnections_eq, ← shownIn]
  simp only [statusTree, Tree.calls, Members.calls, Member.calls, run_cons, run_append,
    List.append_nil, List.cons_append, List.append_assoc]
  rfl

/-! ## The round trip -/

theorem isNumber_decimal (n : Nat) : isNumber (decimal n) = true := by
  rw [← decimalInt_natCast]
  exact isNumber_decimalInt n

theorem ShownConnection.wellFormed_tree (r : ShownConnection) : r.tree.WellFormed .bytes := by
  refine ⟨by decide, isNumber_decimal _, by decide, isNumber_decimal _, by decide, trivial,
    by decide, trivial, by decide, trivial, by decide, trivial, by decide, trivial, by decide,
    trivial, by decide, trivial, by decide, isNumber_decimalInt _, by decide,
    isNumber_decimal _, by decide, trivial, by decide, isNumber_decimal _, trivial⟩

theorem wellFormed_shownItems (rs : List ShownConnection) : (shownItems rs).WellFormed .bytes := by
  induction rs with
  | nil => exact trivial
  | cons r rs ih => exact ⟨r.wellFormed_tree, ih⟩

theorem wellFormed_statusTree (build ipcKey : CString) (rs : List ShownConnection) :
    (statusTree build ipcKey rs).WellFormed .bytes :=
  ⟨by decide, ⟨by decide, ⟨by decide, trivial, by decide, trivial, trivial⟩, by decide,
    wellFormed_shownItems rs, trivial⟩, trivial⟩

/-- A client reads the shown records. -/
theorem parse_dbStatus (f : Formats W) (build ipcKey : CString) (connections : Table W) :
    parse .bytes (dbStatus f build ipcKey connections) =
      some (statusTree build ipcKey (shownIn f connections)).toJson := by
  rw [dbStatus_eq]
  exact (parse_run_calls ⟨_, wellFormed_statusTree build ipcKey _⟩ false).2

theorem codeUnits_injective : Function.Injective codeUnits :=
  List.map_injective_iff.2 toUInt16_injective

/-- A record can be read back from its object. -/
theorem ShownConnection.tree_injective {r r' : ShownConnection}
    (h : r.tree.toJson = r'.tree.toJson) : r = r' := by
  simp only [ShownConnection.tree, Tree.toJson, Members.toJson, Member.toJson, Value.object.injEq,
    List.cons.injEq, Prod.mk.injEq, true_and, and_true, Value.number.injEq,
    Value.string.injEq, decimal_injective.eq_iff, decimalInt_injective.eq_iff,
    codeUnits_injective.eq_iff] at h
  obtain ⟨hslot, hpid, hname, hcreate, haccessed, hserver, hport, hdatabase, huser, htimeout,
    hinUse, hpath, hhelper⟩ := h
  exact ShownConnection.ext hslot hpid (CharBuf.ext' hname) (CString.ext' hcreate)
    (CString.ext' haccessed) (CharBuf.ext' hserver) (CharBuf.ext' hport)
    (CharBuf.ext' hdatabase) (CharBuf.ext' huser) (Int64.toInt_inj.1 htimeout)
    (UInt32.toNat_inj.1 hinUse) (CharBuf.ext' hpath) hhelper

theorem shownItems_toJson (rs : List ShownConnection) :
    (shownItems rs).toJson = rs.map fun r => r.tree.toJson := by
  induction rs with
  | nil => rfl
  | cons r rs ih => rw [shownItems, Items.toJson, ih, List.map_cons]

theorem statusTree_injective {build ipcKey : CString} {rs rs' : List ShownConnection}
    (h : (statusTree build ipcKey rs).toJson = (statusTree build ipcKey rs').toJson) :
    rs = rs' := by
  simp only [statusTree, Tree.toJson, Members.toJson, Member.toJson, Value.object.injEq,
    List.cons.injEq, Prod.mk.injEq, true_and, and_true, Value.array.injEq,
    shownItems_toJson] at h
  exact List.map_injective_iff.2 (fun _ _ => ShownConnection.tree_injective) h

/-- The status of a table tells the shown records, and nothing else of the table. -/
theorem dbStatus_eq_iff (f : Formats W) (build ipcKey : CString)
    (connections connections' : Table W) :
    dbStatus f build ipcKey connections = dbStatus f build ipcKey connections' ↔
      shownIn f connections = shownIn f connections' := by
  constructor
  · intro h
    have hparse := parse_dbStatus f build ipcKey connections
    rw [h, parse_dbStatus, Option.some.injEq] at hparse
    exact (statusTree_injective hparse).symm
  · intro h
    rw [dbStatus_eq, dbStatus_eq, h]

namespace Pool

open StepSystem Function

/-! ## The status of a pool -/

/-- An occupied slot has its own number. -/
def Numbered (s : State W) : Prop :=
  ∀ i, (s.connections i).pid ≠ none → (s.connections i).slot = i

theorem numbered_setConnection [DecidableEq W] {s : State W} (hs : Numbered s) {i : Slot}
    {conn : Connection W} (hconn : conn.pid ≠ none → conn.slot = i) :
    Numbered (s.setConnection i conn) := by
  intro j hj
  by_cases hij : j = i
  · subst hij
    simp only [State.setConnection, update_self] at hj ⊢
    exact hconn hj
  · simp only [State.setConnection, update_of_ne hij] at hj ⊢
    exact hs j hj

theorem numbered_step [DecidableEq W] {s s' : State W} {e : Event W} (hs : Numbered s)
    (h : step s e = some s') : Numbered s' := by
  cases stepRel_of_step h with
  | move w hcarries => exact hs
  | spawn w hphase => exact hs
  | tick seconds => exact hs
  | find w hphase hnamed hfind =>
    exact numbered_setConnection hs fun _ => hs _ (dbFindSlot_some hfind).1
  | openConnection w hphase hnamed => exact hs
  | alloc w hphase hpath hfree => exact numbered_setConnection hs fun _ => rfl
  | exhausted w hphase hfree => exact hs
  | reap w hphase hcarries =>
    intro i hi
    simp only [State.setPhase, State.reapAll] at hi ⊢
    have hkept := reapConnection_of_pid hi
    rw [hkept] at hi ⊢
    exact hs i hi
  | copy w hphase hheld hrequest hcopied hpending => exact hs
  | cleanup w hphase => exact numbered_setConnection hs fun hpid => absurd rfl hpid
  | setHelper w hphase => exact numbered_setConnection hs fun hpid => hs _ hpid
  | release w hphase =>
    rename_i request held
    refine numbered_setConnection hs fun hpid => ?_
    have hslot : ∀ conn : Connection W, (dbFreeConnection conn).1.slot = conn.slot := by
      intro conn
      rw [dbFreeConnection]
      split <;> rfl
    rw [hslot]
    refine hs _ fun hfree => hpid ?_
    rw [dbFreeConnection]
    split
    · exact hfree
    · rfl
  | adminClose w hphase => exact numbered_setConnection hs fun hpid => absurd rfl hpid

theorem slot_shownAt (f : Formats W) {s : State W} (hs : Numbered s) (slots : List Slot) :
    (shownAt f s.connections slots).map ShownConnection.slot =
      (slots.filter fun i => (s.connections i).pid.isSome).map Fin.val := by
  induction slots with
  | nil => rfl
  | cons i slots ih =>
    rw [shownAt, List.filterMap_cons, List.filter_cons]
    cases hpid : (s.connections i).pid with
    | none => exact ih
    | some pid =>
      have hslot : (s.connections i).slot = i := hs i (by simp [hpid])
      simp only [Option.map_some, List.map_cons, Option.isSome_some, if_true]
      exact congrArg₂ List.cons hslot ih

theorem exists_shown (f : Formats W) {connections : Table W} {i : Slot}
    (hi : (connections i).pid ≠ none) :
    ∃ pid, (connections i).shown f pid ∈ shownIn f connections := by
  obtain ⟨pid, hpid⟩ := Option.ne_none_iff_exists'.1 hi
  refine ⟨pid, List.mem_filterMap.2 ⟨i, List.mem_finRange i, ?_⟩⟩
  rw [hpid, Option.map_some]

variable [Fintype W] [DecidableEq W]

/-- The status lists what it should: a client reads one record for each occupied slot, in
the order of the slots, and each slot that a request holds has one that counts the request. -/
def StatusSound (f : Formats W) (build ipcKey : CString) (s : State W) : Prop :=
  ∃ rs, parse .bytes (dbStatus f build ipcKey s.connections) =
      some (statusTree build ipcKey rs).toJson ∧
    rs.map ShownConnection.slot = ((List.finRange maxConn).filter fun i =>
      (s.connections i).pid.isSome).map Fin.val ∧
    ∀ w held, (s.workers w).held = some held →
      ∃ r ∈ rs, r.slot = held.slot ∧ holders s held.slot ≤ r.inUse.toNat

theorem dbStatus_of_undisturbed (f : Formats W) (build ipcKey : CString) (now : Int)
    {es : List (Event W)}
    (h : AllSteps step (fun s e => undisturbed s e = true) (initial now) es) :
    AllStates step (StatusSound f build ipcKey) (initial now) es := by
  have hboth : AllStates step (fun s : State W => Consistent s ∧ Numbered s) (initial now) es := by
    refine allStates_of_step ?_ ⟨consistent_initial now, fun i hi => absurd rfl hi⟩ h
    intro s e s' hs hguard hstep
    exact ⟨consistent_step hs.1 hguard hstep, numbered_step hs.2 hstep⟩
  refine hboth.mono fun s hs => ?_
  refine ⟨shownIn f s.connections, parse_dbStatus f build ipcKey _, slot_shownAt f hs.2 _, ?_⟩
  intro w held hheld
  obtain ⟨request, hholding⟩ := exists_holding hheld
  have hpid := (hs.1.backed w request held hholding).occupied.1
  obtain ⟨pid, hshown⟩ := exists_shown f hpid
  exact ⟨_, hshown, hs.2 _ hpid, hs.1.counted _ hpid⟩

/-- Two requests share a slot. -/
theorem statusSound_sharedSlot :
    AllStates step (StatusSound ⟨Fin.val, fun _ => .empty⟩ .empty .empty) (initial 0)
      sharedSlot :=
  dbStatus_of_undisturbed _ _ _ 0 (by decide +kernel)

end Pool

end DbRelay
