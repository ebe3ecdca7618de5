import DbRelay.Db.Mssql
import DbRelay.Query.CurrentDatabase

/-!
# Sessions on a heap

`dbrelay_exec_query` over the calls of the backend for DB-Library, and what a process does with
it: it opens a connection, runs queries on it, closes it and goes on with the next one.

* `execQuery_refines` and `execQuery_ends`: a query on the heap against `serveQuery` on lists.
* `serveConnections_ends_iff`: the same for any number of connections.  What is proved about
  the functions on lists holds for the calls, as far as the calls come to an end.
* `serveConnections_leaves`: after any number of connections no `Block` is left, but for one
  `LOGINREC` for each login that failed.  The texts of the commands of a transaction are no
  `Block`: they stay too, and are not counted.
-/

namespace DbRelay

/-- Queries on one connection, one after another. -/
def serveQueries {T : Type} (api : DbApi T) (stale : CString) (outcomes : Outcomes T) :
    MssqlDb T → List DbQuery → Option (List (Option (List UInt8)) × MssqlDb T)
  | db, [] => some ([], db)
  | db, query :: queries =>
    (serveQuery api stale outcomes db query).bind fun (ret, db) =>
      (serveQueries api stale outcomes db queries).map fun (rets, db) => (ret :: rets, db)

namespace Mssql

/-! ## The queries of a connection -/

section Session

variable (fresh : (size : Nat) → CArray size) (stale : CString)
  (answers : List DbCommand → Answer)

/-- The outcomes, as the functions on lists take them. -/
abbrev outcomes : Outcomes SybType := fun sent => (answers sent).outcome

/-- What `dbrelay_exec_query` sends before the SQL text. -/
def begun (s : State) (query : DbQuery) : State :=
  let s := (exec answers s (.use query.database)).2
  if query.flags &&& flagXact ≠ 0 then (exec answers s .beginTran).2 else s

/-- `dbrelay_exec_query`. -/
def execQuery (fuel : Nat) (s : State) (query : DbQuery) :
    Option (Option (List UInt8) × State) :=
  let mode := if query.flags &&& flagEmbedcsv ≠ 0 then .csv else .std
  let json := (JsonWriter.new (decide (query.flags &&& flagPp ≠ 0))).setMode mode
  let (ok, s) := exec answers (begun answers s query) (.batch query.sql)
  if ok then
    ((calls fresh).fillData mssql stale fuel json s).map fun (json, s) =>
      (some json.toString,
        if query.flags &&& flagXact ≠ 0 then (exec answers s .commitTran).2 else s)
  else
    some (none, if query.flags &&& flagXact ≠ 0 then (exec answers s .rollbackTran).2 else s)

/-- Queries on one connection, one after another. -/
def session : Nat → State → List DbQuery → Option (List (Option (List UInt8)) × State) :=
  Cursor.each (execQuery fresh stale answers)

/-- The connection before the SQL text is sent, without the heap. -/
def beganDb (db : MssqlDb SybType) (query : DbQuery) : MssqlDb SybType :=
  let db := (db.exec (outcomes answers) (.use query.database)).2
  if query.flags &&& flagXact ≠ 0 then (db.exec (outcomes answers) .beginTran).2 else db

/-- The answer to the SQL text. -/
def batchAnswer (db : MssqlDb SybType) (query : DbQuery) : Answer :=
  answers ((beganDb answers db query).log.map Prod.fst ++ [.batch query.sql])

/-- The result sets that a query fetches have buffers and come to an end. -/
def FetchFits (db : MssqlDb SybType) (query : DbQuery) : Prop :=
  (batchAnswer answers db query).ok = true →
    ∀ reply ∈ (batchAnswer answers db query).replies, reply.Fits

variable {fresh stale}

/-! ### One command -/

theorem exec_changes {s s' : State} (h : Changes s s') (command : DbCommand) :
    Changes s (exec answers s' command).2 :=
  h.withProcess _

/-- What is sent on a heap is what is sent without one. -/
theorem exec_log {s : State} {db : MssqlDb SybType} (h : db.log = s.db.process.log)
    (command : DbCommand) :
    (db.exec (outcomes answers) command).2.log = (exec answers s command).2.db.process.log := by
  rw [MssqlDb.exec_log, h]
  rfl

theorem begun_log {s : State} {db : MssqlDb SybType} (h : db.log = s.db.process.log)
    (query : DbQuery) :
    (beganDb answers db query).log = (begun answers s query).db.process.log := by
  unfold beganDb begun
  by_cases hxact : query.flags &&& flagXact ≠ 0
  · rw [if_pos hxact, if_pos hxact]
    exact exec_log answers (exec_log answers h _) _
  · rw [if_neg hxact, if_neg hxact]
    exact exec_log answers h _

theorem begun_changes {s : State} (hs : Good s) (query : DbQuery) :
    Changes s (begun answers s query) := by
  unfold begun
  dsimp only
  split
  · exact exec_changes answers (exec_changes answers (.refl hs) _) _
  · exact exec_changes answers (.refl hs) _

theorem begun_colval (s : State) (query : DbQuery) :
    (begun answers s query).db.colval = s.db.colval := by
  unfold begun
  dsimp only
  split <;> rfl

/-- The state after the SQL text, on the heap. -/
abbrev batchState (answers : List DbCommand → Answer) (s : State) (query : DbQuery) : State :=
  (exec answers (begun answers s query) (.batch query.sql)).2

theorem batchState_spec {s : State} (hs : Good s) {db : MssqlDb SybType}
    (hlog : db.log = s.db.process.log) (query : DbQuery) :
    Changes s (batchState answers s query) ∧
      (batchState answers s query).buffers = s.buffers ∧
      (exec answers (begun answers s query) (.batch query.sql)).1 =
        (batchAnswer answers db query).ok ∧
      (batchState answers s query).db.process.pending =
        (batchAnswer answers db query).replies := by
  refine ⟨exec_changes answers (begun_changes answers hs query) _, ?_, ?_, ?_⟩
  · show Heap.targets _ = Heap.targets _
    rw [← begun_colval answers s query]
    rfl
  · rw [batchAnswer, begun_log answers hlog]
    rfl
  · rw [batchAnswer, begun_log answers hlog]
    rfl

/-! ### One query -/

/-- The connection on lists, after the SQL text. -/
def batchDb (db : MssqlDb SybType) (query : DbQuery) : MssqlDb SybType :=
  ((beganDb answers db query).exec (outcomes answers) (.batch query.sql)).2

/-- The same on lists, where the SQL text fails. -/
theorem serveQuery_fails (stale : CString) {db : MssqlDb SybType} {query : DbQuery}
    (hok : ¬(batchAnswer answers db query).ok = true) :
    serveQuery mssql stale (outcomes answers) db query =
      some (none,
        if query.flags &&& flagXact ≠ 0 then
          ((batchDb answers db query).exec (outcomes answers) .rollbackTran).2
        else batchDb answers db query) := by
  rw [serveQuery_eq]
  exact if_neg hok

/-- Where it does not, and the result sets fit. -/
theorem serveQuery_fits (stale : CString) {db : MssqlDb SybType} {query : DbQuery}
    (hok : (batchAnswer answers db query).ok = true)
    (hfits : ∀ reply ∈ (batchAnswer answers db query).replies, reply.Fits) :
    ∃ last, last.log = (batchDb answers db query).log ∧
      serveQuery mssql stale (outcomes answers) db query =
        (dbFillData mssql stale ((JsonWriter.new (decide (query.flags &&& flagPp ≠ 0))).setMode
          (if query.flags &&& flagEmbedcsv ≠ 0 then .csv else .std))
          ((batchAnswer answers db query).replies.map fun reply => reply.result)).map fun json =>
            (some json.toString,
              if query.flags &&& flagXact ≠ 0 then
                (last.exec (outcomes answers) .commitTran).2
              else last) := by
  have hpending : (batchDb answers db query).pending =
      (batchAnswer answers db query).replies.map Reply.toStatement := rfl
  have hstatements : ∀ statement ∈ (batchDb answers db query).pending,
      Binds statement.result.columns := by
    rw [hpending, List.forall_mem_map]
    exact fun reply hreply => (hfits reply hreply).columns
  have hbinds : ∀ result ∈ (batchAnswer answers db query).replies.map fun reply => reply.result,
      mssql.Binds result := by
    rw [List.forall_mem_map]
    exact fun reply hreply => decide_eq_true (hfits reply hreply).columns
  rcases (batchDb answers db query).fetchResults_eq with ⟨-, last, hlast, hlog⟩ | ⟨hunbound, -⟩
  · rw [hpending, List.map_map] at hlast
    refine ⟨last, hlog, ?_⟩
    rw [serveQuery_eq, if_pos (show (db.executed (outcomes answers) query).1 = true from hok)]
    show (batchDb answers db query).fetchResults.bind _ = _
    rw [hlast, Option.bind_some]
    show (queryText mssql stale _ _ ((batchAnswer answers db query).replies.map fun reply =>
      reply.result)).map _ = _
    rw [queryText, if_pos hbinds, Option.map_map]
    rfl
  · exact absurd hstatements hunbound

/-- The end of a transaction changes neither the buffers nor what corresponds. -/
theorem ended_spec {s s' : State} (h : Changes s s') {db : MssqlDb SybType}
    (hlog : db.log = s'.db.process.log) (xact : Prop) [Decidable xact] (command : DbCommand) :
    (if xact then (db.exec (outcomes answers) command).2 else db).log =
        (if xact then (exec answers s' command).2 else s').db.process.log ∧
      Changes s (if xact then (exec answers s' command).2 else s') ∧
      (if xact then (exec answers s' command).2 else s').buffers = s'.buffers := by
  split
  · exact ⟨exec_log answers hlog command, exec_changes answers h command, rfl⟩
  · exact ⟨hlog, h, rfl⟩

variable {answers}

/-- What a query on the heap comes to: the text and the commands of the query on lists, and no
buffer that it leaves. -/
structure QueryRefines (answers : List DbCommand → Answer) (stale : CString) (s : State)
    (db : MssqlDb SybType) (query : DbQuery) (ret : Option (List UInt8)) (s' : State) : Prop where
  fits : FetchFits answers db query
  refines : ∃ db', serveQuery mssql stale (outcomes answers) db query = some (ret, db') ∧
    db'.log = s'.db.process.log
  changes : Changes s s'
  freed : s.buffers = ∅ → s'.buffers = ∅

theorem execQuery_refines {s : State} (hs : Good s) {db : MssqlDb SybType}
    (hlog : db.log = s.db.process.log) {query : DbQuery} {ret : Option (List UInt8)} {s' : State}
    (h : Cursor.Ends (fun fuel => execQuery fresh stale answers fuel s query) (ret, s')) :
    QueryRefines answers stale s db query ret s' := by
  obtain ⟨hchanges, hbuffers, hok, hpending⟩ := batchState_spec answers hs hlog query
  have hbatch : (batchDb answers db query).log =
      (batchState answers s query).db.process.log :=
    exec_log answers (begun_log answers hlog query) (.batch query.sql)
  simp only [execQuery, hok] at h
  by_cases hfirst : (batchAnswer answers db query).ok = true
  · simp only [if_pos hfirst] at h
    obtain ⟨⟨json, s₁⟩, hfill, hlast⟩ := Cursor.ends_map_iff.1 h
    obtain ⟨hret, rfl⟩ := Prod.mk.inj hlast
    obtain ⟨results, hdelivers, hwrite⟩ := DbCalls.fillData_ends_iff.1 hfill
    obtain ⟨hfits, rfl, hafter⟩ := fits_of_deliversResults fresh hchanges.good hdelivers
    rw [hpending] at hfits hwrite
    obtain ⟨last, hlast, hserve⟩ := serveQuery_fits answers stale hfirst hfits
    have hlog₁ : last.log = s₁.db.process.log := by
      rw [hlast, hbatch, hafter.log]
    obtain ⟨hsent, hchanges', hbuffers'⟩ := ended_spec answers
      (hchanges.trans hafter.toChanges) hlog₁ (query.flags &&& flagXact ≠ 0) .commitTran
    refine ⟨fun _ => hfits, ⟨_, ?_, hsent⟩, hchanges', fun _ => hbuffers'.trans hafter.freed⟩
    rw [hserve, hwrite, ← hret]
    rfl
  · simp only [if_neg hfirst] at h
    obtain ⟨hret, rfl⟩ := Prod.mk.inj (Option.some.inj (Cursor.ends_const.1 h))
    obtain ⟨hsent, hchanges', hbuffers'⟩ := ended_spec answers hchanges hbatch
      (query.flags &&& flagXact ≠ 0) .rollbackTran
    refine ⟨fun hgiven => absurd hgiven hfirst, ⟨_, ?_, hsent⟩, hchanges',
      fun hnone => (hbuffers'.trans hbuffers).trans hnone⟩
    rw [serveQuery_fails answers stale hfirst, ← hret]

theorem execQuery_ends {s : State} (hs : Good s) {db db' : MssqlDb SybType}
    (hlog : db.log = s.db.process.log) {query : DbQuery} {ret : Option (List UInt8)}
    (hfits : FetchFits answers db query)
    (h : serveQuery mssql stale (outcomes answers) db query = some (ret, db')) :
    ∃ s', Cursor.Ends (fun fuel => execQuery fresh stale answers fuel s query) (ret, s') := by
  obtain ⟨hchanges, -, hok, hpending⟩ := batchState_spec answers hs hlog query
  simp only [execQuery, hok]
  by_cases hfirst : (batchAnswer answers db query).ok = true
  · simp only [if_pos hfirst]
    obtain ⟨s₁, hdelivers, -⟩ := delivers_results fresh hchanges.good
      (by rw [hpending]; exact hfits hfirst)
    rw [hpending] at hdelivers
    obtain ⟨last, -, hserve⟩ := serveQuery_fits answers stale hfirst (hfits hfirst)
    rw [hserve] at h
    obtain ⟨json, hwrite, hlast⟩ := Option.map_eq_some_iff.1 h
    have hfill := DbCalls.fillData_ends_iff.2 ⟨_, hdelivers, hwrite⟩
    rw [← (Prod.mk.inj hlast).1]
    exact ⟨_, Cursor.ends_map_iff.2 ⟨(json, s₁), hfill, rfl⟩⟩
  · simp only [if_neg hfirst]
    rw [serveQuery_fails answers stale hfirst] at h
    rw [← (Prod.mk.inj (Option.some.inj h)).1]
    exact ⟨_, Cursor.ends_const.2 rfl⟩

theorem execQuery_steady (s : State) (query : DbQuery) :
    Cursor.Steady fun fuel => execQuery fresh stale answers fuel s query := by
  unfold execQuery
  dsimp only
  split
  · exact (DbCalls.fillData_steady _ _).map _
  · exact Cursor.steady_const _

/-! ### Many queries -/

/-- The queries that are come to have results that can be fetched. -/
abbrev AllFetchFit (answers : List DbCommand → Answer) (stale : CString) :
    MssqlDb SybType → List DbQuery → Prop :=
  StepSystem.AllEvents (afterQuery mssql stale (outcomes answers)) (FetchFits answers)

theorem session_refines {s : State} (hs : Good s) {db : MssqlDb SybType}
    (hlog : db.log = s.db.process.log) {queries : List DbQuery}
    {rets : List (Option (List UInt8))} {s' : State}
    (h : Cursor.Ends (fun fuel => session fresh stale answers fuel s queries) (rets, s')) :
    AllFetchFit answers stale db queries ∧
      (∃ db', serveQueries mssql stale (outcomes answers) db queries = some (rets, db')) ∧
      Changes s s' ∧ (s.buffers = ∅ → s'.buffers = ∅) := by
  induction queries generalizing s db rets with
  | nil =>
    obtain ⟨rfl, rfl⟩ := Cursor.each_nil_ends_iff.1 h
    exact ⟨trivial, ⟨db, rfl⟩, .refl hs, fun hnone => hnone⟩
  | cons query queries ih =>
    obtain ⟨ret, rest, s₁, rfl, hfirst, hlast⟩ :=
      (Cursor.each_cons_ends_iff execQuery_steady).1 h
    obtain ⟨hfits, ⟨db₁, hserve, hlog₁⟩, hchanges, hfreed⟩ := execQuery_refines hs hlog hfirst
    obtain ⟨hall, ⟨db', hserves⟩, hchanges', hfreed'⟩ := ih hchanges.good hlog₁ hlast
    refine ⟨⟨hfits, fun db₂ hafter => ?_⟩, ⟨db', ?_⟩, hchanges.trans hchanges',
      fun hnone => hfreed' (hfreed hnone)⟩
    · rw [afterQuery, hserve] at hafter
      obtain rfl := Option.some.inj hafter
      exact hall
    · rw [serveQueries, hserve, Option.bind_some]
      dsimp only
      rw [hserves, Option.map_some]

theorem session_ends {s : State} (hs : Good s) {db db' : MssqlDb SybType}
    (hlog : db.log = s.db.process.log) {queries : List DbQuery}
    {rets : List (Option (List UInt8))} (hfits : AllFetchFit answers stale db queries)
    (h : serveQueries mssql stale (outcomes answers) db queries = some (rets, db')) :
    ∃ s', Cursor.Ends (fun fuel => session fresh stale answers fuel s queries) (rets, s') := by
  induction queries generalizing s db rets with
  | nil =>
    rw [serveQueries, Option.some.injEq, Prod.mk.injEq] at h
    exact ⟨s, Cursor.each_nil_ends_iff.2 ⟨h.1.symm, rfl⟩⟩
  | cons query queries ih =>
    obtain ⟨⟨ret, db₁⟩, hserve, hrest⟩ := Option.bind_eq_some_iff.1 h
    obtain ⟨⟨rest, db₂⟩, hserves, hlast⟩ := Option.map_eq_some_iff.1 hrest
    obtain ⟨hrets, rfl⟩ := Prod.mk.inj hlast
    obtain ⟨s₁, hfirst⟩ : ∃ s₁, Cursor.Ends (fun fuel => execQuery fresh stale answers fuel s
        query) (ret, s₁) := execQuery_ends hs hlog hfits.1 hserve
    obtain ⟨-, ⟨db₃, hserve₃, hlog₃⟩, hchanges, -⟩ := execQuery_refines hs hlog hfirst
    rw [hserve, Option.some.injEq, Prod.mk.injEq] at hserve₃
    obtain ⟨s', hends⟩ := ih hchanges.good (hserve₃.2 ▸ hlog₃)
      (hfits.2 db₁ (by rw [afterQuery, hserve]; rfl)) hserves
    exact ⟨s', (Cursor.each_cons_ends_iff execQuery_steady).2
      ⟨ret, rest, s₁, hrets.symm, hfirst, hends⟩⟩

end Session

/-! ## Connections -/

/-- `dbrelay_mssql_connect`.  The second case is the one in which `dbopen` fails. -/
def connect (heap : Heap Block) (opens : Bool) : Option (Option Db × Heap Block) :=
  let (self, heap) := heap.alloc .db
  let (login, heap) := heap.alloc .login
  if opens then
    let (dbproc, heap) := heap.alloc .dbproc
    some (some { self := self, login := login, dbproc := dbproc }, heap)
  else (heap.free self).map fun heap => (none, heap)

/-- `dbrelay_mssql_close`. -/
def close (s : State) : Option (Heap Block) :=
  (freeResults s).bind fun s =>
    (s.heap.free s.db.dbproc).bind fun heap =>
      (heap.free s.db.login).bind fun heap => heap.free s.db.self

/-- A login, and what is asked on the connection if it is opened. -/
structure Connection where
  opens : Bool
  answers : List DbCommand → Answer
  queries : List DbQuery

section Connections

variable (fresh : (size : Nat) → CArray size) (stale : CString)

/-- A connection from its login to its end. -/
def serveConnection (fuel : Nat) (heap : Heap Block) (connection : Connection) :
    Option (List (Option (List UInt8)) × Heap Block) :=
  (connect heap connection.opens).bind fun (db, heap) =>
    match db with
    | none => some ([], heap)
    | some db =>
      (session fresh stale connection.answers fuel ⟨heap, db⟩ connection.queries).bind
        fun (rets, s) => (close s).map fun heap => (rets, heap)

/-- The connections of a process, one after another. -/
def serveConnections : Nat → Heap Block → List Connection →
    Option (List (List (Option (List UInt8))) × Heap Block) :=
  Cursor.each (serveConnection fresh stale)

variable {fresh stale}

/-! ### Opening and closing -/

/-- What an opened connection has allocated: three blocks, and no buffer yet. -/
structure Opened (heap heap' : Heap Block) (db : Db) : Prop where
  colval : db.colval = fun _ => none
  log : db.process.log = []
  self : db.self ∉ heap.live
  login : db.login ∉ insert db.self heap.live
  dbproc : db.dbproc ∉ insert db.login (insert db.self heap.live)
  live : heap'.live = insert db.dbproc (insert db.login (insert db.self heap.live))
  frame : ∀ a ∈ heap.live, heap'.block a = heap.block a

theorem connect_opens (heap : Heap Block) :
    ∃ db heap', connect heap true = some (some db, heap') ∧ Opened heap heap' db := by
  have hself := heap.live_alloc .db
  have hlogin := (heap.alloc .db).2.live_alloc .login
  have hdbproc := ((heap.alloc .db).2.alloc .login).2.live_alloc .dbproc
  rw [hlogin, hself] at hdbproc
  refine ⟨_, _, rfl, rfl, rfl, heap.alloc_not_mem .db, ?_, ?_, hdbproc, fun a ha => ?_⟩
  · show _ ∉ insert (heap.alloc .db).1 _
    rw [← hself]
    exact (heap.alloc .db).2.alloc_not_mem .login
  · show _ ∉ insert ((heap.alloc .db).2.alloc .login).1 (insert (heap.alloc .db).1 _)
    rw [← hself, ← hlogin]
    exact ((heap.alloc .db).2.alloc .login).2.alloc_not_mem .dbproc
  · have ha₁ : a ∈ (heap.alloc .db).2.live := by
      rw [hself]
      exact Finset.mem_insert_of_mem ha
    have ha₂ : a ∈ ((heap.alloc .db).2.alloc .login).2.live := by
      rw [hlogin]
      exact Finset.mem_insert_of_mem ha₁
    exact ((Heap.block_alloc_of_mem _ .dbproc ha₂).trans
      (Heap.block_alloc_of_mem _ .login ha₁)).trans
      (Heap.block_alloc_of_mem _ .db ha)

/-- A login that fails frees its `mssql_db_t`, and not its `LOGINREC`. -/
theorem connect_fails (heap : Heap Block) :
    ∃ heap' login, connect heap false = some (none, heap') ∧ login ∉ heap.live ∧
      heap'.live = insert login heap.live ∧ heap'.block login = some .login ∧
      ∀ a ∈ heap.live, heap'.block a = heap.block a := by
  have hself := heap.live_alloc .db
  have hlogin := (heap.alloc .db).2.live_alloc .login
  have hnew := heap.alloc_not_mem .db
  have hnew' := (heap.alloc .db).2.alloc_not_mem .login
  have hblock := (heap.alloc .db).2.block_alloc .login
  rw [hself] at hlogin hnew'
  have hne : ((heap.alloc .db).2.alloc .login).1 ≠ (heap.alloc .db).1 :=
    fun heq => hnew' (heq ▸ Finset.mem_insert_self _ _)
  have hout : (heap.alloc .db).1 ∉ insert ((heap.alloc .db).2.alloc .login).1 heap.live := by
    rw [Finset.mem_insert, not_or]
    exact ⟨hne.symm, hnew⟩
  obtain ⟨heap', hfree, hlive, hframe⟩ :=
    Heap.exists_free_of_insert (hlogin.trans (Finset.insert_comm _ _ _)) hout
  refine ⟨heap', ((heap.alloc .db).2.alloc .login).1, ?_, ?_, ?_, ?_, fun a ha => ?_⟩
  · show ((((heap.alloc .db).2.alloc .login).2.free (heap.alloc .db).1).map _) = _
    rw [hfree]
    rfl
  · exact fun hmem => hnew' (Finset.mem_insert_of_mem hmem)
  · exact hlive
  · rw [hframe _ hne, hblock]
  · have hne' : a ≠ (heap.alloc .db).1 := fun heq => hnew (heq ▸ ha)
    have ha₁ : a ∈ (heap.alloc .db).2.live := by
      rw [hself]
      exact Finset.mem_insert_of_mem ha
    rw [hframe a hne', Heap.block_alloc_of_mem _ .login ha₁, Heap.block_alloc_of_mem _ .db ha]

theorem Opened.good {heap heap' : Heap Block} {db : Db} (h : Opened heap heap' db) :
    Good ⟨heap', db⟩ := by
  refine ⟨?_, fun {i a} hi => ?_⟩
  · show Heap.Apart db.colval
    rw [h.colval]
    exact Heap.apart_none
  · change db.colval i = some a at hi
    rw [h.colval] at hi
    cases hi

theorem Opened.buffers {heap heap' : Heap Block} {db : Db} (h : Opened heap heap' db) :
    State.buffers ⟨heap', db⟩ = ∅ := by
  show Heap.targets db.colval = ∅
  rw [h.colval]
  exact Heap.targets_none

/-- Closing gives back what was allocated for the connection. -/
theorem close_spec {heap heap' : Heap Block} {db : Db} (h : Opened heap heap' db) {s : State}
    (hchanges : Changes ⟨heap', db⟩ s) (hfreed : s.buffers = ∅) :
    ∃ heap₁, close s = some heap₁ ∧ heap₁.live = heap.live ∧
      ∀ a ∈ heap.live, heap₁.block a = heap.block a := by
  have hlive : s.heap.live = insert db.dbproc (insert db.login (insert db.self heap.live)) := by
    rw [hchanges.live, h.buffers, hfreed, Finset.sdiff_empty, Finset.union_empty]
    exact h.live
  obtain ⟨heap₁, hfree₁, hlive₁, hblock₁⟩ := freeResults_spec hchanges.good
  rw [hfreed, Finset.sdiff_empty, hlive] at hlive₁
  obtain ⟨heap₂, hfree₂, hlive₂, hblock₂⟩ := Heap.exists_free_of_insert hlive₁ h.dbproc
  obtain ⟨heap₃, hfree₃, hlive₃, hblock₃⟩ := Heap.exists_free_of_insert hlive₂ h.login
  obtain ⟨heap₄, hfree₄, hlive₄, hblock₄⟩ := Heap.exists_free_of_insert hlive₃ h.self
  refine ⟨heap₄, ?_, hlive₄, fun a ha => ?_⟩
  · have hself : s.db.self = db.self := hchanges.self
    have hlogin : s.db.login = db.login := hchanges.login
    have hdbproc : s.db.dbproc = db.dbproc := hchanges.dbproc
    rw [close, hfree₁]
    simp only [Option.bind_some, hdbproc, hfree₂, hlogin, hfree₃, hself, hfree₄]
  · have hself : a ≠ db.self := fun heq => h.self (heq ▸ ha)
    have hlogin : a ≠ db.login := fun heq => h.login (heq ▸ Finset.mem_insert_of_mem ha)
    have hdbproc : a ≠ db.dbproc := fun heq =>
      h.dbproc (heq ▸ Finset.mem_insert_of_mem (Finset.mem_insert_of_mem ha))
    have hold : a ∈ heap'.live := by
      rw [h.live]
      exact Finset.mem_insert_of_mem (Finset.mem_insert_of_mem (Finset.mem_insert_of_mem ha))
    rw [hblock₄ a hself, hblock₃ a hlogin, hblock₂ a hdbproc,
      hblock₁ a (by rw [hfreed]; exact Finset.notMem_empty a),
      hchanges.frame a (by
        rw [h.buffers, Finset.sdiff_empty]
        exact hold)]
    exact h.frame a ha

/-! ### One connection -/

/-- What the functions on lists say about a connection. -/
def Served (stale : CString) (connection : Connection) (rets : List (Option (List UInt8))) :
    Prop :=
  if connection.opens then
    AllFetchFit connection.answers stale {} connection.queries ∧
      ∃ db', serveQueries mssql stale (outcomes connection.answers) {} connection.queries =
        some (rets, db')
  else rets = []

/-- What was in the heap is there as before, and `lost` blocks have come to it, all of them
`LOGINREC`s. -/
structure Leaves (heap heap' : Heap Block) (lost : Nat) : Prop where
  kept : heap.live ⊆ heap'.live
  frame : ∀ a ∈ heap.live, heap'.block a = heap.block a
  lost : (heap'.live \ heap.live).card = lost
  login : ∀ a ∈ heap'.live \ heap.live, heap'.block a = some .login

theorem Leaves.refl (heap : Heap Block) : Leaves heap heap 0 := by
  refine ⟨Finset.Subset.refl _, fun _ _ => rfl, ?_, fun a ha => ?_⟩
  · rw [Finset.sdiff_self, Finset.card_empty]
  · rw [Finset.sdiff_self] at ha
    exact absurd ha (Finset.notMem_empty a)

theorem Leaves.trans {heap heap₁ heap₂ : Heap Block} {m n : Nat} (h₁ : Leaves heap heap₁ m)
    (h₂ : Leaves heap₁ heap₂ n) : Leaves heap heap₂ (m + n) := by
  have hsplit : heap₂.live \ heap.live =
      heap₁.live \ heap.live ∪ heap₂.live \ heap₁.live := by
    ext a
    have hkept := @h₁.kept a
    have hkept' := @h₂.kept a
    simp only [Finset.mem_union, Finset.mem_sdiff]
    tauto
  have hdisjoint : Disjoint (heap₁.live \ heap.live) (heap₂.live \ heap₁.live) :=
    Finset.disjoint_of_subset_left Finset.sdiff_subset Finset.disjoint_sdiff
  refine ⟨h₁.kept.trans h₂.kept, fun a ha => ?_, ?_, fun a ha => ?_⟩
  · rw [h₂.frame a (h₁.kept ha), h₁.frame a ha]
  · rw [hsplit, Finset.card_union_of_disjoint hdisjoint, h₁.lost, h₂.lost]
  · rw [hsplit, Finset.mem_union] at ha
    rcases ha with ha | ha
    · rw [h₂.frame a (Finset.mem_sdiff.1 ha).1, h₁.login a ha]
    · exact h₂.login a ha

theorem serveConnection_steady (heap : Heap Block) (connection : Connection) :
    Cursor.Steady fun fuel => serveConnection fresh stale fuel heap connection := by
  refine (Cursor.steady_const _).bind fun opened => ?_
  obtain ⟨_ | db, heap⟩ := opened
  · exact Cursor.steady_const _
  · exact (Cursor.each_steady execQuery_steady _ _).bind fun _ => Cursor.steady_const _

theorem serveConnection_opens {heap heap₁ heap' : Heap Block} {db : Db}
    (hconnect : connect heap true = some (some db, heap₁)) {connection : Connection}
    (hopens : connection.opens = true) {rets : List (Option (List UInt8))} :
    Cursor.Ends (fun fuel => serveConnection fresh stale fuel heap connection) (rets, heap') ↔
      ∃ s, Cursor.Ends (fun fuel => session fresh stale connection.answers fuel ⟨heap₁, db⟩
        connection.queries) (rets, s) ∧ close s = some heap' := by
  simp only [serveConnection, hopens, hconnect, Option.bind_some]
  refine (Cursor.ends_bind_iff (Cursor.each_steady execQuery_steady _ _) fun _ =>
    Cursor.steady_const _).trans ?_
  simp only [Prod.exists, Cursor.ends_const, Option.map_eq_some_iff, Prod.mk.injEq]
  constructor
  · intro h
    obtain ⟨rets', s, hsession, heap₂, hclose, rfl, rfl⟩ := h
    exact ⟨s, hsession, hclose⟩
  · intro h
    obtain ⟨s, hsession, hclose⟩ := h
    exact ⟨rets, s, hsession, heap', hclose, rfl, rfl⟩

theorem serveConnection_fails {heap heap₁ heap' : Heap Block}
    (hconnect : connect heap false = some (none, heap₁)) {connection : Connection}
    (hopens : ¬connection.opens = true) {rets : List (Option (List UInt8))} :
    Cursor.Ends (fun fuel => serveConnection fresh stale fuel heap connection) (rets, heap') ↔
      rets = [] ∧ heap' = heap₁ := by
  rw [Bool.not_eq_true] at hopens
  simp only [serveConnection, hopens, hconnect, Option.bind_some, Cursor.ends_const,
    Option.some.injEq, Prod.mk.injEq]
  exact and_congr eq_comm eq_comm

theorem serveConnection_ends_iff (heap : Heap Block) (connection : Connection)
    (rets : List (Option (List UInt8))) :
    (∃ heap', Cursor.Ends (fun fuel => serveConnection fresh stale fuel heap connection)
      (rets, heap')) ↔ Served stale connection rets := by
  unfold Served
  split
  · rename_i hopens
    obtain ⟨db, heap₁, hconnect, hopened⟩ := connect_opens heap
    have hlog : ({} : MssqlDb SybType).log = (State.mk heap₁ db).db.process.log :=
      hopened.log.symm
    simp only [serveConnection_opens hconnect hopens]
    constructor
    · intro h
      obtain ⟨heap', s, hsession, -⟩ := h
      obtain ⟨hfits, hserves, -, -⟩ := session_refines hopened.good hlog hsession
      exact ⟨hfits, hserves⟩
    · intro h
      obtain ⟨hfits, db', hserves⟩ := h
      obtain ⟨s, hsession⟩ : ∃ s, Cursor.Ends (fun fuel => session fresh stale connection.answers
        fuel ⟨heap₁, db⟩ connection.queries) (rets, s) :=
          session_ends hopened.good hlog hfits hserves
      obtain ⟨-, -, hchanges, hfreed⟩ := session_refines hopened.good hlog hsession
      obtain ⟨heap', hclose, -, -⟩ := close_spec hopened hchanges (hfreed hopened.buffers)
      exact ⟨heap', s, hsession, hclose⟩
  · rename_i hopens
    obtain ⟨heap₁, login, hconnect, -⟩ := connect_fails heap
    simp only [serveConnection_fails hconnect hopens]
    exact ⟨fun ⟨_, hrets, _⟩ => hrets, fun hrets => ⟨heap₁, hrets, rfl⟩⟩

theorem serveConnection_leaves {heap heap' : Heap Block} {connection : Connection}
    {rets : List (Option (List UInt8))}
    (h : Cursor.Ends (fun fuel => serveConnection fresh stale fuel heap connection)
      (rets, heap')) : Leaves heap heap' (if connection.opens then 0 else 1) := by
  split
  · rename_i hopens
    obtain ⟨db, heap₁, hconnect, hopened⟩ := connect_opens heap
    obtain ⟨s, hsession, hclose⟩ := (serveConnection_opens hconnect hopens).1 h
    have hlog : ({} : MssqlDb SybType).log = (State.mk heap₁ db).db.process.log :=
      hopened.log.symm
    obtain ⟨-, -, hchanges, hfreed⟩ := session_refines hopened.good hlog hsession
    obtain ⟨heap₂, hclose', hlive, hframe⟩ :=
      close_spec hopened hchanges (hfreed hopened.buffers)
    obtain rfl : heap₂ = heap' := Option.some.inj (hclose'.symm.trans hclose)
    refine ⟨hlive.ge, hframe, ?_, fun a ha => ?_⟩
    · rw [hlive, Finset.sdiff_self, Finset.card_empty]
    · rw [hlive, Finset.sdiff_self] at ha
      exact absurd ha (Finset.notMem_empty a)
  · rename_i hopens
    obtain ⟨heap₁, login, hconnect, hlogin, hlive, hblock, hframe⟩ := connect_fails heap
    obtain ⟨-, rfl⟩ := (serveConnection_fails hconnect hopens).1 h
    have hlost : heap'.live \ heap.live = {login} := by
      rw [hlive, Finset.insert_sdiff_of_notMem _ hlogin, Finset.sdiff_self,
        Finset.insert_empty]
    refine ⟨?_, hframe, ?_, fun a ha => ?_⟩
    · rw [hlive]
      exact Finset.subset_insert _ _
    · rw [hlost, Finset.card_singleton]
    · rw [hlost, Finset.mem_singleton] at ha
      rw [ha, hblock]

/-! ### Many connections -/

/-- Any number of connections come to the texts that the functions on lists say, without a
block that is freed twice or used after it was freed, exactly if all that they fetch has
buffers and comes to an end. -/
theorem serveConnections_ends_iff (fresh : (size : Nat) → CArray size) (stale : CString)
    (heap : Heap Block) (connections : List Connection)
    (all : List (List (Option (List UInt8)))) :
    (∃ heap', Cursor.Ends (fun fuel => serveConnections fresh stale fuel heap connections)
      (all, heap')) ↔ List.Forall₂ (Served stale) connections all := by
  induction connections generalizing heap all with
  | nil =>
    simp only [serveConnections, Cursor.each_nil_ends_iff, List.forall₂_nil_left_iff,
      exists_and_left, exists_eq, and_true]
  | cons connection connections ih =>
    simp only [serveConnections, Cursor.each_cons_ends_iff serveConnection_steady]
    constructor
    · intro h
      obtain ⟨heap', rets, rest, heap₁, rfl, hfirst, hrest⟩ := h
      exact .cons ((serveConnection_ends_iff heap connection rets).1 ⟨heap₁, hfirst⟩)
        ((ih heap₁ rest).1 ⟨heap', hrest⟩)
    · intro h
      obtain ⟨rets, rest, hserved, hall, rfl⟩ := List.forall₂_cons_left_iff.1 h
      obtain ⟨heap₁, hfirst⟩ := (serveConnection_ends_iff heap connection rets).2 hserved
      obtain ⟨heap', hrest⟩ := (ih heap₁ rest).2 hall
      exact ⟨heap', rets, rest, heap₁, rfl, hfirst, hrest⟩

/-- After any number of connections no `mssql_db_t`, `DBPROCESS` or column buffer is left, and
one `LOGINREC` for each login that failed. -/
theorem serveConnections_leaves {fresh : (size : Nat) → CArray size} {stale : CString}
    {heap heap' : Heap Block} {connections : List Connection}
    {all : List (List (Option (List UInt8)))}
    (h : Cursor.Ends (fun fuel => serveConnections fresh stale fuel heap connections)
      (all, heap')) :
    Leaves heap heap' (connections.countP fun connection => !connection.opens) := by
  induction connections generalizing heap all with
  | nil =>
    obtain ⟨-, rfl⟩ := Cursor.each_nil_ends_iff.1 h
    exact .refl heap'
  | cons connection connections ih =>
    obtain ⟨rets, rest, heap₁, -, hfirst, hrest⟩ :=
      (Cursor.each_cons_ends_iff serveConnection_steady).1 h
    have hall := (serveConnection_leaves hfirst).trans (ih hrest)
    rw [List.countP_cons, Nat.add_comm]
    cases hopens : connection.opens <;> simpa [hopens] using hall

/-- A result set of one cell. -/
def oneCell : ResultSet SybType where
  columns := [varcharColumn 10]
  rows := [[some (.ofBytes (ascii "a"))]]
  rowcount := 1
  width := by decide

/-- A login that fails. -/
def failedLogin : Connection := ⟨false, fun _ => ⟨false, []⟩, []⟩

/-- A connection with one query, which is answered with one cell. -/
def cellConnection : Connection :=
  ⟨true, fun _ => ⟨true, [{ ok := true, result := oneCell }]⟩,
    [⟨ascii "a", ascii "select 1", 0⟩]⟩

theorem served_cellConnection : ∃ rets, Served .empty cellConnection rets := by
  obtain ⟨⟨rets, db'⟩, hserves⟩ := Option.isSome_iff_exists.1 (show (serveQueries mssql .empty
    (outcomes cellConnection.answers) {} cellConnection.queries).isSome = true by decide +kernel)
  refine ⟨rets, ⟨fun _ reply hreply => ?_, fun _ _ => trivial⟩, db', hserves⟩
  obtain rfl := List.mem_singleton.1 hreply
  exact ⟨by decide, rfl, by decide⟩

end Connections

/-- One block is left of these two. -/
theorem serveConnections_leaves_failedLogin :
    ∃ all heap', Cursor.Ends (fun fuel => serveConnections (fun size => .replicate size 0) .empty
      fuel Heap.empty [failedLogin, cellConnection]) (all, heap') ∧ Leaves Heap.empty heap' 1 := by
  obtain ⟨rets, hserved⟩ := served_cellConnection
  obtain ⟨heap₁, hfirst⟩ := (serveConnection_ends_iff Heap.empty failedLogin []).2
    (show Served .empty failedLogin [] from rfl)
  obtain ⟨heap', hsecond⟩ := (serveConnection_ends_iff heap₁ cellConnection rets).2 hserved
  have hends : Cursor.Ends (fun fuel => serveConnections (fun size => .replicate size 0) .empty
      fuel Heap.empty [failedLogin, cellConnection]) ([[], rets], heap') :=
    (Cursor.each_cons_ends_iff serveConnection_steady).2 ⟨[], [rets], heap₁, rfl, hfirst,
      (Cursor.each_cons_ends_iff serveConnection_steady).2 ⟨rets, [], heap', rfl, hsecond,
        Cursor.each_nil_ends_iff.2 ⟨rfl, rfl⟩⟩⟩
  exact ⟨[[], rets], heap', hends, serveConnections_leaves hends⟩

end Mssql

end DbRelay
