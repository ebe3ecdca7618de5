import DbRelay.Query.Transaction
import DbRelay.Lib.StepSystem

/-!
# The database of a query

`dbrelay_exec_query` switches to the database of the request with `api->change_db`, whose
result it does not look at, and then sends the SQL text.  Which database is in use is a state
of the connection: the switch changes it, and so may any SQL text.

* `DatabaseInUse` is what DB-Library says about that state.  Of the other backends only the one
  for MySQL switches: `dbrelay_odbc_change_db` returns `TRUE` and does nothing.
* `executed_log`: a query sends the switch, the SQL text, and what the transaction needs.
* `queriesInNamedDatabase_iff`: each query of a run has the database that it names exactly
  if each switch of the run succeeds.
-/

namespace DbRelay

variable {T : Type}

/-- The database in use on a connection of DB-Library, after some commands with their outcomes.
Nothing is said about a batch, which may hold any `USE`. -/
structure DatabaseInUse (T : Type) where
  after : List (DbCommand × Outcome T) → List UInt8
  use_ok : ∀ (log : List (DbCommand × Outcome T)) (database : List UInt8) (outcome : Outcome T),
    outcome.ok = true → after (log ++ [(.use database, outcome)]) = database
  use_failed : ∀ (log : List (DbCommand × Outcome T)) (database : List UInt8)
    (outcome : Outcome T), outcome.ok = false →
      after (log ++ [(.use database, outcome)]) = after log
  beginTran : ∀ (log : List (DbCommand × Outcome T)) (outcome : Outcome T),
    after (log ++ [(.beginTran, outcome)]) = after log
  commitTran : ∀ (log : List (DbCommand × Outcome T)) (outcome : Outcome T),
    after (log ++ [(.commitTran, outcome)]) = after log
  rollbackTran : ∀ (log : List (DbCommand × Outcome T)) (outcome : Outcome T),
    after (log ++ [(.rollbackTran, outcome)]) = after log

/-- The arguments of `dbrelay_exec_query` for one request. -/
structure DbQuery where
  database : List UInt8
  sql : List UInt8
  flags : UInt64 := 0
  deriving DecidableEq, Repr

/-! ## One query -/

namespace MssqlDb

/-- The first half of `dbrelay_exec_query`, until `api->exec` has executed the SQL text. -/
def executed (outcomes : Outcomes T) (db : MssqlDb T) (query : DbQuery) : Bool × MssqlDb T :=
  let db := (db.exec outcomes (.use query.database)).2
  let db := if query.flags &&& flagXact ≠ 0 then (db.exec outcomes .beginTran).2 else db
  db.exec outcomes (.batch query.sql)

/-- What `api->change_db` returns. -/
def changesDb (outcomes : Outcomes T) (db : MssqlDb T) (query : DbQuery) : Bool :=
  (db.exec outcomes (.use query.database)).1

end MssqlDb

/-- The whole of it. -/
def serveQuery (api : DbApi T) (stale : CString) (outcomes : Outcomes T) (db : MssqlDb T)
    (query : DbQuery) : Option (Option (List UInt8) × MssqlDb T) :=
  execQuery api stale outcomes db query.database query.sql query.flags

theorem serveQuery_eq (api : DbApi T) (stale : CString) (outcomes : Outcomes T) (db : MssqlDb T)
    (query : DbQuery) :
    serveQuery api stale outcomes db query =
      if (db.executed outcomes query).1 then
        (db.executed outcomes query).2.fetchResults.bind fun (results, last) =>
          (queryText api stale (decide (query.flags &&& flagPp ≠ 0))
            (if query.flags &&& flagEmbedcsv ≠ 0 then .csv else .std) results).map fun ret =>
              (some ret,
                if query.flags &&& flagXact ≠ 0 then (last.exec outcomes .commitTran).2 else last)
      else
        some (none,
          if query.flags &&& flagXact ≠ 0 then
            ((db.executed outcomes query).2.exec outcomes .rollbackTran).2
          else (db.executed outcomes query).2) :=
  rfl

theorem exec_sends (outcomes : Outcomes T) (db : MssqlDb T) (command : DbCommand) :
    ∃ outcome, (db.exec outcomes command).2.log = db.log ++ [(command, outcome)] ∧
      (db.exec outcomes command).1 = outcome.ok :=
  ⟨_, rfl, rfl⟩

/-- The SQL text is sent last. -/
theorem executed_log (outcomes : Outcomes T) (db : MssqlDb T) (query : DbQuery) :
    ∃ used begun outcome, used.ok = db.changesDb outcomes query ∧
      (begun = [] ∨ ∃ o, begun = [(.beginTran, o)]) ∧
      (db.executed outcomes query).2.log =
        db.log ++ (.use query.database, used) :: begun ++ [(.batch query.sql, outcome)] := by
  obtain ⟨used, hused, hok⟩ := exec_sends outcomes db (.use query.database)
  unfold MssqlDb.executed
  simp only
  split
  · obtain ⟨begun, hbegun, -⟩ := exec_sends outcomes
      (db.exec outcomes (.use query.database)).2 .beginTran
    obtain ⟨outcome, hlog, -⟩ := exec_sends outcomes
      ((db.exec outcomes (.use query.database)).2.exec outcomes .beginTran).2 (.batch query.sql)
    refine ⟨used, [(.beginTran, begun)], outcome, hok.symm, .inr ⟨begun, rfl⟩, ?_⟩
    rw [hlog, hbegun, hused]
    simp
  · obtain ⟨outcome, hlog, -⟩ := exec_sends outcomes (db.exec outcomes (.use query.database)).2
      (.batch query.sql)
    refine ⟨used, [], outcome, hok.symm, .inl rfl, ?_⟩
    rw [hlog, hused]

/-! ## The named database -/

/-- The SQL text is executed in the database that the request names, and neither executed nor
answered with results if the switch to it failed. -/
structure InNamedDatabase (inUse : DatabaseInUse T) (api : DbApi T) (stale : CString)
    (outcomes : Outcomes T) (db : MssqlDb T) (query : DbQuery) : Prop where
  named : ∀ before outcome, (db.executed outcomes query).2.log =
    db.log ++ before ++ [(.batch query.sql, outcome)] →
      inUse.after (db.log ++ before) = query.database
  refused : ∀ events outcome, (db.executed outcomes query).2.log = db.log ++ events →
    (.use query.database, outcome) ∈ events → outcome.ok = false →
      (∀ executed, (.batch query.sql, executed) ∉ events) ∧
        ∃ db', serveQuery api stale outcomes db query = some (none, db')

/-- The database in use when the SQL text is sent: the named one if the switch succeeded, and
otherwise the one of before. -/
theorem inUse_executed (inUse : DatabaseInUse T) (outcomes : Outcomes T) (db : MssqlDb T)
    (query : DbQuery) {before : List (DbCommand × Outcome T)} {outcome : Outcome T}
    (h : (db.executed outcomes query).2.log =
      db.log ++ before ++ [(.batch query.sql, outcome)]) :
    inUse.after (db.log ++ before) =
      if db.changesDb outcomes query then query.database else inUse.after db.log := by
  obtain ⟨used, begun, last, hused, hbegun, hlog⟩ := executed_log outcomes db query
  have hbefore : before = (.use query.database, used) :: begun := by
    rw [hlog] at h
    exact (List.append_cancel_left (List.append_inj_left' h rfl)).symm
  have hbegan : inUse.after (db.log ++ (.use query.database, used) :: begun) =
      inUse.after (db.log ++ [(.use query.database, used)]) := by
    rcases hbegun with rfl | ⟨o, rfl⟩
    · rfl
    · rw [List.append_cons, inUse.beginTran]
  rw [hbefore, hbegan]
  by_cases hok : used.ok = true
  · rw [inUse.use_ok _ _ _ hok, ← hused, if_pos hok]
  · rw [inUse.use_failed _ _ _ (by simpa using hok), ← hused, if_neg hok]

/-- One query has the database that it names exactly if the switch succeeds. -/
theorem inNamedDatabase_iff (inUse : DatabaseInUse T) (api : DbApi T) (stale : CString)
    (outcomes : Outcomes T) (db : MssqlDb T) (query : DbQuery) :
    InNamedDatabase inUse api stale outcomes db query ↔ db.changesDb outcomes query = true := by
  obtain ⟨used, begun, outcome, hused, hbegun, hlog⟩ := executed_log outcomes db query
  constructor
  · intro h
    by_contra hfailed
    have hused' : used.ok = false := by
      rw [hused]
      simpa using hfailed
    have hevents : (db.executed outcomes query).2.log =
        db.log ++ ((.use query.database, used) :: begun ++ [(.batch query.sql, outcome)]) := by
      rw [hlog, List.append_assoc]
    refine (h.refused _ used hevents (by simp) hused').1 outcome ?_
    exact List.mem_append_right _ (List.mem_singleton.2 rfl)
  · intro hok
    refine ⟨fun before outcome hbefore => ?_, fun events failed hevents hmem hfailed => ?_⟩
    · rw [inUse_executed inUse outcomes db query hbefore, if_pos hok]
    · -- The only switch of the query did not fail.
      rw [hlog, List.append_assoc] at hevents
      rw [← List.append_cancel_left hevents] at hmem
      have hsame : failed = used := by
        rcases hbegun with rfl | ⟨o, rfl⟩
        · simpa using hmem
        · simpa using hmem
      rw [hsame, hused, hok] at hfailed
      cases hfailed

/-! ## Runs -/

/-- The connection after a query. -/
def afterQuery (api : DbApi T) (stale : CString) (outcomes : Outcomes T) (db : MssqlDb T)
    (query : DbQuery) : Option (MssqlDb T) :=
  (serveQuery api stale outcomes db query).map Prod.snd

/-- Each query that a run comes to has the database that it names exactly if each switch
succeeds. -/
theorem queriesInNamedDatabase_iff (inUse : DatabaseInUse T) (api : DbApi T) (stale : CString)
    (outcomes : Outcomes T) (db : MssqlDb T) (queries : List DbQuery) :
    StepSystem.AllEvents (afterQuery api stale outcomes)
        (InNamedDatabase inUse api stale outcomes) db queries ↔
      StepSystem.AllEvents (afterQuery api stale outcomes)
        (fun db query => db.changesDb outcomes query = true) db queries :=
  StepSystem.allEvents_congr fun db query => inNamedDatabase_iff inUse api stale outcomes db query

/-- A server on which the batches do what `moves` says, and nothing else moves. -/
def databaseInUse (start : List UInt8) (moves : List UInt8 → Option (List UInt8)) :
    DatabaseInUse T where
  after log := log.foldl (fun current e =>
    match e.1 with
    | .use database => if e.2.ok then database else current
    | .batch sql => (moves sql).getD current
    | _ => current) start
  use_ok log database outcome hok := by rw [List.foldl_concat]; exact if_pos hok
  use_failed log database outcome hfailed := by
    rw [List.foldl_concat]
    simp [hfailed]
  beginTran log outcome := by rw [List.foldl_concat]
  commitTran log outcome := by rw [List.foldl_concat]
  rollbackTran log outcome := by rw [List.foldl_concat]

/-- The third command fails. -/
def thirdFails : Outcomes T := fun commands => ⟨decide (commands.length ≠ 3), []⟩

/-- The first query leaves the database that both name, and the switch back fails. -/
def leavingQueries : List DbQuery :=
  [⟨ascii "a", ascii "use b", 0⟩, ⟨ascii "a", ascii "delete t", 0⟩]

/-- The server on which they run. -/
def leavingServer : DatabaseInUse T :=
  databaseInUse (ascii "a") fun sql => if sql = ascii "use b" then some (ascii "b") else none

/-- A query without results comes to its end. -/
theorem afterQuery_noResults (api : DbApi T) (stale : CString) (outcomes : Outcomes T)
    (db : MssqlDb T) (query : DbQuery) (hflags : query.flags = 0)
    (hok : (db.executed outcomes query).1 = true)
    (hresults : (db.executed outcomes query).2.pending = []) :
    ∃ db', afterQuery api stale outcomes db query = some db' ∧
      db'.log = (db.executed outcomes query).2.log := by
  have hfetched := MssqlDb.fetchResults_nil hresults
  have htext := (queryText_isSome_iff api stale (decide (query.flags &&& flagPp ≠ 0))
    (if query.flags &&& flagEmbedcsv ≠ 0 then .csv else .std) []).2
      fun result hmem => absurd hmem List.not_mem_nil
  obtain ⟨text, htext⟩ := Option.isSome_iff_exists.1 htext
  refine ⟨_, ?_, rfl⟩
  rw [afterQuery, serveQuery_eq, if_pos hok, hfetched, Option.bind_some]
  simp only [htext]
  simp [hflags]

/-- The second text runs in the wrong database. -/
theorem not_queriesInNamedDatabase_leaving :
    ¬StepSystem.AllEvents (afterQuery mssql .empty thirdFails)
      (InNamedDatabase leavingServer mssql .empty thirdFails) {} leavingQueries := by
  intro h
  obtain ⟨db, hserve, hlog⟩ := afterQuery_noResults mssql .empty thirdFails {}
    ⟨ascii "a", ascii "use b", 0⟩ rfl rfl rfl
  obtain ⟨used, begun, outcome, -, -, hexecuted⟩ :=
    executed_log thirdFails db ⟨ascii "a", ascii "delete t", 0⟩
  have hnamed := (h.2 db hserve).1.named _ outcome hexecuted
  have hfails : db.changesDb thirdFails ⟨ascii "a", ascii "delete t", 0⟩ = false := by
    show decide ((db.log.map Prod.fst ++ [DbCommand.use (ascii "a")]).length ≠ 3) = false
    rw [hlog]
    rfl
  have hleft : (leavingServer : DatabaseInUse SybType).after db.log = ascii "b" := by
    rw [hlog]
    decide +kernel
  rw [inUse_executed leavingServer thirdFails db _ hexecuted, hfails, hleft] at hnamed
  exact absurd hnamed (by decide)

end DbRelay
