import DbRelay.Db.EmbeddedCsv
import DbRelay.Types

/-!
# Batches in a transaction

`dbrelay_exec_query` over the backend for DB-Library, with what it sends to the database and
what the library answers.

* A batch can have many statements.  `dbsqlexec` tells how the first one went.  The others
  are told by `dbresults`, which the loop of `dbrelay_db_fill_data` calls.
* `AllOrNothing` is what the flag `xact` is for, as a property of the commands and their
  outcomes.
* `execQuery_allOrNothing_iff`: the outcomes with which it holds.

An outcome may depend on all commands that were sent on the connection.
-/

namespace DbRelay

variable {T : Type}

/-! ## The client library -/

/-- A command for the database.  The first three are texts of `api->catalogsql`. -/
inductive DbCommand
  | beginTran
  | commitTran
  | rollbackTran
  | use (database : List UInt8)
  | batch (sql : List UInt8)
  deriving DecidableEq, Repr

/-- The return codes of `dbresults`. -/
inductive RetCode
  | succeed
  | fail
  | noMoreResults
  deriving DecidableEq, Repr

/-- A statement of a batch that `dbresults` comes to. -/
structure Statement (T : Type) where
  ok : Bool
  /-- What the other calls then say about the result set. -/
  result : ResultSet T

/-- What comes of a command: the return code of `dbsqlexec` or `dbuse`, and what is left for
`dbresults`. -/
structure Outcome (T : Type) where
  ok : Bool
  results : List (Statement T) := []

/-- The outcome of the last of some commands. -/
abbrev Outcomes (T : Type) := List DbCommand → Outcome T

/-- `mssql_db_t`. -/
structure MssqlDb (T : Type) where
  /-- The commands that were sent, with their outcomes. -/
  log : List (DbCommand × Outcome T) := []
  pending : List (Statement T) := []
  current : Option (ResultSet T) := none

namespace MssqlDb

/-- `dbrelay_mssql_exec`, and `dbrelay_mssql_change_db` for the command `use`. -/
def exec (outcomes : Outcomes T) (db : MssqlDb T) (command : DbCommand) : Bool × MssqlDb T :=
  let outcome := outcomes (db.log.map Prod.fst ++ [command])
  (outcome.ok,
    { db with log := db.log ++ [(command, outcome)], pending := outcome.results })

theorem exec_log (outcomes : Outcomes T) (db : MssqlDb T) (command : DbCommand) :
    (db.exec outcomes command).2.log =
      db.log ++ [(command, outcomes (db.log.map Prod.fst ++ [command]))] := rfl

def dbresults (db : MssqlDb T) : RetCode × MssqlDb T :=
  match db.pending with
  | [] => (.noMoreResults, db)
  | statement :: pending =>
    (if statement.ok then .succeed else .fail,
      { db with pending := pending, current := some statement.result })

/-- `dbrelay_mssql_has_results`.  It binds a buffer to each column, and there is no result if
it cannot. -/
def hasResults (db : MssqlDb T) : Option (Bool × MssqlDb T) :=
  let (rc, db) := db.dbresults
  if rc = .noMoreResults then some (false, db)
  else if ∀ result ∈ db.current, Mssql.Binds result.columns then some (true, db)
  else none

theorem hasResults_nil {db : MssqlDb T} (h : db.pending = []) :
    db.hasResults = some (false, db) := by
  rw [hasResults, dbresults, h]
  rfl

/-- A statement that failed has results, like any other one. -/
theorem hasResults_cons {db : MssqlDb T} {statement : Statement T} {pending : List (Statement T)}
    (h : db.pending = statement :: pending) :
    db.hasResults =
      if Mssql.Binds statement.result.columns then
        some (true, { db with pending := pending, current := some statement.result })
      else none := by
  rw [hasResults, dbresults, h]
  cases hok : statement.ok <;> simp [hok]

/-- The loop of `dbrelay_db_fill_data`: the result sets that it writes. -/
def fetchResults (db : MssqlDb T) : Option (List (ResultSet T) × MssqlDb T) :=
  match _h : db.hasResults with
  | none => none
  | some (false, db) => some ([], db)
  | some (true, next) =>
    next.fetchResults.map fun (results, last) => (next.current.toList ++ results, last)
  termination_by db.pending.length
  decreasing_by
    cases hpending : db.pending with
    | nil =>
      rw [hasResults_nil hpending] at _h
      cases _h
    | cons statement pending =>
      rw [hasResults_cons hpending] at _h
      split at _h
      · cases _h
        exact Nat.lt_succ_self _
      · cases _h

theorem fetchResults_nil {db : MssqlDb T} (h : db.pending = []) :
    db.fetchResults = some ([], db) := by
  rw [fetchResults]
  split
  · rename_i hnone
    rw [hasResults_nil h] at hnone
    cases hnone
  · rename_i hdone
    rw [hasResults_nil h] at hdone
    cases hdone
    rfl
  · rename_i hmore
    rw [hasResults_nil h] at hmore
    cases hmore

theorem fetchResults_cons {db : MssqlDb T} {statement : Statement T}
    {pending : List (Statement T)} (h : db.pending = statement :: pending) :
    db.fetchResults =
      if Mssql.Binds statement.result.columns then
        (fetchResults { db with pending := pending, current := some statement.result }).map
          fun (results, last) => (statement.result :: results, last)
      else none := by
  rw [fetchResults]
  split
  · rename_i hnone
    rw [hasResults_cons h] at hnone
    split at hnone
    · cases hnone
    · rename_i hunbound
      rw [if_neg hunbound]
  · rename_i hdone
    rw [hasResults_cons h] at hdone
    split at hdone
    · cases hdone
    · cases hdone
  · rename_i next hmore
    rw [hasResults_cons h] at hmore
    split at hmore
    · rename_i hbinds
      cases hmore
      rw [if_pos hbinds]
      rfl
    · cases hmore

/-- The loop goes on to the last statement of the batch, if all columns get their buffers. -/
theorem fetchResults_eq (db : MssqlDb T) :
    (∀ statement ∈ db.pending, Mssql.Binds statement.result.columns) ∧
        (∃ last, db.fetchResults = some (db.pending.map Statement.result, last) ∧
          last.log = db.log) ∨
      ¬(∀ statement ∈ db.pending, Mssql.Binds statement.result.columns) ∧
        db.fetchResults = none := by
  generalize hpending : db.pending = pending
  induction pending generalizing db with
  | nil =>
    refine .inl ⟨fun statement hmem => absurd hmem List.not_mem_nil, db, ?_, rfl⟩
    rw [fetchResults_nil hpending, List.map_nil]
  | cons statement pending ih =>
    rw [fetchResults_cons hpending, List.forall_mem_cons]
    by_cases hbinds : Mssql.Binds statement.result.columns
    · rw [if_pos hbinds, and_iff_right hbinds]
      rcases ih { db with pending := pending, current := some statement.result } rfl with
        ⟨hrest, last, hlast, hlog⟩ | ⟨hrest, hnone⟩
      · refine .inl ⟨hrest, last, ?_, hlog⟩
        rw [hlast, List.map_cons]
        rfl
      · refine .inr ⟨hrest, ?_⟩
        rw [hnone]
        rfl
    · refine .inr ⟨fun h => hbinds h.1, ?_⟩
      rw [if_neg hbinds]

end MssqlDb

/-! ## The query -/

/-- `dbrelay_exec_query`.  The text is `none` for `NULL`.  There is no result where a copy does
not fit its buffer, or a result set the arrays of the connection. -/
def execQuery (api : DbApi T) (stale : CString) (outcomes : Outcomes T) (db : MssqlDb T)
    (database sql : List UInt8) (flags : UInt64) :
    Option (Option (List UInt8) × MssqlDb T) :=
  let mode := if flags &&& flagEmbedcsv ≠ 0 then .csv else .std
  let db := (db.exec outcomes (.use database)).2
  let db := if flags &&& flagXact ≠ 0 then (db.exec outcomes .beginTran).2 else db
  let (ok, db) := db.exec outcomes (.batch sql)
  if ok then
    db.fetchResults.bind fun (results, db) =>
      (queryText api stale (decide (flags &&& flagPp ≠ 0)) mode results).map fun ret =>
        (some ret, if flags &&& flagXact ≠ 0 then (db.exec outcomes .commitTran).2 else db)
  else some (none, if flags &&& flagXact ≠ 0 then (db.exec outcomes .rollbackTran).2 else db)

/-- Both modes write the result sets whose texts fit. -/
theorem queryText_isSome_iff (api : DbApi T) (stale : CString) (prettyprint : Bool)
    (mode : JsonMode) (results : List (ResultSet T)) :
    (queryText api stale prettyprint mode results).isSome = true ↔
      ∀ result ∈ results, ResultWritable api result := by
  cases mode with
  | std =>
    rw [queryText_std]
    split
    · rename_i hfits
      exact iff_of_true rfl hfits
    · rename_i hfits
      exact iff_of_false Bool.false_ne_true hfits
  | csv =>
    rw [queryText_csv]
    split
    · rename_i hfits
      exact iff_of_true rfl hfits
    · rename_i hfits
      exact iff_of_false Bool.false_ne_true hfits

/-! ## All or nothing -/

/-- Each statement of a batch succeeds. -/
def Outcome.Succeeds (outcome : Outcome T) : Prop :=
  outcome.ok = true ∧ ∀ statement ∈ outcome.results, statement.ok = true

/-- The transaction was begun, and each statement in it succeeded. -/
def Worked (sql : List UInt8) (events : List (DbCommand × Outcome T)) : Prop :=
  (∃ outcome, (.beginTran, outcome) ∈ events ∧ outcome.ok = true) ∧
    ∃ outcome, (.batch sql, outcome) ∈ events ∧ outcome.Succeeds

/-- What the flag is for. -/
structure AllOrNothing (sql : List UInt8) (events : List (DbCommand × Outcome T)) : Prop where
  commit_iff : .commitTran ∈ events.map Prod.fst ↔ Worked sql events
  rollback_iff : .rollbackTran ∈ events.map Prod.fst ↔ ¬Worked sql events
  /-- The batch is only sent in a transaction. -/
  inside : ∀ before outcome after, events = before ++ (.batch sql, outcome) :: after →
    ∃ outcome', (.beginTran, outcome') ∈ before ∧ outcome'.ok = true

/-- What a query sends. -/
def ExecQueryAllOrNothing (api : DbApi T) (stale : CString) (outcomes : Outcomes T)
    (db : MssqlDb T) (database sql : List UInt8) (flags : UInt64) : Prop :=
  ∃ ret db' events, execQuery api stale outcomes db database sql flags = some (ret, db') ∧
    db'.log = db.log ++ events ∧ AllOrNothing sql events

/-- The outcome of the command that begins the transaction, and the one of the batch. -/
def beginOutcome (outcomes : Outcomes T) (db : MssqlDb T) (database : List UInt8) : Outcome T :=
  outcomes (db.log.map Prod.fst ++ [.use database, .beginTran])
def batchOutcome (outcomes : Outcomes T) (db : MssqlDb T) (database sql : List UInt8) :
    Outcome T :=
  outcomes (db.log.map Prod.fst ++ [.use database, .beginTran, .batch sql])

/-- The connection after the batch was sent in a transaction. -/
def MssqlDb.afterBatch (outcomes : Outcomes T) (db : MssqlDb T) (database sql : List UInt8) :
    MssqlDb T :=
  (((db.exec outcomes (.use database)).2.exec outcomes .beginTran).2.exec outcomes
    (.batch sql)).2

theorem afterBatch_log (outcomes : Outcomes T) (db : MssqlDb T) (database sql : List UInt8) :
    (∃ used, (db.afterBatch outcomes database sql).log =
      db.log ++ [(.use database, used), (.beginTran, beginOutcome outcomes db database),
        (.batch sql, batchOutcome outcomes db database sql)]) ∧
      (((db.exec outcomes (.use database)).2.exec outcomes .beginTran).2.exec outcomes
        (.batch sql)).1 = (batchOutcome outcomes db database sql).ok ∧
      (db.afterBatch outcomes database sql).pending =
        (batchOutcome outcomes db database sql).results := by
  have hbegin : db.log.map Prod.fst ++ [.use database] ++ [.beginTran] =
      db.log.map Prod.fst ++ [.use database, .beginTran] := List.append_assoc _ _ _
  have hbatch : db.log.map Prod.fst ++ [.use database, .beginTran] ++ [.batch sql] =
      db.log.map Prod.fst ++ [.use database, .beginTran, .batch sql] := List.append_assoc _ _ _
  have hsent : (((db.exec outcomes (.use database)).2.exec outcomes .beginTran).2).log.map
      Prod.fst ++ [.batch sql] =
      db.log.map Prod.fst ++ [.use database, .beginTran, .batch sql] := by
    rw [MssqlDb.exec_log, MssqlDb.exec_log, List.map_append, List.map_append, ← hbatch, ← hbegin]
    rfl
  refine ⟨⟨outcomes (db.log.map Prod.fst ++ [.use database]), ?_⟩, ?_, ?_⟩
  · rw [MssqlDb.afterBatch, MssqlDb.exec_log, hsent, MssqlDb.exec_log, MssqlDb.exec_log,
      List.map_append, beginOutcome, ← hbegin, List.append_assoc, List.append_assoc]
    rfl
  · exact congrArg (fun sent => (outcomes sent).ok) hsent
  · exact congrArg (fun sent => (outcomes sent).results) hsent

/-- What a query with the flag sends, if the outcome of the last command is `ended`. -/
def xactEvents (outcomes : Outcomes T) (db : MssqlDb T) (database sql : List UInt8)
    (used ended : Outcome T) : List (DbCommand × Outcome T) :=
  [(.use database, used), (.beginTran, beginOutcome outcomes db database),
    (.batch sql, batchOutcome outcomes db database sql),
    (if (batchOutcome outcomes db database sql).ok then .commitTran else .rollbackTran, ended)]

/-- The connection has buffers for the columns of the result set, and so has the writer. -/
def HasRoom (api : DbApi T) (statement : Statement T) : Prop :=
  Mssql.Binds statement.result.columns ∧ ResultWritable api statement.result

/-- The text of the result sets that the loop fetches. -/
theorem fetchedText_eq (api : DbApi T) (stale : CString) (prettyprint : Bool) (mode : JsonMode)
    (db : MssqlDb T) :
    (∀ statement ∈ db.pending, HasRoom api statement) ∧
        (∃ last text, (db.fetchResults.bind fun (results, last) =>
            (queryText api stale prettyprint mode results).map fun text => (text, last)) =
          some (text, last) ∧ last.log = db.log) ∨
      ¬(∀ statement ∈ db.pending, HasRoom api statement) ∧
        (db.fetchResults.bind fun (results, last) =>
          (queryText api stale prettyprint mode results).map fun text => (text, last)) = none := by
  have hsome := queryText_isSome_iff api stale prettyprint mode
    (db.pending.map Statement.result)
  rw [List.forall_mem_map] at hsome
  rcases db.fetchResults_eq with ⟨hbinds, last, hlast, hlog⟩ | ⟨hunbound, hnone⟩
  · rw [hlast, Option.bind_some]
    by_cases hfits : ∀ statement ∈ db.pending, ResultWritable api statement.result
    · obtain ⟨text, htext⟩ := Option.isSome_iff_exists.1 (hsome.2 hfits)
      refine .inl ⟨fun statement hmem => ⟨hbinds statement hmem, hfits statement hmem⟩, last,
        text, ?_, hlog⟩
      simp only [htext, Option.map_some]
    · refine .inr ⟨fun h => hfits fun statement hmem => (h statement hmem).2, ?_⟩
      simp only [Option.map_eq_none_iff]
      rw [← Option.not_isSome_iff_eq_none]
      exact fun h => hfits (hsome.1 h)
  · refine .inr ⟨fun h => hunbound fun statement hmem => (h statement hmem).1, ?_⟩
    rw [hnone, Option.bind_none]

/-- Only the first statement of the batch decides about the last command. -/
theorem execQuery_xact (api : DbApi T) (stale : CString) (outcomes : Outcomes T) (db : MssqlDb T)
    (database sql : List UInt8) {flags : UInt64} (hxact : flags &&& flagXact ≠ 0) :
    ((batchOutcome outcomes db database sql).ok = true →
        ∀ statement ∈ (batchOutcome outcomes db database sql).results,
          HasRoom api statement) ∧
      (∃ ret db' used ended,
        execQuery api stale outcomes db database sql flags = some (ret, db') ∧
          db'.log = db.log ++ xactEvents outcomes db database sql used ended) ∨
    ¬((batchOutcome outcomes db database sql).ok = true →
        ∀ statement ∈ (batchOutcome outcomes db database sql).results,
          HasRoom api statement) ∧
      execQuery api stale outcomes db database sql flags = none := by
  have hquery : execQuery api stale outcomes db database sql flags =
      if (batchOutcome outcomes db database sql).ok then
        ((db.afterBatch outcomes database sql).fetchResults.bind fun (results, last) =>
          (queryText api stale (decide (flags &&& flagPp ≠ 0))
            (if flags &&& flagEmbedcsv ≠ 0 then .csv else .std) results).map fun text =>
              (text, last)).map fun (text, last) =>
                (some text, (last.exec outcomes .commitTran).2)
      else some (none, ((db.afterBatch outcomes database sql).exec outcomes .rollbackTran).2) := by
    rw [← (afterBatch_log outcomes db database sql).2.1, Option.map_bind]
    simp only [execQuery, if_pos hxact, Function.comp_def, Option.map_map]
    rfl
  rcases afterBatch_log outcomes db database sql with ⟨⟨used, hlog⟩, -, hpending⟩
  have hfetched := fetchedText_eq api stale (decide (flags &&& flagPp ≠ 0))
    (if flags &&& flagEmbedcsv ≠ 0 then .csv else .std) (db.afterBatch outcomes database sql)
  rw [hpending] at hfetched
  by_cases hfirst : (batchOutcome outcomes db database sql).ok = true
  · rw [if_pos hfirst] at hquery
    rcases hfetched with ⟨hroom, last, text, htext, hlast⟩ | ⟨hroom, hnone⟩
    · refine .inl ⟨fun _ => hroom, ?_⟩
      rw [htext] at hquery
      refine ⟨some text, _, used, outcomes (last.log.map Prod.fst ++ [.commitTran]), hquery, ?_⟩
      rw [MssqlDb.exec_log, hlast, hlog, List.append_assoc, xactEvents, if_pos hfirst]
      rfl
    · refine .inr ⟨fun h => hroom (h hfirst), ?_⟩
      rw [hquery, hnone, Option.map_none]
  · rw [if_neg hfirst] at hquery
    refine .inl ⟨fun h => absurd h hfirst, none, _, used,
      outcomes ((db.afterBatch outcomes database sql).log.map Prod.fst ++ [.rollbackTran]),
      hquery, ?_⟩
    rw [MssqlDb.exec_log, hlog, List.append_assoc, xactEvents, if_neg hfirst]
    rfl

/-- The four commands are all or nothing if the transaction was begun and no statement but the
first one fails. -/
theorem allOrNothing_xactEvents_iff (outcomes : Outcomes T) (db : MssqlDb T)
    (database sql : List UInt8) (used ended : Outcome T) :
    AllOrNothing sql (xactEvents outcomes db database sql used ended) ↔
      (beginOutcome outcomes db database).ok = true ∧
        ((batchOutcome outcomes db database sql).ok = true →
          ∀ statement ∈ (batchOutcome outcomes db database sql).results,
            statement.ok = true) := by
  rw [xactEvents]
  generalize beginOutcome outcomes db database = begun
  generalize batchOutcome outcomes db database sql = outcome
  have hworked : ∀ last : DbCommand, last = .commitTran ∨ last = .rollbackTran →
      (Worked sql [(.use database, used), (.beginTran, begun), (.batch sql, outcome),
        (last, ended)] ↔ begun.ok = true ∧ outcome.Succeeds) := by
    rintro last (rfl | rfl) <;> simp [Worked]
  have hinside : ∀ last : DbCommand × Outcome T, begun.ok = true →
      ∀ before o after, [(.use database, used), (.beginTran, begun), (.batch sql, outcome), last] =
        before ++ (DbCommand.batch sql, o) :: after →
      ∃ outcome', (DbCommand.beginTran, outcome') ∈ before ∧ outcome'.ok = true := by
    intro last hbegun before o after heq
    rcases before with _ | ⟨x, _ | ⟨y, before⟩⟩
    · cases heq
    · cases heq
    · rw [List.cons_append, List.cons_append, List.cons.injEq, List.cons.injEq] at heq
      exact ⟨begun, heq.2.1 ▸ List.mem_cons_of_mem x List.mem_cons_self, hbegun⟩
  constructor
  · intro hgiven
    obtain ⟨hcommit, hrollback, hin⟩ := hgiven
    rcases hin [(.use database, used), (.beginTran, begun)] outcome _ rfl with
      ⟨outcome', hmem, hok⟩
    have hbegun : outcome' = begun := by simpa using hmem
    refine ⟨hbegun ▸ hok, fun hfirst => ?_⟩
    rw [if_pos hfirst, hworked _ (.inl rfl)] at hcommit
    exact (hcommit.1 (by simp)).2.2
  · intro hgiven
    obtain ⟨hbegun, hlater⟩ := hgiven
    by_cases hfirst : outcome.ok = true
    · have hsucceeds : begun.ok = true ∧ outcome.Succeeds := ⟨hbegun, hfirst, hlater hfirst⟩
      refine ⟨?_, ?_, hinside _ hbegun⟩
      · rw [if_pos hfirst, hworked _ (.inl rfl)]
        exact iff_of_true (by simp) hsucceeds
      · rw [if_pos hfirst, hworked _ (.inl rfl)]
        exact iff_of_false (by simp) fun h => h hsucceeds
    · have hfails : ¬(begun.ok = true ∧ outcome.Succeeds) := fun h => hfirst h.2.1
      refine ⟨?_, ?_, hinside _ hbegun⟩
      · rw [if_neg hfirst, hworked _ (.inr rfl)]
        exact iff_of_false (by simp) hfails
      · rw [if_neg hfirst, hworked _ (.inr rfl)]
        exact iff_of_true (by simp) hfails

/-- A query with the flag is all or nothing exactly when the transaction begins, and each
statement of a batch whose first one succeeds does so too and delivers columns that get their
buffers and texts that fit. -/
theorem execQuery_allOrNothing_iff (api : DbApi T) (stale : CString) (outcomes : Outcomes T)
    (db : MssqlDb T) (database sql : List UInt8) (flags : UInt64)
    (hxact : flags &&& flagXact ≠ 0) :
    ExecQueryAllOrNothing api stale outcomes db database sql flags ↔
      (beginOutcome outcomes db database).ok = true ∧
        ((batchOutcome outcomes db database sql).ok = true →
          ∀ statement ∈ (batchOutcome outcomes db database sql).results,
            statement.ok = true ∧ HasRoom api statement) := by
  have hsplit : ((batchOutcome outcomes db database sql).ok = true →
      ∀ statement ∈ (batchOutcome outcomes db database sql).results,
        statement.ok = true ∧ HasRoom api statement) ↔
      ((batchOutcome outcomes db database sql).ok = true →
        ∀ statement ∈ (batchOutcome outcomes db database sql).results, statement.ok = true) ∧
      ((batchOutcome outcomes db database sql).ok = true →
        ∀ statement ∈ (batchOutcome outcomes db database sql).results,
          HasRoom api statement) := by
    rw [← imp_and]
    exact imp_congr_right fun _ => forall₂_and
  rw [hsplit, ← and_assoc]
  rcases execQuery_xact api stale outcomes db database sql hxact with
    ⟨hfits, ret, db', used, ended, hquery, hlog⟩ | ⟨hfits, hquery⟩
  · rw [and_iff_left hfits, ← allOrNothing_xactEvents_iff outcomes db database sql used ended]
    constructor
    · intro hgiven
      obtain ⟨ret', db'', events, hquery', hlog', hall⟩ := hgiven
      cases hquery.symm.trans hquery'
      rwa [List.append_cancel_left (hlog.symm.trans hlog')]
    · exact fun hall => ⟨ret, db', _, hquery, hlog, hall⟩
  · refine iff_of_false ?_ fun h => hfits h.2
    intro hgiven
    obtain ⟨ret, db', events, hquery', -⟩ := hgiven
    cases hquery.symm.trans hquery'

/-- A result set without columns. -/
def noColumns : ResultSet T where
  columns := []
  rows := []
  rowcount := 1
  width _ h := absurd h List.not_mem_nil

/-- A batch whose statements go as in `results`. -/
def twoStatements (results : List Bool) : Outcomes T := fun commands =>
  match commands.getLast? with
  | some (.batch _) => ⟨true, results.map fun ok => ⟨ok, noColumns⟩⟩
  | _ => ⟨true, []⟩

theorem execQuery_allOrNothing_twoStatements :
    ExecQueryAllOrNothing mssql .empty (twoStatements [true, true]) {} (ascii "db")
      (ascii "update a update b") flagXact :=
  (execQuery_allOrNothing_iff mssql .empty (twoStatements [true, true]) {} (ascii "db")
    (ascii "update a update b") flagXact (by decide)).2 ⟨rfl, by
      rintro - statement hmem
      rcases List.mem_map.1 hmem with ⟨ok, hok, rfl⟩
      have hbinds : Mssql.Binds (noColumns : ResultSet SybType).columns := by decide
      exact ⟨by simpa using hok, hbinds, decide_eq_true hbinds,
        fun row hrow => absurd hrow List.not_mem_nil⟩⟩

/-- The second statement fails, and the first one is committed. -/
theorem not_execQueryAllOrNothing_secondFails :
    ¬ExecQueryAllOrNothing mssql .empty (twoStatements [true, false]) {} (ascii "db")
      (ascii "update a update b") flagXact := by
  intro h
  obtain ⟨ret, db', events, hquery, hlog, hall⟩ := h
  rcases execQuery_xact mssql .empty (twoStatements [true, false]) {} (ascii "db")
    (ascii "update a update b") (show flagXact &&& flagXact ≠ 0 by decide) with
    ⟨-, ret', db'', used, ended, hquery', hlog'⟩ | ⟨-, hquery'⟩
  · cases hquery.symm.trans hquery'
    cases hlog.symm.trans hlog'
    have hlater := ((allOrNothing_xactEvents_iff _ _ _ _ used ended).1 hall).2 rfl
    have hfailed := hlater ⟨false, noColumns⟩ (by
      show _ ∈ [(⟨true, noColumns⟩ : Statement SybType), ⟨false, noColumns⟩]
      simp)
    cases hfailed
  · cases hquery.symm.trans hquery'

end DbRelay
