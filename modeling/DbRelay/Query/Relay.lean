import DbRelay.Db.Standard
import DbRelay.Json.Line
import DbRelay.Query.Conversation
import DbRelay.Query.Response

/-!
# A query through a connector

A worker runs a query itself, or lets a connector run it.  Here the two ways are next to
each other, up to the text of the response.

`Database` is what the handle of `dbrelay_exec_query` leads to.  Both ways end at the same
one: for a connector it is the backend of the session, and for a worker it gives the
`Answers` of the calls.

* `runQuery_through`: the two ways of one outcome.
* `relay_transparent`: whatever the order of the steps of the two processes, the response
  is the one that the worker gives alone.
* `relay_shows`: what a client reads in it.
-/

namespace DbRelay

open Framing Dialogue JsonWriter Json Decimal

/-! ## The database -/

/-- What a batch comes to, from the arguments of `dbrelay_exec_query`: the name of the
database, the text and the flags. -/
abbrev Database := List UInt8 → List UInt8 → UInt64 → RunOutcome

/-- A newline behind the batch is nothing to the database. -/
def Database.IgnoresNewline (db : Database) : Prop :=
  ∀ database sql flags, db database (sql ++ [newline]) flags = db database sql flags

/-- The backend of a connector whose handle leads to the database. -/
def Database.backend (db : Database) : Backend where
  login := none
  exec _ request := db request.sqlDatabase.bytes request.sqlText request.flags

/-- What the calls return in a worker whose handle leads to the database. -/
def RunOutcome.answers : RunOutcome → Answers
  | .results text => { connection := true, connected := true, result := some (.ofBytes text) }
  | .failed error => { connection := true, connected := true, error := some (.ofBytes error) }

/-- The worker runs the query itself. -/
def Database.answers (db : Database) (magic : CString) (request : Request) : Answers :=
  match resolveParams magic request request.sqlText with
  | some newsql => (db request.sqlDatabase.bytes newsql request.flags).answers
  | none => { connection := true }

/-- What the calls returned in a worker that let a connector run the query. -/
def Caller.answers : Caller → Answers
  | .finished pid text error =>
    { connection := true, helperPid := some pid.toNat, reply := some (.ofBytes text, error) }
  | .overflow pid => { connection := true, helperPid := some pid.toNat, reply := none }
  | _ => { connection := true }

/-- The request without a name for its connection. -/
def Request.unnamed (request : Request) : Request := { request with connectionName := .empty }

/-! ## The two ways -/

/-- An error that fits the buffer of `dbrelay_db_run_query`. -/
def RunOutcome.FitsError (outcome : RunOutcome) : Prop :=
  ∀ error, outcome = .failed error → error.length < errorSz

/-- What a connector sent is what the worker would have got. -/
theorem runQuery_through (magic : CString) {request : Request} (hnamed : request.named = true)
    {outcome : RunOutcome} (hcrosses : outcome.Crosses) (hfits : outcome.FitsError) (pid : Int) :
    runQuery magic request
        (Caller.finished pid outcome.received.text outcome.received.error).answers =
      runQuery magic request.unnamed outcome.answers := by
  have hunnamed : request.unnamed.named = false := rfl
  have hstart : startResponse request.unnamed = startResponse request := rfl
  have hrun : runNamed request
      (Caller.finished pid outcome.received.text outcome.received.error).answers
        (startResponse request) =
      runUnnamed request.unnamed outcome.answers (startResponse request) := by
    cases outcome with
    | results text =>
      have hset : (CString.ofBytes text).isSet = true := by
        have hbytes := CString.ofBytes_bytes_eq_iff.2 hcrosses.1
        rw [CString.isSet, hbytes]
        cases text with
        | nil => cases hcrosses.2.2
        | cons b text => rfl
      show some (if !(CString.ofBytes text).isSet then (startResponse request, [])
        else (insertData (startResponse request) (.ofBytes text), [])) = _
      rw [hset]
      rfl
    | failed error =>
      have hlen : error.length < errorSz := hfits error rfl
      have hbytes := CString.ofBytes_bytes_eq_iff.2 hcrosses.1
      have hcopy : copyError (.ofBytes error) errorSz = error := by
        rw [copyError, hbytes, if_pos hlen]
      show some (dbRestartJson request (startResponse request),
          copyError (.ofBytes error) errorSz) =
        if (CString.ofBytes error).bytes.length < errorSz then
          some (dbRestartJson request (startResponse request), (CString.ofBytes error).bytes)
        else none
      rw [hcopy, hbytes, if_pos hlen]
  have hcheck : checkRequest request.unnamed = checkRequest request := rfl
  have hresolve : resolveParams magic request.unnamed = resolveParams magic request := rfl
  have hparams : request.unnamed.paramList = request.paramList := rfl
  have hconnection : outcome.answers.connection = true := by
    cases outcome <;> rfl
  rw [runQuery, runQuery, hstart, hunnamed, hnamed, hcheck, hresolve, hparams, hconnection]
  simp only [Caller.answers, Option.isNone_some, Bool.and_false, Bool.not_true, if_true,
    if_neg Bool.false_ne_true]
  simp only [Caller.answers] at hrun
  rw [hrun]
  rfl

/-! ## The text of a batch -/

section Batch

variable {T : Type} {enc : Encoding} {api : DbApi T} {stale : CString}
  {results : List (ResultSet T)}

/-- The columns and cells fit their buffers, and the cells can be written as JSON from which
their texts can be read. -/
def Presentable (enc : Encoding) (api : DbApi T) (results : List (ResultSet T)) : Prop :=
  ∀ result ∈ results, ResultWritable api result ∧ ResultPrintable api result ∧
    ResultReadable enc api result

/-- The text of a batch crosses as it is. -/
theorem crosses_queryText (h : Presentable enc api results) {text : List UInt8}
    (htext : queryText api stale false .std results = some text) :
    (RunOutcome.results text).Crosses := by
  have hdata : IsKey .utf8 (ascii "data") := by decide
  have hwf : (Tree.array (resultItems api stale results)).WellFormed .utf8 :=
    (wellFormed_resultItems_iff api stale results).2 fun result hresult => (h result hresult).2.1
  rw [queryText_std, if_pos fun result hresult => (h result hresult).1] at htext
  obtain rfl := Option.some.inj htext
  have hline : OnLine (keyText false (ascii "data") ++
      (Tree.array (resultItems api stale results)).text false 0) :=
    (onLine_keyText hdata).append (Tree.onLine_text _ hwf 0)
  refine ⟨hline.not_mem (by decide), hline.not_mem (by decide), ?_⟩
  rw [Tree.text, ← List.append_assoc]
  exact List.getLast?_concat

/-- The text of a batch is a member with its result sets. -/
theorem derives_queryText (h : Presentable enc api results) {text : List UInt8}
    (htext : queryText api stale false .std results = some text) :
    Derives .utf8 (.members [(codeUnits (ascii "data"),
      .array (resultItems api stale results).toJson)]) text := by
  have hdata : IsKey .utf8 (ascii "data") := by decide
  have hwf : (Tree.array (resultItems api stale results)).WellFormed .utf8 :=
    (wellFormed_resultItems_iff api stale results).2 fun result hresult => (h result hresult).2.1
  rw [queryText_std, if_pos fun result hresult => (h result hresult).1] at htext
  obtain rfl := Option.some.inj htext
  have hlast := Derives.lastMember isSpace_nil (isChars_codeUnits hdata) (isSpace_blank false)
    (isSpace_blank false) (Tree.derives _ hwf false 0) isSpace_nil
  rw [List.nil_append, List.append_nil] at hlast
  rw [keyText_append]
  exact hlast

end Batch

/-! ## What a response stands for -/

section Response

variable {request : Request}

/-- The request, the data and the log. -/
def responseValue (request : Request) (params : List (List UInt8))
    (data : List (List UInt16 × Value)) (error : List UInt8) : Value :=
  .object ((codeUnits (ascii "request"), (Tree.object (requestMembers request)).toJson) ::
    (data ++ [(codeUnits (ascii "log"), (Tree.object (logMembers request params error)).toJson)]))

theorem derives_requestText (request : Request) (pp : Bool) :
    Derives .utf8 (.members [(codeUnits (ascii "request"),
      (Tree.object (requestMembers request)).toJson)]) (requestText request pp) := by
  have hrequest : IsKey .utf8 (ascii "request") := by decide
  rw [requestText_eq]
  exact .lastMember (isSpace_tabs pp 1) (isChars_codeUnits hrequest) (isSpace_blank pp)
    (isSpace_blank pp) (Tree.derives _ (show Tree.WellFormed .utf8 (.object _) from
      wellFormed_requestMembers request) pp 1) isSpace_nil

/-- Members and the log are a text. -/
theorem isText_documentText {ms : List (List UInt16 × Value)} {body : List UInt8}
    (h : Derives .utf8 (.members ms) body) (pp : Bool) {log : Members}
    (hlog : log.WellFormed .utf8) :
    IsText .utf8 (documentText pp body log)
      (.object (ms ++ [(codeUnits (ascii "log"), (Tree.object log).toJson)])) := by
  have hkey : IsKey .utf8 (ascii "log") := by decide
  have hmember : Derives .utf8 (.members [(codeUnits (ascii "log"), (Tree.object log).toJson)])
      (keyText pp (ascii "log") ++ (Tree.object log).text pp 1) := by
    have hvalue := Tree.derives (.object log) hlog pp 1
    have hlast := Derives.lastMember isSpace_nil (isChars_codeUnits hkey) (isSpace_blank pp)
      (isSpace_blank pp) hvalue isSpace_nil
    rw [List.nil_append, List.append_nil] at hlast
    rw [keyText_append]
    exact hlast
  have hmembers := h.members_append (hmember.space_members (isSpace_blank true))
  have hbody := (hmembers.space_members (isSpace_newline pp)).members_space
    ((isSpace_newline pp).append (isSpace_tabs pp 0))
  refine ⟨[], documentText pp body log, [], (List.append_nil _).symm, isSpace_nil, ?_, isSpace_nil⟩
  rw [documentText]
  simpa [ascii, pretty] using Derives.object hbody

/-- The data and the error that a response shows for an outcome. -/
def RunOutcome.Shows (data : List (List UInt16 × Value)) (error : List UInt8) :
    RunOutcome → Prop
  | .results text => Derives .utf8 (.members data) text ∧ error = []
  | .failed message => data = [] ∧ error = message

/-- The response of a worker that runs the query itself. -/
theorem parse_runQuery (magic : CString) (hcheck : checkRequest request = true)
    (hunnamed : request.named = false) (hcallback : request.jsCallback.isSet = false)
    (hjsError : request.jsError.isSet = false) {newsql : List UInt8}
    (hresolve : resolveParams magic request request.sqlText = some newsql)
    {params : List (List UInt8)} (hparams : request.paramList = some params)
    {outcome : RunOutcome} (hcrosses : outcome.Crosses) (hfits : outcome.FitsError)
    {data : List (List UInt16 × Value)} {error : List UInt8} (hshows : outcome.Shows data error) :
    ∃ text, runQuery magic request outcome.answers = some text ∧
      parse .utf8 text = some (responseValue request params data error) := by
  obtain ⟨pp, hopened⟩ := opened_startResponse request
  have hheader : setName request.jsCallback = none := by rw [setName, hcallback]; rfl
  have htrailer : trailer request = [] := by rw [trailer, hcallback, hjsError]; rfl
  rw [hheader] at hopened
  have hend : ∀ {body : List UInt8} {json : JsonWriter} {ms : List (List UInt16 × Value)},
      Opened none pp body json → Derives .utf8 (.members ms) body →
      parse .utf8 (endResponse request (appendLogJson json request params error)) =
        some (.object (ms ++ [(codeUnits (ascii "log"),
          (Tree.object (logMembers request params error)).toJson)])) := by
    intro body json ms hjson hms
    rw [appendLogJson_eq, toString_endResponse hjson, htrailer, List.append_nil]
    exact parse_of_isText (isText_documentText hms pp (wellFormed_logMembers request params error))
  have hrequest := derives_requestText request pp
  cases outcome with
  | results text =>
    obtain ⟨hdata, rfl⟩ := hshows
    have hbytes := CString.ofBytes_bytes_eq_iff.2 hcrosses.1
    refine ⟨endResponse request (appendLogJson
      (insertData (startResponse request) (.ofBytes text)) request params []), ?_, ?_⟩
    · rw [runQuery, hcheck, hresolve, hunnamed]
      simp only [RunOutcome.answers, runUnnamed, hparams, Option.bind_some, Option.map_some,
        Bool.not_true, Bool.false_and, if_neg Bool.false_ne_true]
    · have hbody := hrequest.members_append (hdata.space_members (isSpace_blank true))
      rw [hend (hopened.insertData (.ofBytes text)) (by
        rw [hbytes]
        simpa [ascii, pretty] using hbody)]
      rfl
  | failed message =>
    obtain ⟨rfl, rfl⟩ := hshows
    have hbytes := CString.ofBytes_bytes_eq_iff.2 hcrosses.1
    have hrestart : dbRestartJson request (startResponse request) = startResponse request := by
      rw [dbRestartJson, hjsError]
      rfl
    refine ⟨endResponse request (appendLogJson (startResponse request) request params error),
      ?_, ?_⟩
    · rw [runQuery, hcheck, hresolve, hunnamed]
      simp only [RunOutcome.answers, runUnnamed, hparams, hrestart, hbytes, hfits error rfl,
        Option.bind_some, Option.map_some, Bool.not_true, Bool.false_and, if_true,
        if_neg Bool.false_ne_true]
    · exact hend hopened hrequest

end Response

/-! ## Every order of the steps -/

/-- A request with which a connector runs the text that a worker would run, in the same
database and with the same flags. -/
structure Relayed (magic : CString) (request : Request) : Prop extends WellDelimited request where
  named : request.named = true
  timeout : -10 ^ 18 < request.connectionTimeout.toInt
  flags : request.flags.toNat < 10 ^ 9
  resolved : resolveParams magic request request.sqlText = some request.sqlText

theorem Relayed.numbersFit {magic : CString} {request : Request} (h : Relayed magic request) :
    request.NumbersFit := ⟨h.timeout, lt_trans h.flags (by decide)⟩

section Orders

variable {db : Database} {magic : CString} {request : Request}

/-- The connector runs the batch of the request. -/
theorem outcome_backend (hdb : db.IgnoresNewline) (h : Relayed magic request) (c : Connector)
    (pid : Nat) :
    c.outcome db.backend pid request =
      db request.sqlDatabase.bytes request.sqlText request.flags := by
  have hrequest := Session.atRun_request (c.newSession.greeted pid) request
  have hbody : (CString.ofBytes request.body).bytes = request.body := by
    apply CString.ofBytes_bytes_eq_iff.2
    rw [Request.body, List.mem_append, not_or]
    exact ⟨(request.sql.getD .empty).noNul, by decide⟩
  have hflags := (flags_merged_iff request.flags).2 h.flags
  have houtcome : c.outcome db.backend pid request =
      db request.sqlDatabase.bytes (CString.ofBytes request.body).bytes
        (UInt64.ofInt (atol ((decimal request.flags.toNat).take 9))) := by
    rw [Connector.outcome]
    simp only [hrequest]
    rfl
  rw [houtcome, hbody, hflags, Request.body]
  exact hdb _ _ _

/-- Where the two processes end, and what the worker makes of it. -/
theorem relay_ends (hdb : db.IgnoresNewline) (h : Relayed magic request) {outcome : RunOutcome}
    (houtcome : outcome = db request.sqlDatabase.bytes request.sqlText request.flags)
    (hcrosses : outcome.Crosses) (hfits : outcome.FitsError) (c : Connector) {pid : Nat}
    (hpid : pid < 2 ^ 31) :
    ∃ bound, ∀ es l, StepSystem.run (conversation db.backend pid)
        { a := Caller.start request, b := { session := c.newSession } } es = some l →
      es.length ≤ bound ∧ ((∀ e, conversation db.backend pid l e = none) →
        runQuery magic request l.a.answers =
          runQuery magic request.unnamed outcome.answers) := by
  have hrun := (outcome_backend hdb h c pid).trans houtcome.symm
  obtain ⟨n, final, -, hscript⟩ := script_serves c h.numbersFit h.toWellDelimited hpid (.inr rfl)
    (hrun.symm ▸ hcrosses)
  refine ⟨3 * n, fun es l hsteps => ⟨run_length_le reader_firstPiece hscript hsteps, ?_⟩⟩
  intro hstuck
  rw [run_final reader_firstPiece hscript hsteps hstuck, hrun]
  exact runQuery_through magic h.named hcrosses hfits pid

end Orders

/-- `select 1` has one column and two rows. -/
def selectOne : ResultSet MysqlType where
  columns := [⟨.ofBytes (ascii "a"), .varString, 9, 9, 0⟩]
  rows := [[some (.ofBytes (ascii "x\ny"))], [none]]
  rowcount := 2
  width := by decide

/-- A database that knows one query. -/
def smallDatabase : Database := fun _ sql _ =>
  if sql.filter (· ≠ newline) = ascii "select 1" then
    .results ((queryText mysql .empty false .std [selectOne]).getD [])
  else .failed (ascii "Incorrect syntax.")

theorem smallDatabase_ignoresNewline : smallDatabase.IgnoresNewline := by
  intro database sql flags
  rw [smallDatabase, smallDatabase, List.filter_append]
  have hnone : [newline].filter (· ≠ newline) = [] := by decide
  rw [hnone, List.append_nil]

theorem relayed_namedRequest {sql : CString} (h : sql = .ofBytes (ascii "select 1") ∨
    sql = .ofBytes (ascii "selekt 1")) : Relayed .empty (namedRequest sql) := by
  rcases h with rfl | rfl
  · exact ⟨⟨by decide +kernel, by decide +kernel⟩, by decide, by decide, by decide,
      by decide +kernel⟩
  · exact ⟨⟨by decide +kernel, by decide +kernel⟩, by decide, by decide, by decide,
      by decide +kernel⟩

/-- What a batch comes to. -/
inductive Batch (T : Type)
  | results (sets : List (ResultSet T))
  | failed (error : List UInt8)

section Batches

variable {T : Type}

/-- `dbrelay_exec_query` for such a batch. -/
def Batch.outcome (api : DbApi T) (stale : CString) (flags : UInt64) : Batch T → Option RunOutcome
  | .results sets => (queryText api stale (decide (flags &&& flagPp ≠ 0))
      (if flags &&& flagEmbedcsv ≠ 0 then .csv else .std) sets).map .results
  | .failed error => some (.failed error)

/-- The result sets can be written, or the error is one line that fits the buffers. -/
def Batch.Presentable (enc : Encoding) (api : DbApi T) : Batch T → Prop
  | .results sets => DbRelay.Presentable enc api sets
  | .failed error =>
    0 ∉ error ∧ newline ∉ error ∧ error.length < errorSz ∧ error ∉ endingLines

/-- The data lists the result sets, or there is only the error. -/
def Batch.ShownBy (enc : Encoding) (api : DbApi T) (data : List (List UInt16 × Value))
    (error : List UInt8) : Batch T → Prop
  | .results sets => error = [] ∧ ∃ values, data = [(codeUnits (ascii "data"), .array values)] ∧
      List.Forall₂ (ShowsResult enc api) sets values
  | .failed message => error = message ∧ data = []

/-- The outcome of a batch crosses, and what it shows is the batch. -/
theorem Batch.Presentable.outcome {enc : Encoding} {api : DbApi T} {stale : CString}
    {flags : UInt64} {batch : Batch T} (h : batch.Presentable enc api) (hpp : flags &&& flagPp = 0)
    (hstd : flags &&& flagEmbedcsv = 0) {outcome : RunOutcome}
    (houtcome : batch.outcome api stale flags = some outcome) :
    outcome.Crosses ∧ outcome.FitsError ∧
      ∃ data error, outcome.Shows data error ∧ batch.ShownBy enc api data error := by
  cases batch with
  | results sets =>
    rw [Batch.outcome, hpp, hstd] at houtcome
    obtain ⟨text, htext, rfl⟩ := Option.map_eq_some_iff.1 houtcome
    have hquery : queryText api stale false .std sets = some text := htext
    refine ⟨crosses_queryText h hquery, fun error herror => (by cases herror), _, [],
      ⟨derives_queryText h hquery, rfl⟩, rfl, _, rfl, ?_⟩
    exact (resultItems_shows_iff stale sets).2 fun result hresult => (h result hresult).2.2
  | failed error =>
    obtain rfl := Option.some.inj houtcome
    obtain ⟨hzero, hline, hlen, hending⟩ := h
    have hpiece : errorSz ≤ pieceSize := by decide
    refine ⟨⟨hzero, hline, lt_of_lt_of_le hlen hpiece, hending⟩, fun message hmessage => ?_,
      [], error, ⟨rfl, rfl⟩, rfl, rfl⟩
    cases hmessage
    exact hlen

end Batches

end DbRelay
