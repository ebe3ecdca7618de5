import DbRelay.Json.RoundTrip
import DbRelay.Query.RunQuery

/-!
# Each response is a document

The text that `dbrelay_db_run_query` returns is a JSON object, or a call of the callback
that was opened with such an object.

`Opened` says where the writer is between two calls: in the object of the document,
below the callback if there is one, with a text so far.  Each part of the document adds
to it, and the log ends it.

* `isExit_runQuery`: what each exit writes, with the callback that it opens.
* `completeResponse_iff`: the main exception is a request that names only a callback
  for errors and meets none.  The callback is closed, but it was never opened.
-/

namespace DbRelay

open JsonWriter Json Decimal

/-! ## The two objects in the document -/

/-- A member for a field that is set. -/
def setMember {size : Nat} (key : List UInt8) (field : CharBuf size) (rest : Members) : Members :=
  if field.isSet then .cons key (.string field.bytes) rest else rest

def requestMembers (request : Request) : Members :=
  setMember (ascii "query_tag") request.queryTag
    (.cons (ascii "sql_server") (.string request.sqlServer.bytes)
      (.cons (ascii "sql_user") (.string request.sqlUser.bytes)
        (setMember (ascii "sql_port") request.sqlPort
          (.cons (ascii "sql_database") (.string request.sqlDatabase.bytes) .nil))))

def paramMembers (i : Nat) : List (List UInt8) → Members
  | [] => .nil
  | param :: params =>
    .cons (ascii "param" ++ decimal i) (.string param) (paramMembers (i + 1) params)

/-- The log of the last exit. -/
def logMembers (request : Request) (params : List (List UInt8)) (errorString : List UInt8) :
    Members :=
  let rest := paramMembers 0 params
  let rest := if errorString ≠ [] then .cons (ascii "error") (.string errorString) rest else rest
  if request.flags &&& flagEchosql ≠ 0 then .cons (ascii "sql") (.string request.sqlText) rest
  else rest

/-- The log of the other exits. -/
def failMembers (request : Request) (errorString : List UInt8) : Members :=
  let rest := Members.cons (ascii "error") (.string errorString) .nil
  match request.sql with
  | some sql => .cons (ascii "sql") (.string sql.bytes) rest
  | none => rest

theorem run_setMember {size : Nat} (json : JsonWriter) (key : List UInt8) (field : CharBuf size)
    (rest : Members) :
    json.run (setMember key field rest).calls = (addIfSet json key field).run rest.calls := by
  rw [setMember, addIfSet]
  split
  · rfl
  · rfl

theorem appendRequestJson_eq (json : JsonWriter) (request : Request) :
    appendRequestJson json request =
      json.run ((Member.tree (.object (requestMembers request))).calls (ascii "request")) := by
  rw [Member.calls, Tree.calls, run_cons, run_cons, run_append, requestMembers, run_setMember,
    Members.calls, run_append, Members.calls, run_append, run_setMember]
  rfl

theorem addParams_eq (json : JsonWriter) (i : Nat) (params : List (List UInt8)) :
    addParams json i params = json.run (paramMembers i params).calls := by
  induction params generalizing json i with
  | nil => rfl
  | cons param params ih =>
    rw [addParams, ih, paramMembers, Members.calls, run_append]
    rfl

theorem appendLogJson_eq (json : JsonWriter) (request : Request) (params : List (List UInt8))
    (errorString : List UInt8) :
    appendLogJson json request params errorString =
      (json.run ((Member.tree (.object (logMembers request params errorString))).calls
        (ascii "log"))).endObject := by
  rw [Member.calls, Tree.calls, run_cons, run_cons, run_append, logMembers, appendLogJson,
    addParams_eq]
  by_cases hecho : request.flags &&& flagEchosql ≠ 0
  · simp only [if_pos hecho]
    by_cases herror : errorString ≠ []
    · simp only [if_pos herror]
      rfl
    · simp only [if_neg herror]
      rfl
  · simp only [if_neg hecho]
    by_cases herror : errorString ≠ []
    · simp only [if_pos herror]
      rfl
    · simp only [if_neg herror]
      rfl

theorem writeJsonLog_eq (json : JsonWriter) (request : Request) (errorString : List UInt8) :
    writeJsonLog json request errorString =
      (json.run ((Member.tree (.object (failMembers request errorString))).calls
        (ascii "log"))).endObject := by
  rw [writeJsonLog, failMembers]
  cases request.sql with
  | none => rfl
  | some sql => rfl

theorem wellFormed_setMember {size : Nat} {key : List UInt8} (hkey : IsKey .utf8 key)
    (field : CharBuf size) {rest : Members} (hrest : rest.WellFormed .utf8) :
    (setMember key field rest).WellFormed .utf8 := by
  rw [setMember]
  split
  · exact ⟨hkey, trivial, hrest⟩
  · exact hrest

theorem wellFormed_requestMembers (request : Request) :
    (requestMembers request).WellFormed .utf8 := by
  apply wellFormed_setMember (by decide)
  refine ⟨by decide, trivial, by decide, trivial, ?_⟩
  apply wellFormed_setMember (by decide)
  exact ⟨by decide, trivial, trivial⟩

theorem wellFormed_paramMembers (i : Nat) (params : List (List UInt8)) :
    (paramMembers i params).WellFormed .utf8 := by
  induction params generalizing i with
  | nil => exact trivial
  | cons param params ih =>
    refine ⟨?_, trivial, ih (i + 1)⟩
    have hprefix : IsKey .utf8 (ascii "param") := by decide
    have hnumber := @isKey_decimalInt .utf8 i
    rw [decimalInt_natCast] at hnumber
    exact hprefix.append hnumber

theorem wellFormed_logMembers (request : Request) (params : List (List UInt8))
    (errorString : List UInt8) : (logMembers request params errorString).WellFormed .utf8 := by
  have hparams := wellFormed_paramMembers 0 params
  have herror : (if errorString ≠ [] then
      Members.cons (ascii "error") (.string errorString) (paramMembers 0 params)
      else paramMembers 0 params).WellFormed .utf8 := by
    split
    · exact ⟨by decide, trivial, hparams⟩
    · exact hparams
  rw [logMembers]
  split
  · exact ⟨by decide, trivial, herror⟩
  · exact herror

theorem wellFormed_failMembers (request : Request) (errorString : List UInt8) :
    (failMembers request errorString).WellFormed .utf8 := by
  have herror : (Members.cons (ascii "error") (.string errorString) .nil).WellFormed .utf8 :=
    ⟨by decide, trivial, trivial⟩
  rw [failMembers]
  split
  · exact ⟨by decide, trivial, herror⟩
  · exact herror

/-! ## The document while it is written -/

/-- What opens a callback. -/
def header : Option (List UInt8) → List UInt8
  | some name => name ++ ascii "("
  | none => []

/-- The writer before the document. -/
def headed (pp : Bool) : Option (List UInt8) → JsonWriter
  | some name => (JsonWriter.new pp).addCallback name
  | none => JsonWriter.new pp

theorem headed_wrote (pp : Bool) (callback : Option (List UInt8)) :
    Wrote (JsonWriter.new pp) (header callback) (headed pp callback) := by
  cases callback with
  | none => exact .refl _
  | some name => exact ((Wrote.refl (JsonWriter.new pp)).append name).append (ascii "(")

/-- The writer has opened `callback` and an object, and `body` is written in it. -/
def Opened (callback : Option (List UInt8)) (pp : Bool) (body : List UInt8) (json : JsonWriter) :
    Prop :=
  Wrote { (headed pp callback).newObject with
    stack := [{ nodeType := .object, numItems := 2 }] } body json

/-- The member with the request, and what comes before it. -/
def requestText (request : Request) (pp : Bool) : List UInt8 :=
  tabs pp 1 ++ keyText pp (ascii "request") ++
    (Tree.object (requestMembers request)).text pp 1

/-- A document with one more member, the log. -/
def documentText (pp : Bool) (body : List UInt8) (log : Members) : List UInt8 :=
  ascii "\x7b" ++ pretty pp (ascii "\n") ++ (body ++ (ascii ", " ++ keyText pp (ascii "log") ++
    (Tree.object log).text pp 1)) ++ pretty pp (ascii "\n") ++ tabs pp 0 ++ ascii "\x7d"

/-- The object of the document was just opened. -/
theorem headed_newObject (callback : Option (List UInt8)) (pp : Bool) :
    (headed pp callback).newObject.stack = [{ nodeType := .object }] ∧
      (headed pp callback).newObject.pending = false ∧
      (headed pp callback).newObject.tabLevel = 1 ∧
      (headed pp callback).newObject.prettyprint = pp := by
  have hheaded := (headed_wrote pp callback).unchanged
  have hnew := (newNode_wrote (headed pp callback) .object (ascii "\x7b")).unchanged
  simp only [hheaded.1, hheaded.2.2.1, hheaded.2.2.2.1] at hnew
  exact ⟨hnew.1, hnew.2.1, hnew.2.2.1, hnew.2.2.2.1⟩

theorem opened_appendRequestJson (callback : Option (List UInt8)) (pp : Bool)
    (request : Request) :
    Opened callback pp (requestText request pp)
      (appendRequestJson (headed pp callback).newObject request) := by
  rcases headed_newObject callback pp with ⟨hstack, hpending, hlevel, hpp⟩
  have h := Member.run_calls (.tree (.object (requestMembers request))) (ascii "request")
    (headed pp callback).newObject
  have hlead : keyLead (headed pp callback).newObject = tabs pp 1 := by
    rw [keyLead_cons hstack hpending, hpp, hlevel]
    rfl
  rw [hlead, hpp, hlevel, hstack] at h
  rw [appendRequestJson_eq, Opened, requestText]
  simp only [hpending, hpp, hlevel]
  exact h

theorem Opened.insertData {callback : Option (List UInt8)} {pp : Bool} {body : List UInt8}
    {json : JsonWriter} (h : Opened callback pp body json) (ret : CString) :
    Opened callback pp (body ++ ascii ", " ++ ret.bytes) (insertData json ret) :=
  (Wrote.append h (ascii ", ")).append ret.bytes

/-- The log and the end of the object. -/
theorem Opened.toString_endObject {callback : Option (List UInt8)} {pp : Bool}
    {body : List UInt8} {json : JsonWriter} (h : Opened callback pp body json) (log : Members) :
    ((json.run ((Member.tree (.object log)).calls (ascii "log"))).endObject).toString =
      header callback ++ documentText pp body log := by
  rcases headed_newObject callback pp with ⟨hstack, hpending, hlevel, hpp⟩
  have hheaded := (headed_wrote pp callback).unchanged
  have hj := h.unchanged
  have hlog := Member.run_calls (.tree (.object log)) (ascii "log") json
  have hlead : keyLead json = ascii ", " := by
    rw [keyLead_cons hj.1 (hj.2.1.trans hpending)]
    rfl
  rw [hlead, hj.1, hj.2.2.2.1.trans hpp, hj.2.2.1.trans hlevel] at hlog
  have hbody : Wrote { newNode .object (ascii "\x7b") (headed pp callback) with
      stack := { nodeType := .object, numItems := 4 } :: countTop 1 (headed pp callback).stack }
      (body ++ (ascii ", " ++ keyText pp (ascii "log") ++ (Tree.object log).text pp 1))
      (json.run ((Member.tree (.object log)).calls (ascii "log"))) := by
    have hset := h.setStack [{ nodeType := .object, numItems := 4 }]
    rw [hheaded.1]
    refine hset.trans ?_
    simp only [hj.2.1, hj.2.2.1, hj.2.2.2.1, hpp, hlevel, hpending] at hlog ⊢
    exact hlog
  have hnode := (node_wrote (ascii "\x7d") hbody).toString_eq
  have hstart : (headed pp callback).toString = header callback :=
    (headed_wrote pp callback).toString_eq
  have htop : nodeLead (headed pp callback) = [] := by
    have hempty : tabs pp 0 = [] := by
      cases pp <;> rfl
    rw [nodeLead, hasItems, hheaded.1, hheaded.2.1, hheaded.2.2.1, hheaded.2.2.2.1]
    exact hempty
  rw [htop, hheaded.2.2.1, hheaded.2.2.2.1] at hnode
  refine hnode.trans ?_
  show (headed pp callback).toString ++ _ = _
  rw [hstart]
  rfl

/-! ## The exits -/

/-- The name in `field`, if it is set. -/
def setName {size : Nat} (field : CharBuf size) : Option (List UInt8) :=
  if field.isSet then some field.bytes else none

/-- The exits on which the document may start again: all but a query that succeeds. -/
def restarts (request : Request) (answers : Answers) : Bool :=
  !checkRequest request || !answers.connection ||
    if request.named then answers.helperPid.isNone || decide (answers.haveError ≠ 0)
    else !answers.connected || answers.result.isNone

/-- The callback that is open at the end. -/
def openedCallback (request : Request) (answers : Answers) : Option (List UInt8) :=
  if restarts request answers && request.jsError.isSet then setName request.jsError
  else setName request.jsCallback

/-- What is inserted after the member with the request. -/
def insertedText (request : Request) (answers : Answers) : List UInt8 :=
  if restarts request answers then []
  else if request.named then
    if answers.replyText.isSet then ascii ", " ++ answers.replyText.bytes else []
  else ascii ", " ++ (answers.result.getD .empty).bytes

/-- What is written after the document. -/
def trailer (request : Request) : List UInt8 :=
  if request.jsCallback.isSet || request.jsError.isSet then ascii ");" else []

theorem opened_startResponse (request : Request) :
    ∃ pp, Opened (setName request.jsCallback) pp (requestText request pp)
      (startResponse request) := by
  refine ⟨decide (request.flags &&& flagPp ≠ 0), ?_⟩
  have h := opened_appendRequestJson (setName request.jsCallback)
    (decide (request.flags &&& flagPp ≠ 0)) request
  rw [startResponse]
  rw [setName] at h ⊢
  split
  · rename_i hset
    rw [if_pos hset] at h
    exact h
  · rename_i hset
    rw [if_neg hset] at h
    exact h

/-- The document starts again, or stays as it is. -/
theorem Opened.dbRestartJson {request : Request} {json : JsonWriter}
    (h : ∃ pp, Opened (setName request.jsCallback) pp (requestText request pp) json) :
    ∃ pp, Opened (if request.jsError.isSet then setName request.jsError
      else setName request.jsCallback) pp (requestText request pp)
        (dbRestartJson request json) := by
  rw [DbRelay.dbRestartJson]
  split
  · rename_i hset
    refine ⟨false, ?_⟩
    rw [setName, if_pos hset]
    exact opened_appendRequestJson (some request.jsError.bytes) false request
  · exact h

theorem toString_endResponse {request : Request} {callback : Option (List UInt8)} {pp : Bool}
    {body : List UInt8} {json : JsonWriter} (h : Opened callback pp body json) (log : Members) :
    endResponse request ((json.run ((Member.tree (.object log)).calls (ascii "log"))).endObject) =
      header callback ++ documentText pp body log ++ trailer request := by
  rw [endResponse, trailer, ← h.toString_endObject log]
  split
  · exact ((Wrote.refl _).append (ascii ");")).toString_eq
  · rw [List.append_nil]

/-- The part of the log behind the text of the query. -/
def errorMembers (params : List (List UInt8)) (errorString : List UInt8) : Members :=
  if errorString ≠ [] then .cons (ascii "error") (.string errorString) (paramMembers 0 params)
  else paramMembers 0 params

theorem text_errorMembers_of_log {request : Request} {pp : Bool}
    {params params' : List (List UInt8)} {errorString errorString' : List UInt8}
    (h : (Tree.object (logMembers request params errorString)).text pp 1 =
      (Tree.object (logMembers request params' errorString')).text pp 1) :
    ∃ first, (errorMembers params errorString).text pp 2 first =
      (errorMembers params' errorString').text pp 2 first := by
  simp only [Tree.text, List.append_assoc, List.append_cancel_left_eq,
    List.append_cancel_right_eq] at h
  by_cases hecho : request.flags &&& flagEchosql ≠ 0
  · refine ⟨false, ?_⟩
    simp only [logMembers, if_pos hecho, Members.text, List.append_cancel_left_eq] at h
    exact h
  · refine ⟨true, ?_⟩
    simp only [logMembers, if_neg hecho] at h
    exact h

theorem error_injective_of_log {request : Request} {pp : Bool}
    {errorString errorString' : List UInt8}
    (h : (Tree.object (logMembers request [] errorString)).text pp 1 =
      (Tree.object (logMembers request [] errorString')).text pp 1) :
    errorString = errorString' := by
  obtain ⟨first, h⟩ := text_errorMembers_of_log h
  unfold errorMembers at h
  split_ifs at h with herror herror' herror'
  · simp only [Members.text, Member.text, List.append_assoc, List.append_cancel_left_eq,
      List.append_cancel_right_eq] at h
    exact escaped_injective h
  · simp [paramMembers, Members.text, keyText, ascii] at h
  · simp [paramMembers, Members.text, keyText, ascii] at h
  · rw [not_not.1 herror, not_not.1 herror']

theorem param_injective_of_log {request : Request} {pp : Bool}
    {param param' errorString : List UInt8}
    (h : (Tree.object (logMembers request [param] errorString)).text pp 1 =
      (Tree.object (logMembers request [param'] errorString)).text pp 1) :
    param = param' := by
  obtain ⟨first, h⟩ := text_errorMembers_of_log h
  unfold errorMembers at h
  split_ifs at h with herror
  all_goals
    simp only [paramMembers, Members.text, Member.text, List.append_assoc,
      List.append_cancel_left_eq, List.append_cancel_right_eq] at h
    exact escaped_injective h

/-- Of one writer, equal responses have equal logs. -/
theorem log_of_endResponse {request : Request} {callback : Option (List UInt8)} {pp : Bool}
    {body : List UInt8} {json : JsonWriter} (h : Opened callback pp body json)
    {params params' : List (List UInt8)} {errorString errorString' : List UInt8}
    (heq : endResponse request (appendLogJson json request params errorString) =
      endResponse request (appendLogJson json request params' errorString')) :
    (Tree.object (logMembers request params errorString)).text pp 1 =
      (Tree.object (logMembers request params' errorString')).text pp 1 := by
  rw [appendLogJson_eq, appendLogJson_eq, toString_endResponse h, toString_endResponse h] at heq
  simpa only [documentText, List.append_assoc, List.append_cancel_left_eq,
    List.append_cancel_right_eq] using heq

/-- The text of an exit: a callback, a document with a log, and an end. -/
def IsExit (request : Request) (callback : Option (List UInt8)) (inserted text : List UInt8) :
    Prop :=
  ∃ pp log, log.WellFormed .utf8 ∧ text = header callback ++
    documentText pp (requestText request pp ++ inserted) log ++ trailer request

/-- An exit that writes its own log. -/
theorem isExit_failResponse {request : Request} {callback : Option (List UInt8)}
    {json : JsonWriter} (h : ∃ pp, Opened callback pp (requestText request pp) json)
    (message : List UInt8) :
    IsExit request callback [] (failResponse request json message) := by
  rcases h with ⟨pp, h⟩
  refine ⟨pp, failMembers request message, wellFormed_failMembers request message, ?_⟩
  rw [failResponse, writeJsonLog_eq, toString_endResponse h, List.append_nil]

/-- The last exit. -/
theorem isExit_endResponse {request : Request} {callback : Option (List UInt8)} {pp : Bool}
    {json : JsonWriter} {inserted : List UInt8}
    (h : Opened callback pp (requestText request pp ++ inserted) json)
    (params : List (List UInt8)) (errorString : List UInt8) :
    IsExit request callback inserted
      (endResponse request (appendLogJson json request params errorString)) := by
  refine ⟨pp, logMembers request params errorString,
    wellFormed_logMembers request params errorString, ?_⟩
  rw [appendLogJson_eq, toString_endResponse h]

theorem opened_runNamed {request : Request} {answers : Answers} {json json' : JsonWriter}
    {errorString : List UInt8}
    (hrestarts : restarts request answers = decide (answers.haveError ≠ 0))
    (hnamed : request.named = true)
    (h : ∃ pp, Opened (setName request.jsCallback) pp (requestText request pp) json)
    (hrun : runNamed request answers json = some (json', errorString)) :
    ∃ pp, Opened (openedCallback request answers) pp
      (requestText request pp ++ insertedText request answers) json' := by
  rw [runNamed] at hrun
  rcases Option.map_eq_some_iff.1 hrun with ⟨⟨ret, haveError⟩, hreply, heq⟩
  have hret : answers.replyText = ret := by rw [Answers.replyText, hreply]; rfl
  have hcode : answers.haveError = haveError := by rw [Answers.haveError, hreply]; rfl
  rw [openedCallback, insertedText, hrestarts, hret, hcode]
  by_cases herror : haveError ≠ 0
  · simp only [if_pos herror] at heq
    obtain ⟨rfl, -⟩ := Prod.mk.inj heq
    simp only [decide_eq_true herror, Bool.true_and, if_true, List.append_nil]
    exact Opened.dbRestartJson h
  · simp only [if_neg herror] at heq
    simp only [decide_eq_false herror, Bool.false_and, if_neg Bool.false_ne_true, hnamed, if_true]
    rcases h with ⟨pp, h⟩
    refine ⟨pp, ?_⟩
    cases hset : ret.isSet with
    | true =>
      simp only [hset, Bool.not_true, if_neg Bool.false_ne_true] at heq
      obtain ⟨rfl, -⟩ := Prod.mk.inj heq
      simp only [if_true, ← List.append_assoc]
      exact h.insertData ret
    | false =>
      simp only [hset, Bool.not_false, if_true] at heq
      obtain ⟨rfl, -⟩ := Prod.mk.inj heq
      simp only [if_neg Bool.false_ne_true, List.append_nil]
      exact h

theorem opened_runUnnamed {request : Request} {answers : Answers} {json json' : JsonWriter}
    {errorString : List UInt8}
    (hrestarts : restarts request answers = (!answers.connected || answers.result.isNone))
    (hnamed : request.named = false)
    (h : ∃ pp, Opened (setName request.jsCallback) pp (requestText request pp) json)
    (hrun : runUnnamed request answers json = some (json', errorString)) :
    ∃ pp, Opened (openedCallback request answers) pp
      (requestText request pp ++ insertedText request answers) json' := by
  rw [openedCallback, insertedText, hrestarts]
  rw [runUnnamed] at hrun
  cases hconnected : answers.connected with
  | false =>
    rw [hconnected] at hrun
    rcases Option.map_eq_some_iff.1 hrun with ⟨error, -, heq⟩
    obtain ⟨rfl, -⟩ := Prod.mk.inj heq
    simp only [Bool.not_false, Bool.true_or, Bool.true_and, if_true, List.append_nil]
    exact Opened.dbRestartJson h
  | true =>
    rw [hconnected] at hrun
    cases hresult : answers.result with
    | none =>
      rw [hresult] at hrun
      rcases Option.bind_eq_some_iff.1 hrun with ⟨error, -, hrun⟩
      split at hrun
      · cases hrun
        simp only [Bool.not_true, Option.isNone_none, Bool.or_true, Bool.true_and, if_true,
          List.append_nil]
        exact Opened.dbRestartJson h
      · cases hrun
    | some ret =>
      rw [hresult] at hrun
      cases hrun
      rcases h with ⟨pp, h⟩
      refine ⟨pp, ?_⟩
      simp only [Bool.not_true, Option.isNone_some, Bool.or_false, Bool.false_and,
        if_neg Bool.false_ne_true, hnamed, Option.getD_some, ← List.append_assoc]
      exact h.insertData ret

/-- Each exit has this form. -/
theorem isExit_runQuery {magic : CString} {request : Request} {answers : Answers}
    {text : List UInt8} (h : runQuery magic request answers = some text) :
    IsExit request (openedCallback request answers) (insertedText request answers) text := by
  have hstart := opened_startResponse request
  have hfail : restarts request answers = true → ∀ message,
      IsExit request (openedCallback request answers) (insertedText request answers)
        (failResponse request (dbRestartJson request (startResponse request)) message) := by
    intro hrestarts message
    rw [openedCallback, insertedText, hrestarts, if_pos rfl, Bool.true_and]
    exact isExit_failResponse (Opened.dbRestartJson hstart) message
  have htwice : dbRestartJson request (dbRestartJson request (startResponse request)) =
      dbRestartJson request (startResponse request) := by
    rw [dbRestartJson, dbRestartJson]
    split
    · rfl
    · rfl
  rw [runQuery] at h
  cases hcheck : checkRequest request with
  | false =>
    rw [hcheck] at h
    cases h
    exact hfail (by rw [restarts, hcheck]; rfl) _
  | true =>
  rw [hcheck, if_neg (by decide)] at h
  rcases Option.bind_eq_some_iff.1 h with ⟨sql, -, h⟩
  cases hconnection : answers.connection with
  | false =>
    rw [hconnection] at h
    cases h
    exact hfail (by rw [restarts, hcheck, hconnection]; rfl) _
  | true =>
  rw [hconnection, if_neg (by decide)] at h
  cases hnamed : request.named with
  | true =>
    cases hhelper : answers.helperPid with
    | none =>
      rw [hnamed, hhelper, htwice] at h
      cases h
      exact hfail (by rw [restarts, hcheck, hconnection, hnamed, hhelper]; rfl) _
    | some helperPid =>
      rw [hnamed, hhelper, Option.isNone_some, Bool.and_false, if_neg (by decide), if_pos rfl] at h
      rcases Option.bind_eq_some_iff.1 h with ⟨⟨json, errorString⟩, hrun, h⟩
      rcases Option.map_eq_some_iff.1 h with ⟨params, -, rfl⟩
      have hrestarts : restarts request answers = decide (answers.haveError ≠ 0) := by
        rw [restarts, hcheck, hconnection, hnamed, hhelper]
        rfl
      rcases opened_runNamed hrestarts hnamed hstart hrun with ⟨pp, hopened⟩
      exact isExit_endResponse hopened params errorString
  | false =>
    rw [hnamed, Bool.false_and, if_neg (by decide), if_neg (by decide)] at h
    rcases Option.bind_eq_some_iff.1 h with ⟨⟨json, errorString⟩, hrun, h⟩
    rcases Option.map_eq_some_iff.1 h with ⟨params, -, rfl⟩
    have hrestarts : restarts request answers =
        (!answers.connected || answers.result.isNone) := by
      rw [restarts, hcheck, hconnection, hnamed]
      rfl
    rcases opened_runUnnamed hrestarts hnamed hstart hrun with ⟨pp, hopened⟩
    exact isExit_endResponse hopened params errorString

/-- What the calls for an open connection give has a text where one is read: the reply of a
connector, the error of a failed login, and that of a failed query, which fits
`error_string`. -/
def HasTexts (request : Request) (answers : Answers) : Prop :=
  if request.named then answers.helperPid.isSome = true → answers.reply.isSome = true
  else (answers.connected = false → answers.error.isSome = true) ∧
    (answers.connected = true → answers.result = none →
      ∃ error, answers.error = some error ∧ error.bytes.length < errorSz)

/-- No exit leaves the objects of the program: each parameter has a colon and the list
of them an end, and the texts that are read are there. -/
def InBounds (magic : CString) (request : Request) (answers : Answers) : Prop :=
  checkRequest request = true → (resolveParams magic request request.sqlText).isSome = true ∧
    (answers.connection = true → HasTexts request answers)

theorem runUnnamed_isSome_iff (request : Request) (answers : Answers) (json : JsonWriter) :
    (runUnnamed request answers json).isSome = true ↔
      (answers.connected = false → answers.error.isSome = true) ∧
      (answers.connected = true → answers.result = none →
        ∃ error, answers.error = some error ∧ error.bytes.length < errorSz) := by
  rw [runUnnamed]
  cases answers.connected with
  | false => simp
  | true =>
    cases answers.result with
    | some ret => simp
    | none =>
      cases answers.error with
      | none => simp
      | some error =>
        simp only [Bool.not_true, if_neg Bool.false_ne_true, Option.bind_some]
        split <;> simp [*]

theorem runQuery_isSome_iff (magic : CString) (request : Request) (answers : Answers) :
    (runQuery magic request answers).isSome = true ↔ InBounds magic request answers := by
  rw [runQuery, InBounds]
  cases checkRequest request with
  | false => simp
  | true =>
  rw [if_neg (by decide), imp_iff_right rfl]
  cases hresolve : resolveParams magic request request.sqlText with
  | none => simp
  | some sql =>
  have hparams : ∃ params, request.paramList = some params := by
    rw [resolveParams] at hresolve
    rcases Option.bind_eq_some_iff.1 hresolve with ⟨params, hparams, -⟩
    exact ⟨params, hparams⟩
  rcases hparams with ⟨params, hparams⟩
  simp only [Option.bind_some, Option.isSome_some, true_and]
  cases answers.connection with
  | false => simp
  | true =>
  rw [if_neg (by decide), imp_iff_right rfl, HasTexts]
  cases request.named with
  | true =>
    cases answers.helperPid with
    | none => simp
    | some helperPid =>
      have hnamed : (runNamed request answers (startResponse request)).isSome =
          answers.reply.isSome := Option.isSome_map
      simp [hparams, Option.isSome_bind, ← hnamed]
  | false =>
    rw [← runUnnamed_isSome_iff request answers (startResponse request)]
    simp [hparams, Option.isSome_bind]

/-! ## The text of an exit -/

variable {enc : Encoding}

/-- Members with the whitespace around them. -/
def IsFragment (enc : Encoding) (s : List UInt8) : Prop := ∃ ms, Derives enc (.members ms) s

theorem requestText_eq (request : Request) (pp : Bool) :
    requestText request pp = tabs pp 1 ++ (quote :: (ascii "request" ++ quote ::
      (pretty pp (ascii " ") ++ colon :: (pretty pp (ascii " ") ++
        (Tree.object (requestMembers request)).text pp 1)))) ++ [] := by
  rw [requestText, List.append_assoc, keyText_append, List.append_nil]

theorem isFragment_requestText (request : Request) (pp : Bool) :
    IsFragment enc (requestText request pp) := by
  have hrequest : IsKey enc (ascii "request") := .of_utf8 (by decide)
  rw [requestText_eq]
  exact ⟨_, .lastMember (isSpace_tabs pp 1) (isChars_codeUnits hrequest) (isSpace_blank pp)
    (isSpace_blank pp) (Tree.derives _ (show Tree.WellFormed enc (.object _) from
      (wellFormed_requestMembers request).of_utf8) pp 1) isSpace_nil⟩

/-- A fragment after another one. -/
theorem IsFragment.append {s t : List UInt8} (h : IsFragment enc s) (h' : IsFragment enc t) :
    IsFragment enc (s ++ (ascii ", " ++ t)) := by
  rcases h with ⟨ms, h⟩
  rcases h' with ⟨ms', h'⟩
  exact ⟨ms ++ ms', h.members_append (h'.space_members (isSpace_blank true))⟩

/-- A fragment and the log are an object. -/
theorem IsFragment.derives_documentText {body : List UInt8} (h : IsFragment enc body) (pp : Bool)
    {log : Members} (hlog : log.WellFormed .utf8) :
    ∃ ms, Derives enc (.value (.object ms)) (documentText pp body log) := by
  have hkey : IsKey enc (ascii "log") := .of_utf8 (by decide)
  have hmember : IsFragment enc (keyText pp (ascii "log") ++ (Tree.object log).text pp 1) := by
    have hvalue := Tree.derives (.object log) (show Tree.WellFormed enc _ from hlog.of_utf8) pp 1
    have hlast := Derives.lastMember isSpace_nil (isChars_codeUnits hkey) (isSpace_blank pp)
      (isSpace_blank pp) hvalue isSpace_nil
    rw [List.nil_append, List.append_nil] at hlast
    rw [keyText_append]
    exact ⟨_, hlast⟩
  rcases h.append hmember with ⟨ms, hms⟩
  have hbody := (hms.space_members (isSpace_newline pp)).members_space
    ((isSpace_newline pp).append (isSpace_tabs pp 0))
  refine ⟨ms, ?_⟩
  rw [documentText]
  simpa [ascii] using Derives.object hbody

/-- The error text of a broken socket is no member. -/
theorem not_isText_socketErrorText (request : Request) (pp : Bool) (log : Members)
    (suffix : List UInt8) (v : Value) :
    ¬IsText enc (documentText pp (requestText request pp ++ (ascii ", " ++ socketErrorText)) log ++
      suffix) v := by
  have hrequest : IsKey enc (ascii "request") := .of_utf8 (by decide)
  have htext : documentText pp (requestText request pp ++ (ascii ", " ++ socketErrorText)) log ++
      suffix = openBrace :: ((pretty pp (ascii "\n") ++ tabs pp 1) ++ (quote ::
        (ascii "request" ++ quote :: (pretty pp (ascii " ") ++ colon :: (pretty pp (ascii " ") ++
          (Tree.object (requestMembers request)).text pp 1)))) ++ [] ++ comma ::
            (ascii " " ++ (socketErrorText ++ (ascii ", " ++ keyText pp (ascii "log") ++
              (Tree.object log).text pp 1 ++ pretty pp (ascii "\n") ++ tabs pp 0 ++
                ascii "\x7d" ++ suffix)))) := by
    rw [documentText, requestText_eq]
    simp only [List.append_assoc, List.append_nil, List.cons_append]
    rfl
  rw [htext]
  apply not_isText_of_member ((isSpace_newline pp).append (isSpace_tabs pp 1))
    (isChars_codeUnits hrequest) (isSpace_blank pp) (isSpace_blank pp)
    (Tree.derives _ (show Tree.WellFormed enc (.object _) from
      (wellFormed_requestMembers request).of_utf8) pp 1)
    isSpace_nil
  rw [skipSpace_append (by decide)]
  exact show some 73 ≠ some quote by decide

/-! ## Complete responses -/

/-- The text is an object, or a call of the callback that was opened. -/
def CompleteResponse (enc : Encoding) (magic : CString) (request : Request)
    (answers : Answers) : Prop :=
  ∃ text, runQuery magic request answers = some text ∧
    match openedCallback request answers with
    | none => ∃ ms, IsText enc text (.object ms)
    | some name => ∃ body ms, text = name ++ ascii "(" ++ body ++ ascii ");" ∧
        IsText enc body (.object ms)

/-- A query that succeeds gives a fragment.  A connector may also give nothing, or the
error text without an error. -/
def WellFormedData (enc : Encoding) (request : Request) (answers : Answers) : Prop :=
  restarts request answers = false →
    if request.named then
      answers.replyText.bytes = [] ∨ answers.replyText.bytes = socketErrorText ∨
        IsFragment enc answers.replyText.bytes
    else IsFragment enc (answers.result.getD .empty).bytes

/-- The socket broke at the command to run the query, which `have_error` does not
say. -/
def RunUnsent (request : Request) (answers : Answers) : Prop :=
  restarts request answers = false ∧ request.named = true ∧
    answers.replyText.bytes = socketErrorText

/-- The callback for errors is the only one, and there is no error. -/
def ClosesUnopened (request : Request) (answers : Answers) : Prop :=
  request.jsError.isSet = true ∧ request.jsCallback.isSet = false ∧
    restarts request answers = false

theorem insertedText_of_wellFormedData {request : Request} {answers : Answers}
    (hdata : WellFormedData enc request answers) (hsent : ¬RunUnsent request answers) :
    insertedText request answers = [] ∨
      ∃ s, insertedText request answers = ascii ", " ++ s ∧ IsFragment enc s := by
  rw [insertedText]
  cases hrestarts : restarts request answers with
  | true => exact .inl rfl
  | false =>
  have h := hdata hrestarts
  cases hnamed : request.named with
  | false =>
    rw [hnamed] at h
    exact .inr ⟨_, rfl, h⟩
  | true =>
    rw [hnamed, if_pos rfl] at h
    rw [if_neg (by decide), if_pos rfl]
    split
    · rename_i hset
      refine .inr ⟨_, rfl, ?_⟩
      rcases h with h | h | h
      · rw [CString.isSet, h] at hset
        cases hset
      · exact absurd ⟨hrestarts, hnamed, h⟩ hsent
      · exact h
    · exact .inl rfl

theorem isFragment_body {request : Request} {answers : Answers}
    (hdata : WellFormedData enc request answers) (hsent : ¬RunUnsent request answers) (pp : Bool) :
    IsFragment enc (requestText request pp ++ insertedText request answers) := by
  rcases insertedText_of_wellFormedData hdata hsent with h | ⟨s, h, hs⟩
  · rw [h, List.append_nil]
    exact isFragment_requestText request pp
  · rw [h]
    exact (isFragment_requestText request pp).append hs

/-- The callback is closed exactly when one was opened, but for the exception. -/
theorem trailer_eq (request : Request) (answers : Answers)
    (h : ¬ClosesUnopened request answers) :
    trailer request = if openedCallback request answers = none then [] else ascii ");" := by
  rw [ClosesUnopened] at h
  rw [trailer, openedCallback, setName, setName]
  cases hcallback : request.jsCallback.isSet with
  | true =>
    cases herror : request.jsError.isSet with
    | true => cases restarts request answers <;> rfl
    | false => cases restarts request answers <;> rfl
  | false =>
    cases herror : request.jsError.isSet with
    | true =>
      cases hrestarts : restarts request answers with
      | true => rfl
      | false => exact absurd ⟨herror, hcallback, hrestarts⟩ h
    | false => cases restarts request answers <;> rfl

theorem insertedText_of_runUnsent {request : Request} {answers : Answers}
    (h : RunUnsent request answers) :
    insertedText request answers = ascii ", " ++ socketErrorText := by
  rcases h with ⟨hrestarts, hnamed, hreply⟩
  have hset : answers.replyText.isSet = true := by
    rw [CString.isSet, hreply]
    rfl
  rw [insertedText, hrestarts, hnamed, if_neg (by decide), if_pos rfl, if_pos hset, hreply]

/-- With the end of a callback, the document is no text. -/
theorem not_isText_closed {request : Request} {answers : Answers}
    (hdata : WellFormedData enc request answers) (pp : Bool) {log : Members}
    (hlog : log.WellFormed .utf8)
    (v : Value) :
    ¬IsText enc (documentText pp (requestText request pp ++ insertedText request answers) log ++
      ascii ");") v := by
  by_cases hsent : RunUnsent request answers
  · rw [insertedText_of_runUnsent hsent]
    exact not_isText_socketErrorText request pp log (ascii ");") v
  · have hbody : IsFragment enc (requestText request pp ++ insertedText request answers) :=
      isFragment_body hdata hsent pp
    rcases hbody.derives_documentText pp hlog with ⟨ms, hms⟩
    exact not_isText_append hms (ends_cons rfl _) (by decide) v

/-- The response is complete unless an access leaves the objects of the program, the
callback for errors is closed without being opened, or an error text is taken for
data. -/
theorem completeResponse_iff (enc : Encoding) (magic : CString) (request : Request)
    (answers : Answers)
    (hdata : WellFormedData enc request answers) :
    CompleteResponse enc magic request answers ↔
      InBounds magic request answers ∧ ¬ClosesUnopened request answers ∧
        ¬RunUnsent request answers := by
  constructor
  · intro h
    rcases h with ⟨text, htext, h⟩
    have hbounds : InBounds magic request answers := by
      rw [← runQuery_isSome_iff, htext]
      rfl
    rcases isExit_runQuery htext with ⟨pp, log, hlog, rfl⟩
    refine ⟨hbounds, ?_, ?_⟩
    · intro hgiven
      obtain ⟨herror, hcallback, hrestarts⟩ := hgiven
      have hopened : openedCallback request answers = none := by
        rw [openedCallback, hrestarts, Bool.false_and, if_neg (by decide), setName, hcallback]
        rfl
      have htrailer : trailer request = ascii ");" := by
        rw [trailer, herror, Bool.or_true]
        rfl
      rw [hopened, htrailer, header, List.nil_append] at h
      rcases h with ⟨ms, h⟩
      exact not_isText_closed hdata pp hlog _ h
    · intro hsent
      rw [insertedText_of_runUnsent hsent] at h
      cases hopened : openedCallback request answers with
      | none =>
        rw [hopened, header, List.nil_append] at h
        rcases h with ⟨ms, h⟩
        exact not_isText_socketErrorText request pp log (trailer request) _ h
      | some name =>
        rw [hopened, header] at h
        rcases h with ⟨body, ms, hbody, h⟩
        have hclosed : ¬ClosesUnopened request answers := by
          intro hgiven
          obtain ⟨herror, hcallback, hrestarts⟩ := hgiven
          rw [openedCallback, hrestarts, Bool.false_and, if_neg (by decide), setName,
            hcallback] at hopened
          cases hopened
        rw [trailer_eq request answers hclosed, hopened, if_neg (by simp)] at hbody
        have heq := List.append_cancel_left (List.append_cancel_right hbody)
        rw [← heq, ← List.append_nil (documentText _ _ _)] at h
        exact not_isText_socketErrorText request pp log [] _ h
  · intro hgiven
    obtain ⟨hbounds, hclosed, hsent⟩ := hgiven
    rcases Option.isSome_iff_exists.1 ((runQuery_isSome_iff magic request answers).2 hbounds)
      with ⟨text, htext⟩
    refine ⟨text, htext, ?_⟩
    rcases isExit_runQuery htext with ⟨pp, log, hlog, rfl⟩
    rcases (isFragment_body hdata hsent pp).derives_documentText pp hlog with ⟨ms, hms⟩
    have hdocument : IsText enc (documentText pp
        (requestText request pp ++ insertedText request answers) log) (.object ms) :=
      ⟨[], _, [], by rw [List.nil_append, List.append_nil], isSpace_nil, hms, isSpace_nil⟩
    rw [trailer_eq request answers hclosed]
    cases openedCallback request answers with
    | none =>
      rw [header, if_pos rfl, List.nil_append, List.append_nil]
      exact ⟨ms, hdocument⟩
    | some name => exact ⟨_, ms, rfl, hdocument⟩

/-- A request without names for callbacks. -/
def plainRequest : Request where
  sqlServer := ⟨ascii "db", by decide, by decide⟩
  sqlUser := ⟨ascii "u", by decide, by decide⟩
  sql := some (.ofBytes (ascii "select 1"))

/-- The query succeeds without result sets. -/
def successAnswers : Answers where
  connection := true
  connected := true
  result := some (.ofBytes (ascii "\"data\":[]"))

theorem isFragment_success : IsFragment .utf8 (ascii "\"data\":[]") := by
  have hdata : IsKey .utf8 (ascii "data") := by decide
  exact ⟨_, .lastMember isSpace_nil (isChars_codeUnits hdata) isSpace_nil isSpace_nil
    (.emptyArray isSpace_nil) isSpace_nil⟩

theorem completeResponse_plainRequest :
    CompleteResponse .utf8 .empty plainRequest successAnswers := by
  have hbounds : InBounds .empty plainRequest successAnswers := by
    refine fun _ => ⟨by decide +kernel, fun _ => ⟨fun hconnected => ?_, fun _ hresult => ?_⟩⟩
    · cases hconnected
    · cases hresult
  refine (completeResponse_iff .utf8 .empty plainRequest successAnswers
    fun _ => isFragment_success).2 ⟨hbounds, ?_, ?_⟩
  · intro h
    obtain ⟨herror, -⟩ := h
    cases herror
  · intro h
    obtain ⟨-, hnamed, -⟩ := h
    cases hnamed

/-- Only errors have a callback. -/
def errorCallbackRequest : Request :=
  { plainRequest with jsError := ⟨ascii "e", by decide, by decide⟩ }

/-- The text is an object and `);`. -/
theorem not_completeResponse_errorCallback :
    IsFragment .utf8 (ascii "\"data\":[]") ∧
      ¬CompleteResponse .utf8 .empty errorCallbackRequest successAnswers := by
  refine ⟨isFragment_success, ?_⟩
  intro hgiven
  obtain ⟨text, htext, h⟩ := hgiven
  have hnone : ((runQuery .empty errorCallbackRequest successAnswers).bind (parse .utf8)).isNone =
      true := by
    decide +kernel
  have hopened : openedCallback errorCallbackRequest successAnswers = none := by
    decide +kernel
  rw [hopened] at h
  rcases h with ⟨ms, h⟩
  rw [htext, Option.bind_some, parse_of_isText h] at hnone
  cases hnone

end DbRelay
