import DbRelay.Cli.Loop
import DbRelay.Lib.History
import DbRelay.Query.Response

/-!
# What commands leave for later queries

A `go` on plain text should show what it shows in a new session in which only this text was
entered.  Three things are left behind by earlier commands: a pointer to a freed block in
`params[0]`, the messages in `error_message`, and the text in `login_error`.

* `FromScratch` compares the session with the new one, whatever the freed block holds.
* `Cli.Untouched`: the query comes to none of the three.
* `fromScratch_iff`: in which histories each `go` on plain text is from scratch.
-/

namespace DbRelay

open History StepSystem

/-! ## The two sessions -/

/-- A `go` on plain text shows what it shows in a new session with the same text, unless that one
leaves the objects of the program. -/
def FromScratch (magic : CString) (options : Request) (history : List Input) (input : Input) :
    Prop :=
  ∀ cli, run (Cli.step magic options) {} history = some cli →
    lineCommand input.line = .go → goCommand cli.mybuf = .plain →
    ∃ fresh, run (Cli.step magic options) {} (pending history) = some fresh ∧
      fresh.mybuf = cli.mybuf ∧
      ∀ block shown,
        (fresh.runPlain magic options input.server block).map Prod.fst = some shown →
          (cli.runPlain magic options input.server block).map Prod.fst = some shown

/-! ## The condition -/

/-- The parameters are read for a placeholder and for the last log. -/
def ReadsParams (request : Request) (server : Server) : Prop :=
  checkRequest request = true ∧
    (findPlaceholder false request.sqlText ≠ none ∨
      server.connection = true ∧ (request.named = true → server.helperPid ≠ none))

/-- The messages of the query alone fit the buffers. -/
def Server.Fits (server : Server) (request : Request) (newsql : List UInt8) : Prop :=
  checkRequest request = true → request.named = false →
    (∀ m ∈ server.loginMessages, m.toLogin = true → m.text.bytes.length < errorSz) ∧
      (server.connection = true → server.connected = true →
        (messageText (server.exec newsql).2).length < errorMessageSz ∧
          ((server.exec newsql).1 = none →
            (messageText (server.exec newsql).2).length < errorSz))

/-- The error text of a query is the one of this query alone.  The last case is a stale text that
is the one for an empty text. -/
def Cli.ErrorOwn (cli : Cli) (request : Request) (newsql : List UInt8) (server : Server) : Prop :=
  checkRequest request = true → request.named = false → server.connection = true →
    if server.connected then
      cli.errorMessage.string = [] ∨
        (server.exec newsql).1 ≠ none ∧
          cli.errorMessage.string.length + (messageText (server.exec newsql).2).length <
            errorMessageSz
    else
      (∃ m ∈ server.loginMessages, m.toLogin = true) ∨ cli.loginError = .empty ∨
        request.sqlPassword.isSet = true ∧ cli.loginError.bytes = ascii "Connection failed.\n"

/-- The request of a query on `mybuf`, without parameters. -/
def Cli.request (options : Request) (cli : Cli) : Request :=
  queryRequest options (some cli.mybuf) none

/-- What `dbrelay_resolve_params` makes of `mybuf` without parameters. -/
def Cli.newsql (magic : CString) (options : Request) (cli : Cli) : List UInt8 :=
  magicText magic options ++ cli.mybuf.bytes

/-- Nothing that is left in the state comes into the query. -/
def Cli.Untouched (magic : CString) (options : Request) (server : Server) (cli : Cli) : Prop :=
  server.Fits (cli.request options) (cli.newsql magic options) →
    (cli.param0 = .freed → ¬ReadsParams (cli.request options) server) ∧
      cli.ErrorOwn (cli.request options) (cli.newsql magic options) server

/-- A `go` on plain text meets the condition. -/
def StaysUntouched (magic : CString) (options : Request) (history : List Input) (input : Input) :
    Prop :=
  ∀ cli, run (Cli.step magic options) {} history = some cli →
    lineCommand input.line = .go → goCommand cli.mybuf = .plain →
    cli.Untouched magic options input.server

/-! ## The messages -/

theorem deliverLogin_isSome_iff (loginError : CharBuf errorSz) (messages : List ServerMessage) :
    (deliverLogin loginError messages).isSome = true ↔
      ∀ m ∈ messages, m.toLogin = true → m.text.bytes.length < errorSz := by
  induction messages generalizing loginError with
  | nil => simp [deliverLogin]
  | cons m messages ih =>
    rw [deliverLogin, loginHandler, List.forall_mem_cons]
    split
    · rename_i hlogin
      split
      · rename_i hfits
        rw [Option.bind_some, ih]
        exact (and_iff_right fun _ => hfits).symm
      · rename_i hlong
        exact iff_of_false (by simp) fun h => hlong (h.1 hlogin)
    · rename_i hother
      rw [Option.bind_some, ih]
      exact (and_iff_right fun hlogin => absurd hlogin hother).symm

/-- A message of the login replaces the text that was there. -/
theorem deliverLogin_of_mem (loginError loginError' : CharBuf errorSz)
    {messages : List ServerMessage} (h : ∃ m ∈ messages, m.toLogin = true) :
    deliverLogin loginError messages = deliverLogin loginError' messages := by
  induction messages generalizing loginError loginError' with
  | nil =>
    obtain ⟨m, hm, -⟩ := h
    cases hm
  | cons m messages ih =>
    rw [deliverLogin, deliverLogin, loginHandler, loginHandler]
    split
    · rfl
    · rename_i hother
      rw [Option.bind_some, Option.bind_some]
      obtain ⟨m', hm', hlogin⟩ := h
      rcases List.mem_cons.1 hm' with rfl | hm'
      · exact absurd hlogin hother
      · exact ih loginError loginError' ⟨m', hm', hlogin⟩

theorem deliverLogin_of_not_mem (loginError : CharBuf errorSz) {messages : List ServerMessage}
    (h : ¬∃ m ∈ messages, m.toLogin = true) :
    deliverLogin loginError messages = some loginError := by
  induction messages with
  | nil => rfl
  | cons m messages ih =>
    have hother : ¬m.toLogin = true := fun hlogin => h ⟨m, List.mem_cons_self, hlogin⟩
    rw [deliverLogin, loginHandler, if_neg hother, Option.bind_some]
    exact ih fun ⟨m', hm', hlogin⟩ => h ⟨m', List.mem_cons_of_mem m hm', hlogin⟩

theorem deliver_fresh {messages : List ServerMessage}
    (h : (messageText messages).length < errorMessageSz) :
    ∃ buf, deliver zeroedMessage messages = some buf ∧ buf.string = messageText messages := by
  have hspec := deliver_spec List.not_mem_nil zeroedMessage_empty messages
  rw [List.length_nil, Nat.zero_add] at hspec
  obtain ⟨buf, hbuf⟩ := Option.isSome_iff_exists.1 (hspec.1.2 h)
  exact ⟨buf, hbuf, CArray.string_of_prefix (noNul_messageText messages) (hspec.2 buf hbuf)⟩

/-! ## A query and its parameters -/

theorem toList_paramArray (param0 : Option CString) :
    (paramArray param0).toList = param0 :: List.replicate 99 none := by
  rw [paramArray, Vector.toList_set, Vector.toList_replicate]
  rfl

variable {magic : CString} {options : Request}

theorem paramList_queryRequest (sql param0 : Option CString) :
    (queryRequest options sql param0).paramList = some (param0.toList.map CString.bytes) := by
  have hmem : none ∈ (queryRequest options sql param0).params.toList := by
    show none ∈ (paramArray param0).toList
    rw [toList_paramArray]
    simp
  rw [Request.paramList, if_pos hmem]
  show some (((paramArray param0).toList.takeWhile Option.isSome).filterMap _) = _
  rw [toList_paramArray]
  cases param0 <;> simp

theorem resolveParams_queryRequest {sql : CString} {param0 : Option CString}
    (h : param0 = none ∨ findPlaceholder false sql.bytes = none) :
    resolveParams magic (queryRequest options (some sql) param0) sql.bytes =
      some (magicText magic options ++ sql.bytes) := by
  rw [resolveParams, paramList_queryRequest, Option.bind_some]
  refine resolveLoop_of_none (h.imp ?_ id)
  intro hnone
  rw [hnone]
  rfl

/-- An empty parameter has no colon. -/
theorem resolveParams_empty {sql : CString} (h : findPlaceholder false sql.bytes ≠ none) :
    resolveParams magic (queryRequest options (some sql) (some .empty)) sql.bytes = none := by
  rw [resolveParams, paramList_queryRequest, Option.bind_some]
  obtain ⟨i, hi⟩ := Option.ne_none_iff_exists'.1 h
  show resolveLoop true sql.bytes _ [[]] = none
  rw [resolveLoop, hi]
  rfl

/-- The exits without a connection or without a connector. -/
def earlyResponse (request : Request) (connection : Bool) : List UInt8 :=
  if !connection then
    failResponse request (dbRestartJson request (startResponse request))
      (ascii "Couldn't allocate new connection")
  else
    failResponse request (dbRestartJson request (dbRestartJson request (startResponse request)))
      (ascii "Couldn't initialize connector")

theorem runQuery_early {sql : CString} {param0 : Option CString} {answers : Answers}
    {newsql : List UInt8} (hcheck : checkRequest (queryRequest options (some sql) none) = true)
    (hresolve : resolveParams magic (queryRequest options (some sql) param0) sql.bytes =
      some newsql)
    (hearly : answers.connection = true → options.named = true ∧ answers.helperPid = none) :
    runQuery magic (queryRequest options (some sql) param0) answers =
      some (earlyResponse (queryRequest options (some sql) none) answers.connection) := by
  have hcheck' : checkRequest (queryRequest options (some sql) param0) = true := hcheck
  have htext : (queryRequest options (some sql) param0).sqlText = sql.bytes := rfl
  rw [runQuery, hcheck', if_neg (by decide), htext, hresolve, Option.bind_some, earlyResponse]
  cases hconnection : answers.connection with
  | false => rfl
  | true =>
    obtain ⟨hnamed, hhelper⟩ := hearly hconnection
    have hnamed' : (queryRequest options (some sql) param0).named = true := hnamed
    rw [hnamed', hhelper]
    rfl

/-- The writer and `error_string` before the last log. -/
def beforeLog (request : Request) (answers : Answers) : Option (JsonWriter × List UInt8) :=
  if request.named then runNamed request answers (startResponse request)
  else runUnnamed request answers (startResponse request)

/-- The last exit, with its log. -/
def lastResponse (request : Request) (params : List (List UInt8))
    (before : JsonWriter × List UInt8) : List UInt8 :=
  endResponse request (appendLogJson before.1 request params before.2)

theorem runQuery_last {sql : CString} {param0 : Option CString} {answers : Answers}
    {newsql : List UInt8} (hcheck : checkRequest (queryRequest options (some sql) none) = true)
    (hresolve : resolveParams magic (queryRequest options (some sql) param0) sql.bytes =
      some newsql)
    (hconnection : answers.connection = true)
    (hhelper : options.named = true → answers.helperPid ≠ none) :
    runQuery magic (queryRequest options (some sql) param0) answers =
      (beforeLog (queryRequest options (some sql) none) answers).map
        (lastResponse (queryRequest options (some sql) none)
          (param0.toList.map CString.bytes)) := by
  have hcheck' : checkRequest (queryRequest options (some sql) param0) = true := hcheck
  have htext : (queryRequest options (some sql) param0).sqlText = sql.bytes := rfl
  have hskip : ¬((queryRequest options (some sql) param0).named && answers.helperPid.isNone) =
      true := by
    rw [Bool.and_eq_true, Option.isNone_iff_eq_none]
    exact fun h => hhelper h.1 h.2
  rw [runQuery, hcheck', if_neg (by decide), htext, hresolve, Option.bind_some, hconnection,
    if_neg (by decide), if_neg hskip, paramList_queryRequest]
  show (beforeLog (queryRequest options (some sql) none) answers).bind _ = _
  cases beforeLog (queryRequest options (some sql) none) answers <;> rfl

/-- One writer has come to the last log, so its log can be read from the response. -/
theorem opened_beforeLog {request : Request} {answers : Answers}
    {before : JsonWriter × List UInt8} (hcheck : checkRequest request = true)
    (hconnection : answers.connection = true)
    (hhelper : request.named = true → answers.helperPid ≠ none)
    (h : beforeLog request answers = some before) :
    ∃ callback pp body, Opened callback pp body before.1 := by
  have hstart := opened_startResponse request
  unfold beforeLog at h
  split at h
  · rename_i hnamed
    have hrestarts : restarts request answers = decide (answers.haveError ≠ 0) := by
      rw [restarts, hcheck, hconnection, hnamed]
      obtain ⟨helperPid, hhelperPid⟩ := Option.ne_none_iff_exists'.1 (hhelper hnamed)
      rw [hhelperPid]
      rfl
    obtain ⟨pp, hopened⟩ := opened_runNamed hrestarts hnamed hstart h
    exact ⟨_, pp, _, hopened⟩
  · rename_i hnamed
    rw [Bool.not_eq_true] at hnamed
    have hrestarts : restarts request answers =
        (!answers.connected || answers.result.isNone) := by
      rw [restarts, hcheck, hconnection, hnamed]
      rfl
    obtain ⟨pp, hopened⟩ := opened_runUnnamed hrestarts hnamed hstart h
    exact ⟨_, pp, _, hopened⟩

/-! ## What a query shows -/

namespace Cli

variable {server : Server} (cli : Cli) {block : CString} {newsql : List UInt8}

/-- A new session with the same text. -/
def fresh : Cli := { mybuf := cli.mybuf }

theorem request_fresh : cli.fresh.request options = cli.request options := rfl

theorem newsql_fresh : cli.fresh.newsql magic options = cli.newsql magic options := rfl

theorem errorMessage_fresh : cli.fresh.errorMessage = zeroedMessage := rfl

theorem loginError_fresh : cli.fresh.loginError = .empty := rfl

theorem shown_unchecked (h : checkRequest (cli.request options) = false) :
    (cli.runPlain magic options server block).map Prod.fst =
      some
        { executed := none
          response := failResponse (cli.request options)
            (dbRestartJson (cli.request options) (startResponse (cli.request options)))
            (ascii "Not all required parameters submitted.") } := by
  have h' : checkRequest (queryRequest options (some cli.mybuf) (cli.param0.read block)) =
      false := h
  rw [runPlain, runQuery, h', Bool.not_false, if_pos rfl, DbRelay.runQuery, h', Bool.not_false,
    if_pos rfl]
  rfl

theorem shown_resolved (hcheck : checkRequest (cli.request options) = true)
    (hresolve : resolveParams magic
      (queryRequest options (some cli.mybuf) (cli.param0.read block)) cli.mybuf.bytes =
        some newsql) :
    (cli.runPlain magic options server block).map Prod.fst =
      ((cli.hear (cli.request options) newsql server).bind fun heard =>
        DbRelay.runQuery magic (queryRequest options (some cli.mybuf) (cli.param0.read block))
          (heard.answers (cli.request options) newsql server)).map
        (Shown.mk (executedSql (cli.request options) newsql server)) := by
  have hcheck' : checkRequest (queryRequest options (some cli.mybuf) (cli.param0.read block)) =
      true := hcheck
  have htext : (queryRequest options (some cli.mybuf) (cli.param0.read block)).sqlText =
      cli.mybuf.bytes := rfl
  rw [runPlain, runQuery, hcheck', if_neg (by decide), htext, hresolve, Option.bind_some]
  show Option.map _ ((cli.hear (cli.request options) newsql server).bind _) = _
  cases cli.hear (cli.request options) newsql server with
  | none => rfl
  | some heard =>
    rw [Option.bind_some, Option.bind_some, Option.map_map]
    rfl

/-- The login messages alone decide, if no text is sent over an unnamed connection. -/
theorem hear_isSome_iff (hearly : server.connection = true → options.named = true) :
    (cli.hear (cli.request options) newsql server).isSome = true ↔
      (options.named = false →
        ∀ m ∈ server.loginMessages, m.toLogin = true → m.text.bytes.length < errorSz) := by
  have hnamed' : (cli.request options).named = options.named := rfl
  rw [hear, hnamed']
  cases hnamed : options.named with
  | true => simp
  | false =>
    have hconnection : server.connection = false := by
      rw [← Bool.not_eq_true]
      exact fun h => Bool.noConfusion (hnamed.symm.trans (hearly h))
    rw [← deliverLogin_isSome_iff cli.loginError, if_neg Bool.false_ne_true, hconnection,
      imp_iff_right rfl]
    cases deliverLogin cli.loginError server.loginMessages <;> rfl

/-- An exit without a connection or a connector does not show what was left. -/
theorem shown_early (hcheck : checkRequest (cli.request options) = true)
    (hparams : cli.param0 = .null ∨ findPlaceholder false cli.mybuf.bytes = none)
    (hearly : server.connection = true → options.named = true ∧ server.helperPid = none) :
    (cli.runPlain magic options server block).map Prod.fst =
      (cli.hear (cli.request options) (cli.newsql magic options) server).map fun _ =>
        { executed := executedSql (cli.request options) (cli.newsql magic options) server
          response := earlyResponse (cli.request options) server.connection } := by
  have hread : cli.param0.read block = none ∨ findPlaceholder false cli.mybuf.bytes = none :=
    hparams.imp_left fun hnull => by rw [hnull]; rfl
  have hresolve : resolveParams magic
      (queryRequest options (some cli.mybuf) (cli.param0.read block)) cli.mybuf.bytes =
        some (cli.newsql magic options) := resolveParams_queryRequest hread
  rw [shown_resolved cli hcheck hresolve]
  have hquery : ∀ heard : Cli,
      DbRelay.runQuery magic (queryRequest options (some cli.mybuf) (cli.param0.read block))
        (heard.answers (cli.request options) (cli.newsql magic options) server) =
      some (earlyResponse (cli.request options) server.connection) :=
    fun heard => runQuery_early hcheck hresolve hearly
  simp only [hquery]
  cases cli.hear (cli.request options) (cli.newsql magic options) server <;> rfl

/-- The last exit shows the parameters and `error_string`. -/
theorem shown_last (hcheck : checkRequest (cli.request options) = true)
    (hparams : cli.param0 = .null ∨ findPlaceholder false cli.mybuf.bytes = none)
    (hconnection : server.connection = true)
    (hhelper : options.named = true → server.helperPid ≠ none) :
    (cli.runPlain magic options server block).map Prod.fst =
      ((cli.hear (cli.request options) (cli.newsql magic options) server).bind fun heard =>
        beforeLog (cli.request options)
          (heard.answers (cli.request options) (cli.newsql magic options) server)).map fun before =>
        { executed := executedSql (cli.request options) (cli.newsql magic options) server
          response := lastResponse (cli.request options)
            ((cli.param0.read block).toList.map CString.bytes) before } := by
  have hread : cli.param0.read block = none ∨ findPlaceholder false cli.mybuf.bytes = none :=
    hparams.imp_left fun hnull => by rw [hnull]; rfl
  have hresolve : resolveParams magic
      (queryRequest options (some cli.mybuf) (cli.param0.read block)) cli.mybuf.bytes =
        some (cli.newsql magic options) := resolveParams_queryRequest hread
  rw [shown_resolved cli hcheck hresolve]
  have hquery : ∀ heard : Cli,
      DbRelay.runQuery magic (queryRequest options (some cli.mybuf) (cli.param0.read block))
        (heard.answers (cli.request options) (cli.newsql magic options) server) =
      (beforeLog (cli.request options)
        (heard.answers (cli.request options) (cli.newsql magic options) server)).map
        (lastResponse (cli.request options) ((cli.param0.read block).toList.map CString.bytes)) :=
    fun heard => runQuery_last hcheck hresolve hconnection hhelper
  simp only [hquery]
  cases cli.hear (cli.request options) (cli.newsql magic options) server with
  | none => rfl
  | some heard =>
    rw [Option.bind_some, Option.bind_some, Option.map_map]
    rfl

/-! ## The error text -/

theorem noParams (hnull : cli.param0 = .null) :
    (cli.param0.read block).toList.map CString.bytes = [] := by
  rw [hnull]
  rfl

/-- Equal responses of the last exit have equal error texts. -/
theorem errorString_of_lastResponse {request : Request} {json : JsonWriter}
    {errorString errorString' : List UInt8}
    (hopened : ∃ callback pp body, Opened callback pp body json)
    (h : lastResponse request [] (json, errorString) =
      lastResponse request [] (json, errorString')) : errorString = errorString' := by
  obtain ⟨callback, pp, body, hopened⟩ := hopened
  exact error_injective_of_log (log_of_endResponse hopened h)

theorem opened_restart (request : Request) :
    ∃ callback pp body,
      Opened callback pp body (dbRestartJson request (startResponse request)) := by
  obtain ⟨pp, hopened⟩ := Opened.dbRestartJson (opened_startResponse request)
  exact ⟨_, pp, _, hopened⟩

/-- The text of a stale `login_error`, without a message of this login. -/
theorem loginError_eq_iff (request : Request) (stale : CharBuf errorSz) :
    DbRelay.loginError request stale.toCString = DbRelay.loginError request .empty ↔
      stale = .empty ∨
        request.sqlPassword.isSet = true ∧ stale.bytes = ascii "Connection failed.\n" := by
  have hempty : stale = .empty ↔ stale.bytes = [] := by
    constructor
    · intro h
      rw [h]
      rfl
    · exact fun h => CharBuf.ext' h
  have hcopied : copyError stale.toCString errorSz = stale.bytes := if_pos stale.fits
  rw [DbRelay.loginError, DbRelay.loginError]
  cases hpassword : request.sqlPassword.isSet with
  | false =>
    have hmessage : errorSz - (ascii
        "Login failed and no password was set, please check.\n").length = 448 := by decide
    have hnone : copyError .empty 448 = [] := by decide
    simp only [Bool.not_false, if_true, Bool.false_eq_true, false_and, or_false, hmessage, hempty,
      List.append_cancel_left_eq, hnone]
    unfold copyError
    constructor
    · intro h
      split at h
      · exact h
      · rename_i hlong
        have hlen := congrArg List.length h
        rw [List.length_take, List.length_nil] at hlen
        omega
    · intro h
      have hbytes : stale.toCString.bytes = [] := h
      rw [hbytes]
      rfl
  | true =>
    have hunset : CString.empty.isSet = false := rfl
    have hset : stale.toCString.isSet = stale.isSet := rfl
    simp only [Bool.not_true, Bool.false_eq_true, if_false, true_and, hunset, Bool.not_false,
      if_true, hset, hempty]
    cases hstale : stale.bytes with
    | nil => simp [CharBuf.isSet, hstale]
    | cons b bytes => simp [CharBuf.isSet, hstale, hcopied]

/-- The writer and `error_string` after `dbrelay_exec_query`. -/
def afterExec (request : Request) (result : Option CString) (errorMessage : List UInt8) :
    Option (JsonWriter × List UInt8) :=
  match result with
  | none =>
    if errorMessage.length < errorSz then
      some (dbRestartJson request (startResponse request), errorMessage)
    else none
  | some ret => some (insertData (startResponse request) ret, [])

theorem afterExec_isSome_iff (request : Request) (result : Option CString)
    (errorMessage : List UInt8) :
    (afterExec request result errorMessage).isSome = true ↔
      (result = none → errorMessage.length < errorSz) := by
  cases result with
  | none =>
    rw [afterExec, imp_iff_right rfl]
    by_cases hlt : errorMessage.length < errorSz <;> simp [hlt]
  | some ret => exact iff_of_true rfl fun h => absurd h (Option.some_ne_none ret)

/-- Only a query that fails shows a stale text before its own. -/
theorem afterExec_append_iff (request : Request) {result : Option CString} {own : List UInt8}
    (hown : result = none → own.length < errorSz) (stale : List UInt8)
    (executed : Option (List UInt8)) :
    (afterExec request result (stale ++ own)).map
          (fun before => Shown.mk executed (lastResponse request [] before)) =
        (afterExec request result own).map
          (fun before => Shown.mk executed (lastResponse request [] before)) ↔
      stale = [] ∨ result ≠ none := by
  cases result with
  | some ret => exact iff_of_true rfl (.inr (Option.some_ne_none ret))
  | none =>
    rw [or_iff_left (not_not.2 rfl), afterExec, afterExec, if_pos (hown rfl)]
    constructor
    · intro h
      split at h
      · have htext := errorString_of_lastResponse (opened_restart request)
          (congrArg Shown.response (Option.some.inj h))
        exact List.append_left_eq_self.1 htext
      · cases h
    · intro hnil
      rw [hnil, List.nil_append, if_pos (hown rfl)]

section Unnamed

variable (hcheck : checkRequest (cli.request options) = true) (hnull : cli.param0 = .null)
  (hnamed : options.named = false) (hconnection : server.connection = true)
include hcheck hnull hnamed hconnection

theorem shown_unnamed :
    (cli.runPlain magic options server block).map Prod.fst =
      ((cli.hear (cli.request options) (cli.newsql magic options) server).bind fun heard =>
        runUnnamed (cli.request options)
          (heard.answers (cli.request options) (cli.newsql magic options) server)
          (startResponse (cli.request options))).map fun before =>
        { executed := executedSql (cli.request options) (cli.newsql magic options) server
          response := lastResponse (cli.request options) [] before } := by
  have hnamed' : (cli.request options).named = false := hnamed
  have hhelper : options.named = true → server.helperPid ≠ none := fun h =>
    Bool.noConfusion (hnamed.symm.trans h)
  rw [shown_last cli hcheck (.inl hnull) hconnection hhelper, noParams cli hnull]
  simp only [beforeLog, hnamed', Bool.false_eq_true, if_false]

theorem shown_unconnected (hconnected : server.connected = false) :
    (cli.runPlain magic options server block).map Prod.fst =
      (deliverLogin cli.loginError server.loginMessages).map fun text =>
        { executed := none
          response := lastResponse (cli.request options) []
            (dbRestartJson (cli.request options) (startResponse (cli.request options)),
              DbRelay.loginError (cli.request options) text.toCString) } := by
  have hnamed' : (cli.request options).named = false := hnamed
  rw [shown_unnamed cli hcheck hnull hnamed hconnection, hear, hnamed', if_neg Bool.false_ne_true,
    hconnected, Bool.and_false, if_neg Bool.false_ne_true]
  cases deliverLogin cli.loginError server.loginMessages with
  | none => rfl
  | some text =>
    simp only [deliver, Option.bind_some, Option.map_some, runUnnamed, answers, error, hconnected,
      executedSql, hconnection, hnamed', Bool.not_true, Bool.not_false, Bool.false_eq_true,
      if_false, if_true]

/-- What a connected query shows of the messages before it and of its own. -/
theorem shown_connected (hconnected : server.connected = true) {text : CharBuf errorSz}
    (hlogin : deliverLogin cli.loginError server.loginMessages = some text) :
    (cli.runPlain magic options server block).map Prod.fst =
      (deliver cli.errorMessage (server.exec (cli.newsql magic options)).2).bind fun buf =>
        (afterExec (cli.request options) (server.exec (cli.newsql magic options)).1
          buf.string).map fun before =>
            { executed := some (cli.newsql magic options)
              response := lastResponse (cli.request options) [] before } := by
  have hnamed' : (cli.request options).named = false := hnamed
  have hboth : (server.connection && server.connected) = true := by
    rw [hconnection, hconnected]
    rfl
  rw [shown_unnamed cli hcheck hnull hnamed hconnection, hear, hnamed', if_neg Bool.false_ne_true,
    hlogin, Option.bind_some, if_pos hboth]
  cases deliver cli.errorMessage (server.exec (cli.newsql magic options)).2 with
  | none => rfl
  | some buf =>
    have hstring : (CString.ofBytes buf.string).bytes = buf.string :=
      CString.ofBytes_bytes_eq_iff.2 (noNul_string buf)
    have hexecuted : executedSql (cli.request options) (cli.newsql magic options) server =
        some (cli.newsql magic options) := by
      rw [executedSql, hconnection, hnamed', hconnected]
      rfl
    rw [hexecuted]
    simp only [Option.bind_some, Option.map_some, runUnnamed, answers, error, hconnected,
      Bool.not_true, Bool.false_eq_true, if_false, if_true, hstring]
    cases (server.exec (cli.newsql magic options)).1 <;> rfl

theorem shown_unconnected_iff (hconnected : server.connected = false) :
    (cli.runPlain magic options server block).map Prod.fst =
        (cli.fresh.runPlain magic options server block).map Prod.fst ↔
      (∃ m ∈ server.loginMessages, m.toLogin = true) ∨ cli.loginError = .empty ∨
        (cli.request options).sqlPassword.isSet = true ∧
          cli.loginError.bytes = ascii "Connection failed.\n" := by
  rw [shown_unconnected cli hcheck hnull hnamed hconnection hconnected,
    shown_unconnected cli.fresh hcheck rfl hnamed hconnection hconnected]
  by_cases hmem : ∃ m ∈ server.loginMessages, m.toLogin = true
  · rw [deliverLogin_of_mem cli.loginError .empty hmem]
    exact iff_of_true rfl (.inl hmem)
  · rw [deliverLogin_of_not_mem _ hmem, deliverLogin_of_not_mem _ hmem, or_iff_right hmem,
      ← loginError_eq_iff]
    constructor
    · intro h
      exact errorString_of_lastResponse (opened_restart (cli.request options))
        (congrArg Shown.response (Option.some.inj h))
    · intro h
      rw [Option.map_some, Option.map_some, h]
      rfl

theorem shown_connected_iff (hcli : cli.Terminated) (hconnected : server.connected = true)
    (hfits : server.Fits (cli.request options) (cli.newsql magic options)) :
    (cli.runPlain magic options server block).map Prod.fst =
        (cli.fresh.runPlain magic options server block).map Prod.fst ↔
      cli.errorMessage.string = [] ∨
        (server.exec (cli.newsql magic options)).1 ≠ none ∧
          cli.errorMessage.string.length +
              (messageText (server.exec (cli.newsql magic options)).2).length <
            errorMessageSz := by
  obtain ⟨hlogin, hroom⟩ := hfits hcheck hnamed
  obtain ⟨hmessage, hfail⟩ := hroom hconnection hconnected
  obtain ⟨text, htext⟩ := Option.isSome_iff_exists.1
    ((deliverLogin_isSome_iff cli.loginError server.loginMessages).2 hlogin)
  obtain ⟨text', htext'⟩ := Option.isSome_iff_exists.1
    ((deliverLogin_isSome_iff .empty server.loginMessages).2 hlogin)
  rw [shown_connected cli hcheck hnull hnamed hconnection hconnected htext,
    shown_connected cli.fresh hcheck rfl hnamed hconnection hconnected htext']
  obtain ⟨own, hown, hownText⟩ := deliver_fresh hmessage
  simp only [request_fresh, newsql_fresh, errorMessage_fresh, hown, Option.bind_some, hownText]
  have hspec := deliver_spec (noNul_string _) hcli (server.exec (cli.newsql magic options)).2
  cases hdeliver : deliver cli.errorMessage (server.exec (cli.newsql magic options)).2 with
  | none =>
    rw [hdeliver] at hspec
    have hfull := hspec.1.not.1 (by simp)
    obtain ⟨before, hbefore⟩ := Option.isSome_iff_exists.1
      ((afterExec_isSome_iff (cli.request options) _ _).2 hfail)
    rw [hbefore, Option.bind_none]
    refine iff_of_false (Option.some_ne_none _).symm ?_
    intro h
    rcases h with hnil | hlt
    · rw [hnil] at hfull
      exact hfull (by simpa using hmessage)
    · exact hfull hlt.2
  | some buf =>
    rw [hdeliver] at hspec
    have hlt := hspec.1.1 rfl
    have hnoNul : 0 ∉ cli.errorMessage.string ++
        messageText (server.exec (cli.newsql magic options)).2 := by
      rw [List.mem_append, not_or]
      exact ⟨noNul_string _, noNul_messageText _⟩
    rw [Option.bind_some, CArray.string_of_prefix hnoNul (hspec.2 buf rfl),
      afterExec_append_iff (cli.request options) hfail]
    exact or_congr_right (and_iff_left hlt).symm

end Unnamed

/-! ## The new session -/

/-- Whether the query comes to the last log. -/
theorem early_or_last (options : Request) (server : Server) :
    (server.connection = true → options.named = true ∧ server.helperPid = none) ∨
      server.connection = true ∧ (options.named = true → server.helperPid ≠ none) := by
  by_cases hlast : server.connection = true ∧ (options.named = true → server.helperPid ≠ none)
  · exact .inr hlast
  · refine .inl fun hconnection => ?_
    rw [not_and, Classical.not_imp, not_not] at hlast
    exact hlast hconnection

/-- The new session of a connected query. -/
theorem shown_fresh_connected_iff (hcheck : checkRequest (cli.request options) = true)
    (hnamed : options.named = false) (hconnection : server.connection = true)
    (hconnected : server.connected = true) {text : CharBuf errorSz}
    (hlogin : deliverLogin .empty server.loginMessages = some text) :
    ((cli.fresh.runPlain magic options server block).map Prod.fst).isSome =
        true ↔
      (messageText (server.exec (cli.newsql magic options)).2).length < errorMessageSz ∧
        ((server.exec (cli.newsql magic options)).1 = none →
          (messageText (server.exec (cli.newsql magic options)).2).length < errorSz) := by
  rw [shown_connected cli.fresh hcheck rfl hnamed hconnection hconnected hlogin]
  by_cases hroom : (messageText (server.exec (cli.newsql magic options)).2).length < errorMessageSz
  · obtain ⟨own, hown, hownText⟩ := deliver_fresh hroom
    simp only [newsql_fresh, errorMessage_fresh, hown, Option.bind_some, hownText]
    rw [and_iff_right hroom, Option.isSome_map]
    exact afterExec_isSome_iff _ _ _
  · have hspec := (deliver_spec List.not_mem_nil zeroedMessage_empty
      (server.exec (cli.newsql magic options)).2).1
    rw [List.length_nil, Nat.zero_add] at hspec
    have hnone : deliver zeroedMessage (server.exec (cli.newsql magic options)).2 = none :=
      Option.not_isSome_iff_eq_none.1 (hspec.not.2 hroom)
    simp only [newsql_fresh, errorMessage_fresh, hnone, Option.bind_none]
    exact iff_of_false Bool.false_ne_true fun h => hroom h.1

/-- The new session shows something exactly if the messages of the query fit. -/
theorem shown_fresh_iff (block : CString) :
    ((cli.fresh.runPlain magic options server block).map Prod.fst).isSome =
        true ↔ server.Fits (cli.request options) (cli.newsql magic options) := by
  have hrequestNamed : (cli.request options).named = options.named := rfl
  cases hcheck : checkRequest (cli.request options) with
  | false =>
    rw [shown_unchecked cli.fresh hcheck]
    exact iff_of_true rfl fun h => Bool.noConfusion (hcheck.symm.trans h)
  | true =>
  rw [Server.Fits, imp_iff_right hcheck, hrequestNamed]
  rcases early_or_last options server with hearly | ⟨hconnection, hhelper⟩
  · have hno : server.connection = true → options.named = true := fun h => (hearly h).1
    rw [shown_early cli.fresh hcheck (.inl rfl) hearly, Option.isSome_map,
      hear_isSome_iff cli.fresh hno]
    refine forall_congr' fun hnamed => (and_iff_left fun hconnection => ?_).symm
    exact Bool.noConfusion (hnamed.symm.trans (hno hconnection))
  · cases hnamed : options.named with
    | true =>
      rw [shown_last cli.fresh hcheck (.inl rfl) hconnection hhelper]
      have hnamed' : (cli.fresh.request options).named = true := hnamed
      refine iff_of_true ?_ fun h => Bool.noConfusion h
      simp only [hear, hnamed', if_true, Option.bind_some, beforeLog, runNamed, answers,
        Option.map_some, Option.isSome_some]
    | false =>
      rw [imp_iff_right rfl, ← deliverLogin_isSome_iff .empty]
      cases hlogin : deliverLogin .empty server.loginMessages with
      | none =>
        have hnamed' : (cli.fresh.request options).named = false := hnamed
        rw [shown_unnamed cli.fresh hcheck rfl hnamed hconnection, hear,
          hnamed', if_neg Bool.false_ne_true, loginError_fresh, hlogin]
        exact iff_of_false Bool.false_ne_true fun h => Bool.false_ne_true h.1
      | some text =>
        rw [and_iff_right Option.isSome_some, imp_iff_right hconnection]
        cases hconnected : server.connected with
        | false =>
          rw [shown_unconnected cli.fresh hcheck rfl hnamed hconnection
            hconnected, loginError_fresh, hlogin]
          exact iff_of_true rfl fun h => Bool.noConfusion h
        | true =>
          rw [imp_iff_right rfl]
          exact shown_fresh_connected_iff cli hcheck hnamed hconnection hconnected hlogin

/-! ## One query -/

variable {cli}

/-- The freed block shows, by its content or because it has no colon. -/
theorem not_readsParams_of_shown (hfreed : cli.param0 = .freed) {shown : Shown}
    (h : ∀ block, (cli.runPlain magic options server block).map Prod.fst = some shown) :
    ¬ReadsParams (cli.request options) server := by
  intro hgiven
  obtain ⟨hcheck, hread⟩ := hgiven
  have hblock : ∀ block, cli.param0.read block = some block := fun block => by rw [hfreed]; rfl
  by_cases hfind : findPlaceholder false cli.mybuf.bytes = none
  · obtain ⟨hconnection, hhelper⟩ := hread.resolve_left (not_not.2 hfind)
    have hone := h .empty
    have htwo := h (.ofBytes (ascii "a"))
    rw [shown_last cli hcheck (.inr hfind) hconnection hhelper, hblock] at hone htwo
    obtain ⟨before, hbefore, rfl⟩ := Option.map_eq_some_iff.1 hone
    obtain ⟨before', hbefore', heq⟩ := Option.map_eq_some_iff.1 htwo
    obtain rfl : before = before' := Option.some.inj (hbefore.symm.trans hbefore')
    obtain ⟨heard, -, hbefore⟩ := Option.bind_eq_some_iff.1 hbefore
    obtain ⟨callback, pp, body, hopened⟩ := opened_beforeLog hcheck hconnection hhelper hbefore
    have hparam := param_injective_of_log
      (log_of_endResponse hopened (congrArg Shown.response heq))
    exact absurd hparam (by decide)
  · have hnone := h .empty
    have hresolve : resolveParams magic (queryRequest options (some cli.mybuf) (some .empty))
        cli.mybuf.bytes = none := resolveParams_empty hfind
    have hcheck' : checkRequest (queryRequest options (some cli.mybuf) (some .empty)) = true :=
      hcheck
    have htext : (queryRequest options (some cli.mybuf) (some .empty)).sqlText =
        cli.mybuf.bytes := rfl
    rw [runPlain, hblock, runQuery, hcheck', if_neg (by decide), htext, hresolve] at hnone
    cases hnone

/-- Without a parameter to read, a query differs from the one in the new session by its error
text only. -/
theorem shown_eq_fresh_iff (hcli : cli.Terminated)
    (hparams : cli.param0 = .freed → ¬ReadsParams (cli.request options) server)
    (hfits : server.Fits (cli.request options) (cli.newsql magic options)) :
    (cli.runPlain magic options server block).map Prod.fst =
        (cli.fresh.runPlain magic options server block).map Prod.fst ↔
      cli.ErrorOwn (cli.request options) (cli.newsql magic options) server := by
  have hrequestNamed : (cli.request options).named = options.named := rfl
  cases hcheck : checkRequest (cli.request options) with
  | false =>
    rw [shown_unchecked cli hcheck, shown_unchecked cli.fresh hcheck]
    exact iff_of_true rfl fun h => Bool.noConfusion (hcheck.symm.trans h)
  | true =>
  rw [ErrorOwn, imp_iff_right hcheck, hrequestNamed]
  rcases early_or_last options server with hearly | ⟨hconnection, hhelper⟩
  · have hno : server.connection = true → options.named = true := fun h => (hearly h).1
    have hnot : cli.param0 = .null ∨ findPlaceholder false cli.mybuf.bytes = none := by
      cases hparam0 : cli.param0 with
      | null => exact .inl rfl
      | freed =>
        by_contra hfind
        exact hparams hparam0 ⟨hcheck, .inl fun hnone => hfind (.inr hnone)⟩
    have hheard : ∀ cli : Cli, checkRequest (cli.request options) = true →
        server.Fits (cli.request options) (cli.newsql magic options) → ∃ heard,
        cli.hear (cli.request options) (cli.newsql magic options) server = some heard :=
      fun cli hcheck hfits => Option.isSome_iff_exists.1
        ((hear_isSome_iff cli hno).2 fun hnamed => (hfits hcheck hnamed).1)
    obtain ⟨heard, hhear⟩ := hheard cli hcheck hfits
    obtain ⟨heard', hhear'⟩ := hheard cli.fresh hcheck hfits
    rw [shown_early cli hcheck hnot hearly, shown_early cli.fresh hcheck (.inl rfl)
      hearly, hhear, hhear']
    refine iff_of_true rfl fun hnamed hconnection => ?_
    exact Bool.noConfusion (hnamed.symm.trans (hno hconnection))
  · have hnull : cli.param0 = .null := by
      cases hparam0 : cli.param0 with
      | null => rfl
      | freed => exact absurd ⟨hcheck, .inr ⟨hconnection, hhelper⟩⟩ (hparams hparam0)
    cases hnamed : options.named with
    | true =>
      have hnamed' : (cli.request options).named = true := hnamed
      rw [shown_last cli hcheck (.inl hnull) hconnection hhelper, noParams cli hnull,
        shown_last cli.fresh hcheck (.inl rfl) hconnection hhelper]
      refine iff_of_true ?_ fun h => Bool.noConfusion h
      simp only [request_fresh, hear, hnamed', if_true, Option.bind_some, beforeLog]
      rfl
    | false =>
      rw [imp_iff_right rfl, imp_iff_right hconnection]
      cases hconnected : server.connected with
      | false =>
        exact shown_unconnected_iff cli hcheck hnull hnamed hconnection hconnected
      | true =>
        exact shown_connected_iff cli hcheck hnull hnamed hconnection hcli hconnected hfits

/-- A `go` on plain text shows what it shows in the new session exactly if it comes to nothing
that was left. -/
theorem shown_iff (hcli : cli.Terminated) :
    (∀ block shown,
      (cli.fresh.runPlain magic options server block).map Prod.fst =
          some shown →
        (cli.runPlain magic options server block).map Prod.fst = some shown) ↔
      cli.Untouched magic options server := by
  constructor
  · intro h hfits
    obtain ⟨shown, hshown⟩ := Option.isSome_iff_exists.1 ((shown_fresh_iff cli .empty).2 hfits)
    -- The new session has no parameter, so the block does not matter there.
    have hall : ∀ block, (cli.runPlain magic options server block).map Prod.fst = some shown :=
      fun block => h block shown hshown
    have hparams := fun hfreed => not_readsParams_of_shown hfreed hall
    exact ⟨hparams, (shown_eq_fresh_iff hcli hparams hfits).1 ((hall .empty).trans hshown.symm)⟩
  · intro h block shown hshown
    have hfits : server.Fits (cli.request options) (cli.newsql magic options) :=
      (shown_fresh_iff cli block).1 (by rw [hshown]; rfl)
    obtain ⟨hparams, herror⟩ := h hfits
    exact ((shown_eq_fresh_iff hcli hparams hfits).2 herror).trans hshown

end Cli

/-! ## Histories -/

theorem fromScratch_iff (magic : CString) (options : Request) (inputs : List Input) :
    AtEach (FromScratch magic options) inputs ↔ AtEach (StaysUntouched magic options) inputs := by
  refine forall_congr' fun history => forall_congr' fun input => forall₂_congr fun _ _ => ?_
  refine forall_congr' fun cli => forall_congr' fun hrun => forall₂_congr fun _ _ => ?_
  rw [← Cli.shown_iff (Cli.terminated_run hrun), run_pending hrun]
  constructor
  · intro hgiven
    obtain ⟨fresh, hfresh, -, h⟩ := hgiven
    obtain rfl := Option.some.inj hfresh
    exact h
  · exact fun h => ⟨_, rfl, rfl, h⟩

/-- A `kill`, and then a query. -/
def killInputs : List Input :=
  [{ line := .ofBytes (ascii "kill /tmp/x") }, { line := .ofBytes (ascii "go") },
    { line := .ofBytes (ascii "select 1") }]

def succeedingGo : Input where
  line := .ofBytes (ascii "go")
  server := { exec := fun _ => (some (.ofBytes (ascii "\"data\":[]")), []) }

/-- The name of the socket was freed, and it is read for the log of the query. -/
theorem not_fromScratch_kill :
    ¬AtEach (FromScratch .empty plainRequest) (killInputs ++ [succeedingGo]) := by
  intro h
  have hrun : run (Cli.step .empty plainRequest) {} killInputs =
      some
        { mybuf := .ofBytes (ascii "select 1\n")
          cmd := .ofBytes (ascii "kill")
          param0 := .freed } := rfl
  obtain ⟨fresh, hfresh, -, hsame⟩ := h.last _ hrun (by decide) (by decide)
  rw [run_pending hrun] at hfresh
  obtain rfl := Option.some.inj hfresh
  have huntouched := (Cli.shown_iff (Cli.terminated_run hrun)).1 hsame
  have hroom : (messageText []).length < errorSz := by decide
  have hfits : succeedingGo.server.Fits plainRequest [] := fun _ _ =>
    ⟨fun _ hm => absurd hm List.not_mem_nil, fun _ _ => ⟨hroom.trans (by decide), fun _ => hroom⟩⟩
  have hparams := (huntouched hfits).1
  exact hparams rfl ⟨by decide, .inr ⟨rfl, fun hnamed => absurd hnamed (by decide)⟩⟩

end DbRelay
