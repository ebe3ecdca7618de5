import DbRelay.Wire.Protocol

/-!
# The settings a connector runs with

A connector serves sessions one after another, and its global request outlives
each of them.

A `ClientSession` is what `dbrelay_db_run_query` does with a connector:
`:HELO`, the request, and `:QUIT`.  `serveSessions` is the outer loop of
`main`.

`ownSettings_iff` says when every request of a sequence runs with its own
settings.  It looks at pairs of requests, because a password that is not sent
leaves the last one in place.
-/

namespace DbRelay

open Framing Decimal

/-! ## Sessions -/

/-- What the client of a session sends. -/
def sessionStream (request : Request) : List UInt8 :=
  ascii ":HELO\n" ++ (requestStream request ++ ascii ":QUIT\n")

/-- A session of a client, and what the database and the socket do in it. -/
structure ClientSession where
  request : Request
  backend : Backend
  /-- `api->isalive` after the session. -/
  alive : Bool
  events : List RecvEvent
  delivers : Delivers events (sessionStream request)

/-- The end of the outer loop of `main`. -/
def Connector.endSession (c : Connector) (alive : Bool) : Connector :=
  { c with receiveSql := false, connected := c.connected && alive }

/-- The outer loop of `main`: the sessions that the connector serves until it
exits or still waits. -/
def serveSessions (pid : Nat) (c : Connector) :
    List ClientSession → List (ClientSession × Session)
  | [] => []
  | session :: sessions =>
    match serve session.backend pid c.newSession {} session.events with
    | (s, .disconnected) | (s, .broken) =>
      (session, s) :: serveSessions pid (s.connector.endSession session.alive) sessions
    | (s, _) => [(session, s)]

/-! ## The request at `:RUN` -/

/-- The requests with which the connector ran, in order. -/
def Session.runs (s : Session) : List Request :=
  s.trace.filterMap fun entry => if entry.1 = .run then some entry.2 else none

/-- The settings that a client can give and that the connector or its database
library reads. -/
structure SameSettings (r request : Request) : Prop where
  sqlServer : r.sqlServer = request.sqlServer
  sqlPort : r.sqlPort = request.sqlPort
  sqlDatabase : r.sqlDatabase = request.sqlDatabase
  sqlUser : r.sqlUser = request.sqlUser
  sqlPassword : r.sqlPassword = request.sqlPassword
  connectionTimeout : r.connectionTimeout = request.connectionTimeout
  flags : r.flags = request.flags
  connectionName : r.connectionName = request.connectionName

/-- The connector runs once, with the settings of this request. -/
def OwnSettings (s : Session) (request : Request) : Prop :=
  ∃ r, s.runs = [r] ∧ SameSettings r request

/-- The global request after the options of a request. -/
def Request.merged (global request : Request) : Request :=
  { global with
    sqlServer := request.sqlServer
    sqlDatabase := request.sqlDatabase
    sqlUser := request.sqlUser
    sqlPassword := if request.sqlPassword.isSet then request.sqlPassword else global.sqlPassword
    connectionTimeout :=
      Int64.ofInt (atol ((decimalInt request.connectionTimeout.toInt).take 9))
    flags := UInt64.ofInt (atol ((decimal request.flags.toNat).take 9))
    connectionName := request.connectionName }

theorem copyString_self {size : Nat} [NeZero size] (buf : CharBuf size) :
    copyString buf.bytes = buf := by
  apply CharBuf.ext'
  rw [copyString_bytes buf.noNul]
  exact List.take_of_length_le (Nat.le_sub_one_of_lt buf.fits)

theorem foldl_takeOption_request (s : Session) (request : Request) :
    (request.options.foldl Session.takeOption s).connector.request =
      s.connector.request.merged request := by
  have hzero : 0 ∉ decimal request.flags.toNat :=
    ((Request.forall_options.1 request.isOption).2.2.2.2.2.1).noNul
  have htimeout : (copyString
      (decimalInt request.connectionTimeout.toInt) : CharBuf numberSz).bytes =
      (decimalInt request.connectionTimeout.toInt).take 9 :=
    copyString_bytes (not_mem_decimalInt (by decide))
  have hflags : (copyString (decimal request.flags.toNat) : CharBuf numberSz).bytes =
      (decimal request.flags.toNat).take 9 := copyString_bytes hzero
  unfold Request.options Request.merged
  split <;>
    simp only [List.cons_append, List.nil_append, List.foldl_cons, List.foldl_nil,
      Session.takeOption, Connector.put, Connector.store, Option.elim_some, Option.map_some,
      Option.getD_some, copyString_self, htimeout, hflags]

theorem Session.runs_append (s : Session) (command : Command) :
    (s.record command).runs =
      s.runs ++ if command = .run then [s.connector.request] else [] := by
  simp only [Session.runs, Session.record, List.filterMap_append, List.filterMap_cons,
    List.filterMap_nil]
  split <;> rename_i h <;> split at h <;> simp_all

theorem foldl_takeOption_runs (s : Session) (options : List (Setting × List UInt8)) :
    (options.foldl Session.takeOption s).runs = s.runs := by
  induction options generalizing s with
  | nil => rfl
  | cons option options ih =>
    rw [List.foldl_cons, ih]
    simp only [Session.runs, Session.takeOption, List.filterMap_append]
    exact List.append_nil _

/-- The request of the connector when it acts on `:RUN`. -/
theorem Session.atRun_request (s : Session) (request : Request) :
    (s.atRun request).connector.request =
      { s.connector.request.merged request with sql := some (.ofBytes request.body) } := by
  rw [← foldl_takeOption_request]
  rfl

theorem Session.atRun_runs (s : Session) (request : Request) :
    (s.atRun request).runs = s.runs ++ [(s.atRun request).connector.request] := by
  have hoptions := foldl_takeOption_runs s request.options
  rw [Session.atRun, Session.runs_append, if_pos rfl]
  congr 1
  show (Session.record _ _).runs = _
  rw [Session.runs_append, if_neg (by simp), List.append_nil]
  show (Session.record _ _).runs = _
  rw [Session.runs_append, if_neg (by simp), List.append_nil]
  exact hoptions

/-! ## One session -/

/-- The session after `:HELO`. -/
def Session.greeted (s : Session) (pid : Nat) : Session :=
  (s.record .helo).send (ascii ":PID " ++ decimal pid ++ ascii "\n")

/-- The session after `:QUIT`. -/
def Session.closing (s : Session) : Session :=
  (s.record .quit).send (ascii ":BYE\n")

theorem Session.takeLine_helo (s : Session) (backend : Backend) (pid : Nat)
    (hmode : s.connector.receiveSql = false) :
    s.takeLine backend pid (ascii ":HELO\n") = .continues (s.greeted pid) := by
  rw [Session.takeLine, Connector.processLine, hmode, Bool.false_and,
    if_neg Bool.false_ne_true]
  rfl

theorem Session.takeLine_quit (s : Session) (backend : Backend) (pid : Nat)
    (hmode : s.connector.receiveSql = false) :
    s.takeLine backend pid (ascii ":QUIT\n") = .stops s.closing .disconnected := by
  rw [Session.takeLine, Connector.processLine, hmode, Bool.false_and,
    if_neg Bool.false_ne_true]
  rfl

theorem sessionStream_noNul (request : Request) : 0 ∉ sessionStream request := by
  have hhelo : 0 ∉ ascii ":HELO\n" := by decide
  have hquit : 0 ∉ ascii ":QUIT\n" := by decide
  rw [sessionStream, List.mem_append, List.mem_append, not_or, not_or]
  exact ⟨hhelo, requestStream_noNul request, hquit⟩

/-- A run changes nothing but `connected`. -/
theorem Session.run_keeps (s : Session) (backend : Backend) :
    (∃ s', s.run backend = .stops s' .exited ∧ s'.trace = s.trace) ∨
      ∃ s', s.run backend = .continues s' ∧ s'.trace = s.trace ∧
        s'.connector.request = s.connector.request ∧
        s'.connector.receiveSql = s.connector.receiveSql := by
  unfold Session.run
  split
  · exact .inl ⟨_, rfl, rfl⟩
  · exact .inr ⟨_, rfl, rfl, rfl, rfl⟩

/-- A session from the lines that follow `:HELO`, however its stream arrives. -/
theorem serve_lines (pid : Nat) (c : Connector) (session : ClientSession) :
    serve session.backend pid c.newSession {} session.events =
      serveLines session.backend pid (c.newSession.greeted pid) (cut newline pieceSize []
        (requestStream session.request ++ ascii ":QUIT\n")).1 := by
  have hpending : InBuf.pending {} = [] := rfl
  have hhelo : ascii ":HELO\n" = ascii ":HELO" ++ [newline] := by decide
  have hpieces : (cut newline pieceSize [] (sessionStream session.request)).1 =
      ascii ":HELO\n" :: (cut newline pieceSize []
        (requestStream session.request ++ ascii ":QUIT\n")).1 := by
    rw [sessionStream, hhelo, List.append_assoc]
    exact cut_line _ (by decide) (by decide)
  rw [serve_delivers session.backend pid session.delivers (sessionStream_noNul _), hpending,
    List.nil_append, hpieces, serveLines, Session.takeLine_helo _ _ _ rfl]

theorem cut_quit : (cut newline pieceSize [] (ascii ":QUIT\n")).1 = [ascii ":QUIT\n"] := by
  have hquit : ascii ":QUIT\n" = ascii ":QUIT" ++ [newline] := by decide
  rw [hquit]
  exact cut_line [] (by decide) (by decide)

/-- A whole session of a well delimited request. -/
theorem serve_session (pid : Nat) (c : Connector) (session : ClientSession)
    (h : WellDelimited session.request) :
    serve session.backend pid c.newSession {} session.events =
      match ((c.newSession.greeted pid).atRun session.request).run session.backend with
      | .stops s how => (s, how)
      | .continues s => (s.closing, .disconnected) := by
  have hmode : (c.newSession.greeted pid).connector.receiveSql = false := rfl
  rw [serve_lines, serveLines_request session.backend pid hmode h]
  rcases Session.run_keeps ((c.newSession.greeted pid).atRun session.request)
    session.backend with ⟨s', hrun, -⟩ | ⟨s', hrun, -, -, hsql⟩
  · rw [hrun]
  · rw [hrun, cut_quit]
    simp only
    rw [serveLines, Session.takeLine_quit _ _ _ hsql]

/-- The request that the connector runs in a session, and keeps for the next. -/
def Connector.requestOf (c : Connector) (session : ClientSession) : Request :=
  { c.request.merged session.request with sql := some (.ofBytes session.request.body) }

/-- What a connector does in a session: it runs the request once, and it exits
or keeps the request. -/
theorem serve_session_runs (pid : Nat) (c : Connector) {session : ClientSession}
    (h : WellDelimited session.request) :
    ∃ s, s.runs = [c.requestOf session] ∧
      (serve session.backend pid c.newSession {} session.events = (s, .exited) ∨
        serve session.backend pid c.newSession {} session.events = (s, .disconnected) ∧
          s.connector.request = c.requestOf session) := by
  have hserve := serve_session pid c session h
  have hruns := Session.atRun_runs (c.newSession.greeted pid) session.request
  rw [Session.atRun_request] at hruns
  rcases Session.run_keeps ((c.newSession.greeted pid).atRun session.request)
    session.backend with ⟨s', hrun, htrace⟩ | ⟨s', hrun, htrace, hrequest, -⟩
  · refine ⟨s', ?_, .inl ?_⟩
    · rw [Session.runs, htrace]
      exact hruns
    · rw [hserve, hrun]
  · refine ⟨s'.closing, ?_, .inr ⟨?_, hrequest.trans (Session.atRun_request _ _)⟩⟩
    · show (s'.record .quit).runs = _
      rw [Session.runs_append, if_neg (by simp), List.append_nil, Session.runs, htrace]
      exact hruns
    · rw [hserve, hrun]

/-- The first of several sessions. -/
theorem serveSessions_cons (pid : Nat) (c : Connector) {session : ClientSession}
    (h : WellDelimited session.request) (sessions : List ClientSession) :
    ∃ s, s.runs = [c.requestOf session] ∧
      (serveSessions pid c (session :: sessions) = [(session, s)] ∨
        ∃ c' : Connector, c'.request = c.requestOf session ∧
          serveSessions pid c (session :: sessions) =
            (session, s) :: serveSessions pid c' sessions) := by
  obtain ⟨s, hruns, hserve | ⟨hserve, hrequest⟩⟩ := serve_session_runs pid c h
  · exact ⟨s, hruns, .inl (by rw [serveSessions, hserve])⟩
  · exact ⟨s, hruns, .inr ⟨s.connector.endSession session.alive, hrequest,
      by rw [serveSessions, hserve]⟩⟩

/-! ## All sessions -/

/-- A request whose settings reach the connector: it has no port, and its
numbers fit the buffers of the connector. -/
structure FitsSettings (request : Request) : Prop where
  port : request.sqlPort.isSet = false
  timeout : -10 ^ 8 < request.connectionTimeout.toInt ∧
    request.connectionTimeout.toInt < 10 ^ 9
  flags : request.flags.toNat < 10 ^ 9

theorem eq_empty_of_not_isSet {size : Nat} {buf buf' : CharBuf size}
    (h : buf.isSet = false) (h' : buf'.isSet = false) : buf = buf' := by
  apply CharBuf.ext'
  have hnil : ∀ {b : CharBuf size}, b.isSet = false → b.bytes = [] := by
    intro b hb
    by_contra hne
    rw [CharBuf.isSet_iff.2 hne] at hb
    cases hb
  rw [hnil h, hnil h']

theorem timeout_merged_iff (timeout : Int64) :
    Int64.ofInt (atol ((decimalInt timeout.toInt).take 9)) = timeout ↔
      -10 ^ 8 < timeout.toInt ∧ timeout.toInt < 10 ^ 9 := by
  obtain ⟨hlow, hhigh⟩ := atol_mem ((decimalInt timeout.toInt).take 9)
  rw [← length_decimalInt_le_iff (by decide), ← atol_take_decimalInt (by decide) (by decide)]
  constructor
  · intro h
    have htoInt := congrArg Int64.toInt h
    rwa [Int64.toInt_ofInt_of_le hlow hhigh] at htoInt
  · intro h
    rw [h, Int64.ofInt_toInt]

theorem flags_merged_iff (flags : UInt64) :
    UInt64.ofInt (atol ((decimal flags.toNat).take 9)) = flags ↔ flags.toNat < 10 ^ 9 := by
  have hnonneg := @atol_take_decimal_nonneg flags.toNat 9 (by decide)
  have hhigh := (atol_mem ((decimal flags.toNat).take 9)).2
  have hlt := flags.toNat_lt
  have hread := @atol_take_decimalInt flags.toNat 9 (by decide) (by decide)
  rw [decimalInt_natCast] at hread
  rw [← length_decimal_le_iff (by decide), ← hread]
  constructor
  · intro h
    have htoNat := congrArg UInt64.toNat h
    rw [UInt64.ofInt, UInt64.toNat_ofNat'] at htoNat
    omega
  · intro h
    apply UInt64.toNat.inj
    rw [h, UInt64.ofInt, UInt64.toNat_ofNat']
    omega

/-- The settings of a request are those of the connector if they fit, and if it
has a password or the connector has none. -/
theorem sameSettings_merged_iff {global request : Request} (hport : global.sqlPort.isSet = false)
    (sql : Option CString) :
    SameSettings { global.merged request with sql := sql } request ↔
      FitsSettings request ∧
        (global.sqlPassword.isSet = true → request.sqlPassword.isSet = true) := by
  constructor
  · intro h
    obtain ⟨-, hsqlPort, -, -, hpassword, htimeout, hflags, -⟩ := h
    have hsqlPort' : global.sqlPort = request.sqlPort := hsqlPort
    refine ⟨⟨hsqlPort' ▸ hport, (timeout_merged_iff _).1 htimeout,
      (flags_merged_iff _).1 hflags⟩, fun hset => ?_⟩
    by_contra hnot
    have hkept : (if request.sqlPassword.isSet then request.sqlPassword
      else global.sqlPassword) = request.sqlPassword := hpassword
    rw [if_neg hnot] at hkept
    exact hnot (hkept ▸ hset)
  · intro h
    obtain ⟨⟨hempty, htimeout, hflags⟩, hpassword⟩ := h
    refine ⟨rfl, eq_empty_of_not_isSet hport hempty, rfl, rfl, ?_,
      (timeout_merged_iff _).2 htimeout, (flags_merged_iff _).2 hflags, rfl⟩
    show (if request.sqlPassword.isSet then request.sqlPassword
      else global.sqlPassword) = request.sqlPassword
    split
    · rfl
    · rename_i hnot
      rw [Bool.not_eq_true] at hnot
      refine eq_empty_of_not_isSet ?_ hnot
      by_contra hset
      rw [Bool.not_eq_false] at hset
      rw [hpassword hset] at hnot
      cases hnot

/-- Every session that the connector serves runs with its own settings. -/
def AllOwnSettings (pid : Nat) (c : Connector) (sessions : List ClientSession) : Prop :=
  ∀ served ∈ serveSessions pid c sessions, OwnSettings served.2 served.1.request

/-- Every session of a connector runs with its own settings if and only if the
settings of each request fit, and no request without a password comes after one
with a password. -/
theorem ownSettings_of_connector (pid : Nat) {c : Connector}
    (hport : c.request.sqlPort.isSet = false) {sessions : List ClientSession}
    (hdelimited : ∀ session ∈ sessions, WellDelimited session.request)
    (hserved : (serveSessions pid c sessions).map Prod.fst = sessions) :
    AllOwnSettings pid c sessions ↔
      (∀ session ∈ sessions, FitsSettings session.request) ∧
      (c.request.sqlPassword.isSet = true →
        ∀ session ∈ sessions, session.request.sqlPassword.isSet = true) ∧
      sessions.Pairwise fun earlier later =>
        earlier.request.sqlPassword.isSet = true → later.request.sqlPassword.isSet = true := by
  unfold AllOwnSettings
  induction sessions generalizing c with
  | nil => simp [serveSessions]
  | cons session sessions ih =>
    obtain ⟨s, hruns, hcases⟩ :=
      serveSessions_cons pid c (hdelimited session List.mem_cons_self) sessions
    have hown : OwnSettings s session.request ↔ FitsSettings session.request ∧
        (c.request.sqlPassword.isSet = true → session.request.sqlPassword.isSet = true) := by
      rw [← sameSettings_merged_iff hport (some (.ofBytes session.request.body))]
      constructor
      · intro h
        obtain ⟨r, hruns', hsame⟩ := h
        rw [hruns] at hruns'
        rwa [← List.singleton_inj.1 hruns'] at hsame
      · intro hsame
        exact ⟨c.requestOf session, hruns, hsame⟩
    rcases hcases with hlast | ⟨c', hc', hnext⟩
    · rw [hlast] at hserved ⊢
      obtain rfl : sessions = [] := by simpa using hserved
      simp [hown]
    · rw [hnext] at hserved ⊢
      have hserved' := (List.cons_inj_right _).1 hserved
      have hport' : c'.request.sqlPort.isSet = false := by
        rw [hc']
        exact hport
      have hpassword : c'.request.sqlPassword.isSet = true ↔
          session.request.sqlPassword.isSet = true ∨ c.request.sqlPassword.isSet = true := by
        rw [hc']
        show (if _ then _ else _ : CharBuf objSz).isSet = true ↔ _
        split
        · rename_i hset
          simp [hset]
        · rename_i hset
          simp [hset]
      have htail := ih hport' (fun x hx => hdelimited x (List.mem_cons_of_mem _ hx)) hserved'
      rw [List.forall_mem_cons, htail, hown, hpassword, List.forall_mem_cons,
        List.pairwise_cons, List.forall_mem_cons]
      constructor
      · intro h
        obtain ⟨⟨hfits, hkept⟩, hfits', hkept', hpairs⟩ := h
        exact ⟨⟨hfits, hfits'⟩, fun hset => ⟨hkept hset, hkept' (.inr hset)⟩,
          fun x hx hset => hkept' (.inl hset) x hx, hpairs⟩
      · intro h
        obtain ⟨⟨hfits, hfits'⟩, hkept, hfirst, hpairs⟩ := h
        refine ⟨⟨hfits, fun hset => (hkept hset).1⟩, hfits', ?_, hpairs⟩
        intro h
        rcases h with hset | hset
        · exact fun x hx => hfirst x hx hset
        · exact (hkept hset).2

/-- A connector that always gets into the database serves every session. -/
theorem serveSessions_all (pid : Nat) (c : Connector) {sessions : List ClientSession}
    (hdelimited : ∀ session ∈ sessions, WellDelimited session.request)
    (hlogin : ∀ session ∈ sessions, session.backend.login = none) :
    (serveSessions pid c sessions).map Prod.fst = sessions := by
  induction sessions generalizing c with
  | nil => rfl
  | cons session sessions ih =>
    have hserve := serve_session pid c session (hdelimited session List.mem_cons_self)
    have hnone : ∀ connected, (if connected = true then none else session.backend.login) =
        none := by
      intro connected
      rw [hlogin session List.mem_cons_self, ite_self]
    rw [Session.run, hnone] at hserve
    rw [serveSessions, hserve, List.map_cons]
    congr 1
    exact ih _ (fun x hx => hdelimited x (List.mem_cons_of_mem _ hx))
      fun x hx => hlogin x (List.mem_cons_of_mem _ hx)

/-- The same for a connector that was just started. -/
theorem ownSettings_iff (pid : Nat) {sessions : List ClientSession}
    (hdelimited : ∀ session ∈ sessions, WellDelimited session.request)
    (hserved : (serveSessions pid {} sessions).map Prod.fst = sessions) :
    AllOwnSettings pid {} sessions ↔
      (∀ session ∈ sessions, FitsSettings session.request) ∧
      sessions.Pairwise fun earlier later =>
        earlier.request.sqlPassword.isSet = true →
          later.request.sqlPassword.isSet = true := by
  rw [ownSettings_of_connector pid rfl hdelimited hserved]
  constructor
  · intro hgiven
    obtain ⟨hfits, -, hpairs⟩ := hgiven
    exact ⟨hfits, hpairs⟩
  · intro hgiven
    obtain ⟨hfits, hpairs⟩ := hgiven
    exact ⟨hfits, fun h => Bool.noConfusion h, hpairs⟩

/-- A session of this request whose stream arrives at once. -/
def sessionOf (request : Request) (h : (sessionStream request).length < socketBufsize) :
    ClientSession where
  request := request
  backend := emptyBackend
  alive := true
  events := [.data ⟨_, List.cons_ne_nil _ _, h⟩]
  delivers := delivers_fragment _

/-- `"select 1"` with a password. -/
def passwordRequest (password : CharBuf objSz) : Request :=
  { namedRequest (.ofBytes (ascii "select 1")) with sqlPassword := password }

def secretSession : ClientSession :=
  sessionOf (passwordRequest (copyString (ascii "secret"))) (by decide +kernel)

def emptySession : ClientSession :=
  sessionOf (passwordRequest .empty) (by decide +kernel)

theorem wellDelimited_samples :
    WellDelimited secretSession.request ∧ WellDelimited emptySession.request :=
  ⟨⟨by decide +kernel, by decide +kernel⟩, ⟨by decide +kernel, by decide +kernel⟩⟩

/-- First without a password, then with one. -/
theorem ownSettings_secretLast : AllOwnSettings 1 {} [emptySession, secretSession] := by
  have hdelimited : ∀ session ∈ [emptySession, secretSession],
      WellDelimited session.request := by
    simp [wellDelimited_samples]
  have hlogin : ∀ session ∈ [emptySession, secretSession],
      session.backend.login = none := by
    simp [emptySession, secretSession, sessionOf, emptyBackend]
  refine (ownSettings_iff 1 hdelimited (serveSessions_all 1 {} hdelimited hlogin)).2 ⟨?_, ?_⟩
  · have hfits : FitsSettings emptySession.request ∧ FitsSettings secretSession.request :=
      ⟨⟨rfl, by decide, by decide⟩, ⟨rfl, by decide, by decide⟩⟩
    simp [hfits]
  · decide +kernel

/-- First with a password, then without one: the second session runs with the
password of the first. -/
theorem not_ownSettings_stalePassword :
    ¬ ∀ (pid : Nat) (sessions : List ClientSession),
      (∀ session ∈ sessions, ∀ o ∈ session.request.options, newline ∉ o.2) →
      (serveSessions pid {} sessions).map Prod.fst = sessions →
      AllOwnSettings pid {} sessions := by
  intro h
  have hdelimited : ∀ session ∈ [secretSession, emptySession],
      WellDelimited session.request := by
    simp [wellDelimited_samples]
  have hlogin : ∀ session ∈ [secretSession, emptySession],
      session.backend.login = none := by
    simp [emptySession, secretSession, sessionOf, emptyBackend]
  have hserved := serveSessions_all 1 {} hdelimited hlogin
  have hown := h 1 _ (fun session hsession => (hdelimited session hsession).values) hserved
  have hpairs := ((ownSettings_of_connector 1 rfl hdelimited hserved).1 hown).2.2
  revert hpairs
  decide +kernel

end DbRelay
