import DbRelay.Lib.History
import DbRelay.Lib.StepSystem
import DbRelay.Wire.Settings

/-!
# The main loop and its database handle

`main` of `connector.c` keeps one database handle, `conn.db`.  It is a local variable that
only the branch for `RUN` sets, and it outlives the sessions.

* `serveMain` is the loop over one session with the calls of `api`, and `mainLoop` the loop
  over the sessions.
* `serveMain_session`: without the handle this is `serve`.
* `serveMain_untilRun`: before the first `RUN` of a session nothing is called.
* `ownHandles_iff`: every handle that is passed was returned by `api->connect` exactly if the
  first session does not end before a `RUN`, and no login fails.
-/

namespace DbRelay

open Framing History

/-! ## The calls -/

/-- `PERSISTENT_CONN`. -/
def persistentConn : Bool := true

/-- `conn.db`. -/
inductive ConnDb
  | uninitialized
  | null
  | handle (db : Handle)
  deriving DecidableEq, Repr

/-- A call of `api`, with what is passed for the handle, and with the answer of `api->connect`
and of `api->isalive`. -/
inductive ApiCall
  | connect (answer : Option Handle)
  | execQuery (db : ConnDb)
  | error (db : ConnDb)
  | isalive (db : ConnDb) (answer : Bool)
  | close (db : ConnDb)
  deriving DecidableEq, Repr

/-- A session, and what the database answers in it.  There is at most one login in a
session. -/
structure MainSession where
  backend : Backend
  /-- What `api->connect` returns, unless the login fails. -/
  handle : Handle
  /-- What `api->isalive` returns at the end. -/
  alive : Bool
  events : List RecvEvent

/-- The variables of `main`. -/
structure MainState where
  session : Session := { connector := {} }
  db : ConnDb := .uninitialized
  calls : List ApiCall := []
  deriving DecidableEq, Repr

inductive MainTurn
  | continues (m : MainState)
  | stops (m : MainState) (how : SessionEnd)
  deriving DecidableEq, Repr

namespace MainState

def call (m : MainState) (calls : List ApiCall) : MainState :=
  { m with calls := m.calls ++ calls }

/-! ## The loop -/

/-- The branch of `main` for `RUN`, after the login.  The text of an error is logged and
sent. -/
def exec (m : MainState) (input : MainSession) : MainState :=
  let outcome := input.backend.exec m.session.trace.length m.session.connector.request
  let m := { m.call [.execQuery m.db] with session := m.session.send (runReply outcome) }
  let m := match outcome with
    | .results _ => m
    | .failed _ => m.call [.error m.db, .error m.db]
  if persistentConn then m else m.call [.close m.db]

/-- The branch of `main` for `RUN`. -/
def run (m : MainState) (input : MainSession) : MainTurn :=
  if !persistentConn || !m.session.connector.connected then
    match input.backend.login with
    | some error =>
      .stops
        { m.call [.connect none, .error .null, .error .null] with
          session := m.session.send (runReply (.failed error))
          db := .null } .exited
    | none =>
      let connector := { m.session.connector with connected := true }
      .continues (({ m.call [.connect (some input.handle)] with
        session := { m.session with connector := connector }
        db := .handle input.handle } : MainState).exec input)
  else .continues (m.exec input)

/-- The branches of `main` for the values that `process_line` returns. -/
def respond (m : MainState) (input : MainSession) (pid : Nat) (ret : Ret) : MainTurn :=
  if ret = .run then m.run input
  else
    match m.session.respond input.backend pid ret with
    | .continues s => .continues { m with session := s }
    | .stops s how => .stops { m with session := s } how

/-- The loop body of `main` for one line. -/
def takeLine (m : MainState) (input : MainSession) (pid : Nat) (line : List UInt8) : MainTurn :=
  match m.session.connector.processLine line with
  | none => .stops m .undefined
  | some (c, none) => .continues { m with session := { m.session with connector := c } }
  | some (c, some command) =>
    { m with
      session := { m.session with
        connector := c
        trace := m.session.trace ++ [(command, c.request)] } }.respond input pid command.ret

/-- The end of a session.  Without a handle `api->isalive` gets what it may not read. -/
def endSession (m : MainState) (alive : Bool) : MainTurn :=
  match m.db with
  | .handle _ =>
    .continues { m.call [.isalive m.db alive] with
      session := { m.session with connector := m.session.connector.endSession alive } }
  | _ => .stops (m.call [.isalive m.db alive]) .undefined

end MainState

/-- The loop of `main` over one session. -/
def serveMain (input : MainSession) (pid : Nat) (m : MainState) (inBuf : InBuf)
    (events : List RecvEvent) : MainState × SessionEnd :=
  match _h : recvString inBuf events with
  | .waiting => (m, .waiting)
  | .returned .closed _ _ => (m, .broken)
  | .returned .failed _ _ => (m, .broken)
  | .returned (.line line) inBuf' events' =>
    match m.takeLine input pid line with
    | .stops m how => (m, how)
    | .continues m => serveMain input pid m inBuf' events'
termination_by recvWeight inBuf events
decreasing_by exact recvString_weight ‹_›

/-- The body of the outer loop of `main`, for one connection. -/
def takeSession (pid : Nat) (m : MainState) (input : MainSession) : MainTurn :=
  match serveMain input pid { m with session := m.session.connector.newSession } {}
      input.events with
  | (m, .disconnected) | (m, .broken) => m.endSession input.alive
  | (m, how) => .stops m how

/-- The outer loop of `main`. -/
def mainLoop (pid : Nat) (m : MainState) : List MainSession → MainState
  | [] => m
  | input :: inputs =>
    match takeSession pid m input with
    | .continues m => mainLoop pid m inputs
    | .stops m _ => m

/-- One session of `mainLoop`. -/
def sessionStep (pid : Nat) (m : MainState) (input : MainSession) : Option MainState :=
  match takeSession pid m input with
  | .continues m => some m
  | .stops _ _ => none

/-! ## One line -/

namespace MainState

/-- What the branch for `RUN` calls after the login. -/
theorem exec_spec (m : MainState) (input : MainSession) :
    ∃ more, (m.exec input).calls = m.calls ++ more ∧
      (∀ call ∈ more, call = .execQuery m.db ∨ call = .error m.db) ∧
      (m.exec input).db = m.db ∧
      (m.exec input).session = m.session.send (runReply
        (input.backend.exec m.session.trace.length m.session.connector.request)) := by
  unfold exec
  simp only [persistentConn, if_true]
  split
  · exact ⟨[.execQuery m.db], rfl, by simp, rfl, rfl⟩
  · refine ⟨[.execQuery m.db, .error m.db, .error m.db], ?_, by simp, rfl, rfl⟩
    simp [call]

/-- The three ways of the branch for `RUN`. -/
inductive RunEffect (m : MainState) (input : MainSession) : MainTurn → Prop
  | reuse (hconnected : m.session.connector.connected = true) :
    RunEffect m input (.continues (m.exec input))
  | login (m' : MainState) (hconnected : m.session.connector.connected = false)
    (hlogin : input.backend.login = none) (hdb : m'.db = .handle input.handle)
    (hcalls : m'.calls = m.calls ++ [.connect (some input.handle)])
    (hnow : m'.session.connector.connected = true) :
    RunEffect m input (.continues (m'.exec input))
  | refused (m' : MainState) (hconnected : m.session.connector.connected = false)
    (hlogin : input.backend.login ≠ none)
    (hcalls : m'.calls = m.calls ++ [.connect none, .error .null, .error .null]) :
    RunEffect m input (.stops m' .exited)

theorem run_effect (m : MainState) (input : MainSession) : m.RunEffect input (m.run input) := by
  unfold run
  cases hconnected : m.session.connector.connected with
  | true =>
    rw [if_neg (by simp [persistentConn])]
    exact .reuse hconnected
  | false =>
    rw [if_pos (by simp [persistentConn])]
    cases hlogin : input.backend.login with
    | none => exact .login _ hconnected hlogin rfl rfl rfl
    | some error => exact .refused _ hconnected (by simp [hlogin]) rfl

/-- The handle and the calls are the same. -/
structure SameHandle (m m' : MainState) : Prop where
  db : m'.db = m.db
  calls : m'.calls = m.calls
  connected : m'.session.connector.connected = m.session.connector.connected

theorem SameHandle.refl (m : MainState) : m.SameHandle m := ⟨rfl, rfl, rfl⟩

theorem SameHandle.trans {m m' m'' : MainState} (h : m.SameHandle m') (h' : m'.SameHandle m'') :
    m.SameHandle m'' :=
  ⟨h'.db.trans h.db, h'.calls.trans h.calls, h'.connected.trans h.connected⟩

/-- What a line does: only `RUN` is about the handle. -/
inductive LineEffect (m : MainState) (input : MainSession) (line : List UInt8) :
    MainTurn → Prop
  | undefined (hline : m.session.connector.processLine line = none) :
    LineEffect m input line (.stops m .undefined)
  | body (m' : MainState) (hsame : m.SameHandle m')
    (hline : m.session.connector.processLine line = some (m'.session.connector, none)) :
    LineEffect m input line (.continues m')
  | run (m' : MainState) (hsame : m.SameHandle m') (command : Command)
    (hline : m.session.connector.processLine line = some (m'.session.connector, some command))
    (hret : command.ret = .run) : LineEffect m input line (m'.run input)
  | quit (m' : MainState) (hsame : m.SameHandle m') (command : Command)
    (hline : m.session.connector.processLine line = some (m'.session.connector, some command))
    (hret : command.ret = .quit) : LineEffect m input line (.stops m' .disconnected)
  | die (m' : MainState) (hsame : m.SameHandle m') (command : Command)
    (hline : m.session.connector.processLine line = some (m'.session.connector, some command))
    (hret : command.ret = .die) : LineEffect m input line (.stops m' .exited)
  | answer (m' : MainState) (hsame : m.SameHandle m') (command : Command)
    (hline : m.session.connector.processLine line = some (m'.session.connector, some command))
    (hret : command.ret ≠ .run ∧ command.ret ≠ .quit ∧ command.ret ≠ .die) :
    LineEffect m input line (.continues m')

theorem takeLine_effect (m : MainState) (input : MainSession) (pid : Nat) (line : List UInt8) :
    m.LineEffect input line (m.takeLine input pid line) := by
  cases hline : m.session.connector.processLine line with
  | none =>
    rw [takeLine, hline]
    exact .undefined hline
  | some result =>
    rcases result with ⟨c, command⟩
    have hconnected := Connector.processLine_connected hline
    cases command with
    | none =>
      rw [takeLine, hline]
      exact .body _ ⟨rfl, rfl, hconnected⟩ hline
    | some command =>
      rw [takeLine, hline]
      simp only [respond]
      cases hret : command.ret with
      | run =>
        rw [if_pos rfl]
        exact .run _ ⟨rfl, rfl, hconnected⟩ command hline hret
      | quit => exact .quit _ ⟨rfl, rfl, hconnected⟩ command hline hret
      | die => exact .die _ ⟨rfl, rfl, hconnected⟩ command hline hret
      | helo | ok | cont | err =>
        exact .answer _ ⟨rfl, rfl, hconnected⟩ command hline (by simp [hret])

end MainState

/-! ## One session -/

theorem serveMain_eq (input : MainSession) (pid : Nat) (m : MainState) (inBuf : InBuf)
    (events : List RecvEvent) :
    serveMain input pid m inBuf events =
      match recvString inBuf events with
      | .waiting => (m, .waiting)
      | .returned .closed _ _ => (m, .broken)
      | .returned .failed _ _ => (m, .broken)
      | .returned (.line line) inBuf' events' =>
        match m.takeLine input pid line with
        | .stops m how => (m, how)
        | .continues m => serveMain input pid m inBuf' events' := by
  rw [serveMain]
  split <;> rename_i h <;> rw [h]

/-- The rule for the loop over one session: what each line keeps, or leaves at the end, the
session does. -/
theorem serveMain_rule {P : MainState → Prop} {Q : MainState → SessionEnd → Prop}
    {input : MainSession} {pid : Nat} (hidle : ∀ m, P m → Q m .waiting ∧ Q m .broken)
    (hcontinues : ∀ m line m', P m → m.takeLine input pid line = .continues m' → P m')
    (hstops : ∀ m line m' how, P m → m.takeLine input pid line = .stops m' how → Q m' how)
    {m : MainState} (hm : P m) (inBuf : InBuf) (events : List RecvEvent) :
    Q (serveMain input pid m inBuf events).1 (serveMain input pid m inBuf events).2 := by
  induction hn : recvWeight inBuf events using Nat.strong_induction_on
    generalizing m inBuf events with
  | _ n ih =>
    rw [serveMain_eq]
    cases hrecv : recvString inBuf events with
    | waiting => exact (hidle m hm).1
    | returned received inBuf' events' =>
      cases received with
      | closed | failed => exact (hidle m hm).2
      | line line =>
        simp only
        cases hturn : m.takeLine input pid line with
        | stops m' how => exact hstops m line m' how hm hturn
        | continues m' =>
          exact ih _ (hn ▸ recvString_weight hrecv) (hcontinues m line m' hm hturn) inBuf'
            events' rfl

/-! ## Without the handle -/

/-- What a turn is for the session. -/
def MainTurn.turn : MainTurn → Turn
  | .continues m => .continues m.session
  | .stops m how => .stops m.session how

theorem MainState.run_turn (m : MainState) (input : MainSession) :
    (m.run input).turn = m.session.run input.backend := by
  have hexec : ∀ m : MainState, (m.exec input).session = m.session.send (runReply
      (input.backend.exec m.session.trace.length m.session.connector.request)) := by
    intro m
    obtain ⟨more, -, -, -, hsession⟩ := m.exec_spec input
    exact hsession
  unfold MainState.run Session.run
  by_cases hconnected : m.session.connector.connected = true
  · rw [if_neg (by simp [persistentConn, hconnected]), if_pos hconnected, MainTurn.turn, hexec,
      ← hconnected]
  · rw [if_pos (by simp [persistentConn, hconnected]), if_neg hconnected]
    cases input.backend.login with
    | some error => rfl
    | none => exact congrArg Turn.continues (hexec _)

theorem MainState.takeLine_turn (m : MainState) (input : MainSession) (pid : Nat)
    (line : List UInt8) :
    (m.takeLine input pid line).turn = m.session.takeLine input.backend pid line := by
  unfold MainState.takeLine Session.takeLine
  cases m.session.connector.processLine line with
  | none => rfl
  | some result =>
    rcases result with ⟨c, _ | command⟩
    · rfl
    · simp only [MainState.respond]
      cases command.ret with
      | run => exact MainState.run_turn _ input
      | helo | quit | ok | err | die | cont => rfl

/-- The session and its end are those of the loop without the handle. -/
theorem serveMain_session (input : MainSession) (pid : Nat) (m : MainState) (inBuf : InBuf)
    (events : List RecvEvent) :
    ((serveMain input pid m inBuf events).1.session, (serveMain input pid m inBuf events).2) =
      serve input.backend pid m.session inBuf events := by
  induction hn : recvWeight inBuf events using Nat.strong_induction_on
    generalizing m inBuf events with
  | _ n ih =>
    rw [serveMain_eq, serve_eq]
    cases hrecv : recvString inBuf events with
    | waiting => rfl
    | returned received inBuf' events' =>
      cases received with
      | closed | failed => rfl
      | line line =>
        simp only
        rw [← m.takeLine_turn input pid line]
        cases m.takeLine input pid line with
        | stops m' how => rfl
        | continues m' => exact ih _ (hn ▸ recvString_weight hrecv) m' inBuf' events' rfl

/-! ## Before a `RUN` -/

/-- The lines that arrive come to a `RUN`. -/
def comesToRun (c : Connector) (inBuf : InBuf) (events : List RecvEvent) : Bool :=
  match _h : recvString inBuf events with
  | .waiting => false
  | .returned .closed _ _ => false
  | .returned .failed _ _ => false
  | .returned (.line line) inBuf' events' =>
    match c.processLine line with
    | none => false
    | some (c, none) => comesToRun c inBuf' events'
    | some (c, some command) =>
      match command.ret with
      | .run => true
      | .quit => false
      | .die => false
      | _ => comesToRun c inBuf' events'
termination_by recvWeight inBuf events
decreasing_by all_goals exact recvString_weight ‹_›

theorem comesToRun_eq (c : Connector) (inBuf : InBuf) (events : List RecvEvent) :
    comesToRun c inBuf events =
      match recvString inBuf events with
      | .waiting => false
      | .returned .closed _ _ => false
      | .returned .failed _ _ => false
      | .returned (.line line) inBuf' events' =>
        match c.processLine line with
        | none => false
        | some (c, none) => comesToRun c inBuf' events'
        | some (c, some command) =>
          match command.ret with
          | .run => true
          | .quit => false
          | .die => false
          | _ => comesToRun c inBuf' events' := by
  rw [comesToRun]
  split <;> rename_i h <;> rw [h]

/-- The lines that arrive come to the end of the session before they come to a `RUN`. -/
def endsBeforeRun (c : Connector) (inBuf : InBuf) (events : List RecvEvent) : Bool :=
  match _h : recvString inBuf events with
  | .waiting => false
  | .returned .closed _ _ => true
  | .returned .failed _ _ => true
  | .returned (.line line) inBuf' events' =>
    match c.processLine line with
    | none => false
    | some (c, none) => endsBeforeRun c inBuf' events'
    | some (c, some command) =>
      match command.ret with
      | .run => false
      | .quit => true
      | .die => false
      | _ => endsBeforeRun c inBuf' events'
termination_by recvWeight inBuf events
decreasing_by all_goals exact recvString_weight ‹_›

theorem endsBeforeRun_eq (c : Connector) (inBuf : InBuf) (events : List RecvEvent) :
    endsBeforeRun c inBuf events =
      match recvString inBuf events with
      | .waiting => false
      | .returned .closed _ _ => true
      | .returned .failed _ _ => true
      | .returned (.line line) inBuf' events' =>
        match c.processLine line with
        | none => false
        | some (c, none) => endsBeforeRun c inBuf' events'
        | some (c, some command) =>
          match command.ret with
          | .run => false
          | .quit => true
          | .die => false
          | _ => endsBeforeRun c inBuf' events' := by
  rw [endsBeforeRun]
  split <;> rename_i h <;> rw [h]

/-- What follows a turn. -/
def MainTurn.serve (turn : MainTurn) (input : MainSession) (pid : Nat) (inBuf : InBuf)
    (events : List RecvEvent) : MainState × SessionEnd :=
  match turn with
  | .stops m how => (m, how)
  | .continues m => serveMain input pid m inBuf events

/-- The session comes to its end and not to a `RUN`: it has called nothing. -/
def EndsUncalled (m : MainState) (inBuf : InBuf) (events : List RecvEvent)
    (result : MainState × SessionEnd) : Prop :=
  comesToRun m.session.connector inBuf events = false ∧
    (endsBeforeRun m.session.connector inBuf events = true ↔
      result.2 = .disconnected ∨ result.2 = .broken) ∧ m.SameHandle result.1

/-- The session comes to a `RUN`, and has called nothing until then. -/
def ComesUncalled (input : MainSession) (pid : Nat) (m : MainState) (inBuf : InBuf)
    (events : List RecvEvent) (result : MainState × SessionEnd) : Prop :=
  comesToRun m.session.connector inBuf events = true ∧
    endsBeforeRun m.session.connector inBuf events = false ∧ ∃ m' inBuf' events',
      m.SameHandle m' ∧ result = (m'.run input).serve input pid inBuf' events'

/-- Before the first `RUN` nothing is called. -/
theorem serveMain_untilRun (input : MainSession) (pid : Nat) (m : MainState) (inBuf : InBuf)
    (events : List RecvEvent) :
    EndsUncalled m inBuf events (serveMain input pid m inBuf events) ∨
      ComesUncalled input pid m inBuf events (serveMain input pid m inBuf events) := by
  induction hn : recvWeight inBuf events using Nat.strong_induction_on
    generalizing m inBuf events with
  | _ n ih =>
    unfold EndsUncalled ComesUncalled
    rw [serveMain_eq, comesToRun_eq, endsBeforeRun_eq]
    cases hrecv : recvString inBuf events with
    | waiting => exact .inl ⟨rfl, by simp, .refl m⟩
    | returned received inBuf' events' =>
      cases received with
      | closed | failed => exact .inl ⟨rfl, by simp, .refl m⟩
      | line line =>
        have hrest : ∀ {m' : MainState}, m.SameHandle m' →
            comesToRun m'.session.connector inBuf' events' = false ∧
                (endsBeforeRun m'.session.connector inBuf' events' = true ↔
                  (serveMain input pid m' inBuf' events').2 = .disconnected ∨
                    (serveMain input pid m' inBuf' events').2 = .broken) ∧
                m.SameHandle (serveMain input pid m' inBuf' events').1 ∨
              comesToRun m'.session.connector inBuf' events' = true ∧
                endsBeforeRun m'.session.connector inBuf' events' = false ∧
                ∃ m'' inBuf'' events'', m.SameHandle m'' ∧ serveMain input pid m' inBuf' events' =
                  (m''.run input).serve input pid inBuf'' events'' := by
          intro m' hsame
          rcases ih _ (hn ▸ recvString_weight hrecv) m' inBuf' events' rfl with
            ⟨hno, hends, hsame'⟩ | ⟨hyes, hends, m'', inBuf'', events'', hsame', hserve⟩
          · exact .inl ⟨hno, hends, hsame.trans hsame'⟩
          · exact .inr ⟨hyes, hends, m'', inBuf'', events'', hsame.trans hsame', hserve⟩
        have heffect := m.takeLine_effect input pid line
        simp only
        generalize m.takeLine input pid line = turn at heffect ⊢
        cases heffect with
        | undefined hline =>
          rw [hline]
          exact .inl ⟨rfl, by simp, .refl m⟩
        | body m' hsame hline =>
          rw [hline]
          exact hrest hsame
        | answer m' hsame command hline hret =>
          rw [hline]
          have hnext := hrest hsame
          cases hcode : command.ret with
          | run => exact absurd hcode hret.1
          | quit => exact absurd hcode hret.2.1
          | die => exact absurd hcode hret.2.2
          | helo | ok | cont | err => simpa only [hcode] using hnext
        | quit m' hsame command hline hret | die m' hsame command hline hret =>
          rw [hline]
          exact .inl ⟨by simp only [hret], by simp [hret], hsame⟩
        | run m' hsame command hline hret =>
          rw [hline]
          exact .inr ⟨by simp only [hret], by simp only [hret], m', inBuf', events', hsame, rfl⟩

/-! ## Every call is kept -/

/-- The state after a turn. -/
def MainTurn.state : MainTurn → MainState
  | .continues m => m
  | .stops m _ => m

/-- Every call of a line is kept. -/
theorem MainState.takeLine_calls (m : MainState) (input : MainSession) (pid : Nat)
    (line : List UInt8) : m.calls <+: (m.takeLine input pid line).state.calls := by
  have hexec : ∀ m : MainState, m.calls <+: (m.exec input).calls := by
    intro m
    obtain ⟨more, hcalls, -⟩ := m.exec_spec input
    exact ⟨more, hcalls.symm⟩
  have heffect := m.takeLine_effect input pid line
  generalize m.takeLine input pid line = turn at heffect ⊢
  cases heffect with
  | undefined => exact List.prefix_refl _
  | body m' hsame | answer m' hsame | quit m' hsame | die m' hsame =>
    exact hsame.calls ▸ List.prefix_refl _
  | run m' hsame =>
    rw [← hsame.calls]
    have hrun := m'.run_effect input
    generalize m'.run input = turn at hrun ⊢
    cases hrun with
    | reuse hconnected => exact hexec m'
    | login m'' hconnected hlogin hdb hcalls hnow =>
      exact List.IsPrefix.trans ⟨_, hcalls.symm⟩ (hexec m'')
    | refused m'' hconnected hlogin hcalls => exact ⟨_, hcalls.symm⟩

theorem serveMain_calls (input : MainSession) (pid : Nat) (m : MainState) (inBuf : InBuf)
    (events : List RecvEvent) : m.calls <+: (serveMain input pid m inBuf events).1.calls := by
  refine serveMain_rule (P := fun m' => m.calls <+: m'.calls)
    (Q := fun m' _ => m.calls <+: m'.calls) (fun m' h => ⟨h, h⟩) ?_ ?_ (List.prefix_refl _)
    inBuf events
  · intro m' line m'' h hturn
    have hkept := m'.takeLine_calls input pid line
    rw [hturn] at hkept
    exact h.trans hkept
  · intro m' line m'' how h hturn
    have hkept := m'.takeLine_calls input pid line
    rw [hturn] at hkept
    exact h.trans hkept

theorem takeSession_calls (pid : Nat) (m : MainState) (input : MainSession) :
    (serveMain input pid { m with session := m.session.connector.newSession } {}
      input.events).1.calls <+: (takeSession pid m input).state.calls := by
  have hended : ∀ m' : MainState, m'.calls <+: (m'.endSession input.alive).state.calls := by
    intro m'
    unfold MainState.endSession
    cases m'.db <;> exact List.prefix_append _ _
  rw [takeSession]
  generalize serveMain input pid { m with session := m.session.connector.newSession } {}
    input.events = result
  rcases result with ⟨m', how⟩
  cases how with
  | waiting | exited | undefined => exact List.prefix_refl _
  | disconnected | broken => exact hended m'

theorem mainLoop_calls (pid : Nat) (m : MainState) (inputs : List MainSession) :
    m.calls <+: (mainLoop pid m inputs).calls := by
  induction inputs generalizing m with
  | nil => exact List.prefix_refl _
  | cons input inputs ih =>
    have hserved := (serveMain_calls input pid
      { m with session := m.session.connector.newSession } {} input.events).trans
        (takeSession_calls pid m input)
    rw [mainLoop]
    cases hturn : takeSession pid m input with
    | stops m' how =>
      rw [hturn] at hserved
      exact hserved
    | continues m' =>
      rw [hturn] at hserved
      exact hserved.trans (ih m')

/-- Whatever follows, the calls of a session stay. -/
theorem takeSession_calls_mainLoop (pid : Nat) (m : MainState) (input : MainSession)
    (inputs : List MainSession) :
    (takeSession pid m input).state.calls <+: (mainLoop pid m (input :: inputs)).calls := by
  rw [mainLoop]
  cases takeSession pid m input with
  | stops m' how => exact List.prefix_refl _
  | continues m' => exact mainLoop_calls pid m' inputs

theorem mainLoop_cons (pid : Nat) (m : MainState) (input : MainSession)
    (inputs : List MainSession) :
    mainLoop pid m (input :: inputs) =
      match sessionStep pid m input with
      | some m' => mainLoop pid m' inputs
      | none => (takeSession pid m input).state := by
  rw [mainLoop, sessionStep]
  cases takeSession pid m input <;> rfl

/-! ## Handles of its own -/

/-- The handle was returned by `api->connect`. -/
def Connected (earlier : List ApiCall) (db : ConnDb) : Prop :=
  ∃ h, db = .handle h ∧ .connect (some h) ∈ earlier

/-- What is passed in a call was returned by an earlier one. -/
def ApiCall.OwnHandle (earlier : List ApiCall) : ApiCall → Prop
  | .connect _ => True
  | .execQuery db => Connected earlier db
  | .error db => Connected earlier db
  | .isalive db _ => Connected earlier db
  | .close db => Connected earlier db

def OwnHandles (calls : List ApiCall) : Prop :=
  ∀ before call after, calls = before ++ call :: after → ApiCall.OwnHandle before call

theorem Connected.mono {earlier more : List ApiCall} {db : ConnDb} (h : Connected earlier db) :
    Connected (earlier ++ more) db := by
  obtain ⟨handle, hdb, hmem⟩ := h
  exact ⟨handle, hdb, List.mem_append_left more hmem⟩

theorem ApiCall.OwnHandle.mono {earlier more : List ApiCall} {call : ApiCall}
    (h : call.OwnHandle earlier) : call.OwnHandle (earlier ++ more) := by
  cases call with
  | connect answer => trivial
  | execQuery db | error db | isalive db answer | close db => exact Connected.mono h

theorem OwnHandles.left {calls more : List ApiCall} (h : OwnHandles (calls ++ more)) :
    OwnHandles calls := AtEach.left h

theorem OwnHandles.append {calls more : List ApiCall} (h : OwnHandles calls)
    (hmore : ∀ call ∈ more, call.OwnHandle calls) : OwnHandles (calls ++ more) :=
  AtEach.append (fun _ _ _ => ApiCall.OwnHandle.mono) h hmore

theorem ownHandles_nil : OwnHandles [] := atEach_nil

/-- `conn.db` is a handle, and so was everything that was passed. -/
structure MainState.LoggedIn (m : MainState) : Prop where
  own : OwnHandles m.calls
  db : Connected m.calls m.db

/-- Nothing was called yet. -/
structure MainState.Fresh (m : MainState) : Prop where
  db : m.db = .uninitialized
  calls : m.calls = []
  connected : m.session.connector.connected = false

namespace MainState

theorem SameHandle.loggedIn {m m' : MainState} (h : m.SameHandle m') (hm : m.LoggedIn) :
    m'.LoggedIn := by
  constructor
  · rw [h.calls]
    exact hm.own
  · rw [h.calls, h.db]
    exact hm.db

theorem SameHandle.fresh {m m' : MainState} (h : m.SameHandle m') (hm : m.Fresh) : m'.Fresh :=
  ⟨h.db.trans hm.db, h.calls.trans hm.calls, h.connected.trans hm.connected⟩

theorem LoggedIn.exec {m : MainState} (h : m.LoggedIn) (input : MainSession) :
    (m.exec input).LoggedIn := by
  obtain ⟨more, hcalls, hmore, hdb, -⟩ := m.exec_spec input
  constructor
  · rw [hcalls]
    refine h.own.append fun call hmem => ?_
    rcases hmore call hmem with rfl | rfl
    · exact h.db
    · exact h.db
  · rw [hcalls, hdb]
    exact h.db.mono

theorem exec_connected (m : MainState) (input : MainSession) :
    (m.exec input).session.connector = m.session.connector := by
  obtain ⟨more, -, -, -, hsession⟩ := m.exec_spec input
  rw [hsession]
  rfl

/-- A line of a session that is connected passes the handle. -/
theorem LoggedIn.takeLine {m : MainState} (h : m.LoggedIn)
    (hconnected : m.session.connector.connected = true) (input : MainSession) (pid : Nat)
    (line : List UInt8) :
    (m.takeLine input pid line).state.LoggedIn ∧
      (m.takeLine input pid line).state.session.connector.connected = true := by
  have heffect := m.takeLine_effect input pid line
  generalize m.takeLine input pid line = turn at heffect ⊢
  cases heffect with
  | undefined => exact ⟨h, hconnected⟩
  | body m' hsame | answer m' hsame | quit m' hsame | die m' hsame =>
    exact ⟨hsame.loggedIn h, hsame.connected.trans hconnected⟩
  | run m' hsame =>
    have hconnected' := hsame.connected.trans hconnected
    have hrun := m'.run_effect input
    generalize m'.run input = turn at hrun ⊢
    cases hrun with
    | reuse =>
      refine ⟨(hsame.loggedIn h).exec input, ?_⟩
      rw [MainTurn.state, exec_connected]
      exact hconnected'
    | login m'' hnot | refused m'' hnot =>
      rw [hconnected'] at hnot
      cases hnot

end MainState

theorem serveMain_loggedIn {m : MainState} (h : m.LoggedIn)
    (hconnected : m.session.connector.connected = true) (input : MainSession) (pid : Nat)
    (inBuf : InBuf) (events : List RecvEvent) :
    (serveMain input pid m inBuf events).1.LoggedIn := by
  refine serveMain_rule (P := fun m => m.LoggedIn ∧ m.session.connector.connected = true)
    (Q := fun m _ => m.LoggedIn) (fun m hm => ⟨hm.1, hm.1⟩) ?_ ?_ ⟨h, hconnected⟩ inBuf events
  · intro m line m' hm hturn
    have hnext := hm.1.takeLine hm.2 input pid line
    rw [hturn] at hnext
    exact hnext
  · intro m line m' how hm hturn
    have hnext := hm.1.takeLine hm.2 input pid line
    rw [hturn] at hnext
    exact hnext.1

/-- A `RUN` with a login passes the handle. -/
theorem MainState.LoggedIn.run_connected {m : MainState} (h : m.LoggedIn)
    (hconnected : m.session.connector.connected = true) (input : MainSession) (pid : Nat)
    (inBuf : InBuf) (events : List RecvEvent) :
    ((m.run input).serve input pid inBuf events).1.LoggedIn := by
  have hrun := m.run_effect input
  generalize m.run input = turn at hrun ⊢
  cases hrun with
  | reuse =>
    refine serveMain_loggedIn (h.exec input) ?_ input pid inBuf events
    rw [MainState.exec_connected]
    exact hconnected
  | login m' hnot | refused m' hnot =>
    rw [hconnected] at hnot
    cases hnot

/-- A `RUN` without a login: the new one fails, and `NULL` is passed to `api->error`, or the
session has a handle from then on. -/
theorem MainState.run_unconnected {m : MainState} (hown : OwnHandles m.calls)
    (hconnected : m.session.connector.connected = false) (input : MainSession) (pid : Nat)
    (inBuf : InBuf) (events : List RecvEvent) :
    input.backend.login = none ∧ ((m.run input).serve input pid inBuf events).1.LoggedIn ∨
      input.backend.login ≠ none ∧
        ¬OwnHandles ((m.run input).serve input pid inBuf events).1.calls := by
  have hrun := m.run_effect input
  generalize m.run input = turn at hrun ⊢
  cases hrun with
  | reuse hyet =>
    rw [hconnected] at hyet
    cases hyet
  | login m' _ hlogin hdb hcalls hnow =>
    have hlogged : m'.LoggedIn := by
      constructor
      · rw [hcalls]
        exact hown.append fun call hmem => by rw [List.mem_singleton.1 hmem]; trivial
      · rw [hcalls]
        exact ⟨input.handle, hdb, by simp⟩
    refine .inl ⟨hlogin, serveMain_loggedIn (hlogged.exec input) ?_ input pid inBuf events⟩
    rw [MainState.exec_connected]
    exact hnow
  | refused m' _ hlogin hcalls =>
    refine .inr ⟨hlogin, fun hcalled => ?_⟩
    rw [MainTurn.serve, hcalls] at hcalled
    obtain ⟨handle, hdb, -⟩ :=
      hcalled (m.calls ++ [.connect none]) (.error .null) [.error .null] (by simp)
    cases hdb

/-! ## All sessions -/

/-- The session has a handle when one is passed: it does not end before a `RUN` while there is
none, and the login of a `RUN` does not fail. -/
structure GetsHandle (m : MainState) (input : MainSession) : Prop where
  runs : m.db = .uninitialized →
    endsBeforeRun m.session.connector.newSession.connector {} input.events = false
  login : m.session.connector.connected = false →
    comesToRun m.session.connector.newSession.connector {} input.events = true →
      input.backend.login = none

/-- The end of a session with a handle. -/
theorem MainState.LoggedIn.endSession {m : MainState} (h : m.LoggedIn) (alive : Bool) :
    ∃ m', m.endSession alive = .continues m' ∧ m'.LoggedIn := by
  obtain ⟨handle, hdb, -⟩ := h.db
  refine ⟨_, by rw [MainState.endSession, hdb], h.own.append fun call hmem => ?_, ?_⟩
  · rw [List.mem_singleton.1 hmem, ← hdb]
    exact h.db
  · exact h.db.mono

/-- A session that leaves a handle, or goes on without an end. -/
theorem MainState.LoggedIn.takeSession {pid : Nat} {m m' : MainState} {input : MainSession}
    {how : SessionEnd} (hserve : serveMain input pid
      { m with session := m.session.connector.newSession } {} input.events = (m', how))
    (h : m'.LoggedIn) :
    OwnHandles (takeSession pid m input).state.calls ∧
      ∀ m'', takeSession pid m input = .continues m'' → m''.LoggedIn := by
  obtain ⟨ended, hended, hlogged⟩ := h.endSession input.alive
  rw [DbRelay.takeSession, hserve]
  cases how with
  | waiting | exited | undefined => exact ⟨h.own, fun m'' heq => by cases heq⟩
  | disconnected | broken =>
    simp only [hended]
    refine ⟨hlogged.own, fun m'' heq => ?_⟩
    cases heq
    exact hlogged

/-- At the end of a session without a handle, `api->isalive` gets what `conn.db` was declared
with. -/
theorem MainState.Fresh.takeSession {pid : Nat} {m m' : MainState} {input : MainSession}
    {how : SessionEnd} (hserve : serveMain input pid
      { m with session := m.session.connector.newSession } {} input.events = (m', how))
    (h : m'.Fresh) :
    takeSession pid m input =
      if how = .disconnected ∨ how = .broken then
        .stops (m'.call [.isalive .uninitialized input.alive]) .undefined
      else .stops m' how := by
  have hend : m'.endSession input.alive =
      .stops (m'.call [.isalive .uninitialized input.alive]) .undefined := by
    rw [MainState.endSession, h.db]
  rw [DbRelay.takeSession, hserve]
  cases how with
  | waiting | exited | undefined => rfl
  | disconnected | broken => exact hend

/-- One session: all handles are its own, exactly if it gets one in time. -/
theorem takeSession_ownHandles {m : MainState} (hm : m.LoggedIn ∨ m.Fresh) (pid : Nat)
    (input : MainSession) :
    GetsHandle m input ∧ OwnHandles (takeSession pid m input).state.calls ∧
        (∀ m', takeSession pid m input = .continues m' → m'.LoggedIn) ∨
      ¬GetsHandle m input ∧ ¬OwnHandles (takeSession pid m input).state.calls := by
  have hsame : m.SameHandle { m with session := m.session.connector.newSession } :=
    ⟨rfl, rfl, rfl⟩
  have hcalled := takeSession_calls pid m input
  cases hserve : serveMain input pid { m with session := m.session.connector.newSession } {}
      input.events with
  | mk m' how =>
  rw [hserve] at hcalled
  have huntil := serveMain_untilRun input pid
    { m with session := m.session.connector.newSession } {} input.events
  rw [hserve] at huntil
  rcases huntil with ⟨hno, hends, hsame'⟩ | ⟨hyes, hends, m₁, inBuf, events, hsame', heq⟩
  · rcases hm with hm | hm
    · -- The handle of an earlier session is there.
      have hlogged := (hsame.trans hsame').loggedIn hm
      obtain ⟨handle, hdb, -⟩ := hm.db
      refine .inl ⟨⟨fun hnone => ?_, fun _ hrun => ?_⟩, hlogged.takeSession hserve⟩
      · rw [hdb] at hnone
        cases hnone
      · rw [hno] at hrun
        cases hrun
    · have hfresh := (hsame.trans hsame').fresh hm
      have hstops := hfresh.takeSession hserve
      by_cases hended : how = .disconnected ∨ how = .broken
      · rw [if_pos hended] at hstops
        refine .inr ⟨fun hgets => ?_, fun hown => ?_⟩
        · exact Bool.false_ne_true ((hgets.runs hm.db).symm.trans (hends.2 hended))
        · rw [hstops] at hown
          obtain ⟨handle, hdb, -⟩ := hown m'.calls _ [] rfl
          cases hdb
      · rw [if_neg hended] at hstops
        refine .inl ⟨⟨fun _ => ?_, fun _ hrun => ?_⟩, ?_, fun m'' heq => ?_⟩
        · exact Bool.eq_false_iff.2 fun hfirst => hended (hends.1 hfirst)
        · rw [hno] at hrun
          cases hrun
        · rw [hstops, MainTurn.state, hfresh.calls]
          exact ownHandles_nil
        · rw [hstops] at heq
          cases heq
  · have hnotEnds : endsBeforeRun m.session.connector.newSession.connector {} input.events =
        false := hends
    have hown : OwnHandles m₁.calls := by
      rw [(hsame.trans hsame').calls]
      rcases hm with hm | hm
      · exact hm.own
      · rw [hm.calls]
        exact ownHandles_nil
    cases hconnected : m.session.connector.connected with
    | true =>
      rcases hm with hm | hm
      · have hyet : m₁.session.connector.connected = true :=
          (hsame.trans hsame').connected.trans hconnected
        have hlogged :=
          ((hsame.trans hsame').loggedIn hm).run_connected hyet input pid inBuf events
        rw [← heq] at hlogged
        refine .inl ⟨⟨fun _ => hnotEnds, fun hnot => ?_⟩, hlogged.takeSession hserve⟩
        rw [hconnected] at hnot
        cases hnot
      · rw [hm.connected] at hconnected
        cases hconnected
    | false =>
      have hyet : m₁.session.connector.connected = false :=
        (hsame.trans hsame').connected.trans hconnected
      rcases m₁.run_unconnected hown hyet input pid inBuf events with
        ⟨hlogin, hlogged⟩ | ⟨hlogin, hnot⟩
      · rw [← heq] at hlogged
        exact .inl ⟨⟨fun _ => hnotEnds, fun _ _ => hlogin⟩, hlogged.takeSession hserve⟩
      · rw [← heq] at hnot
        refine .inr ⟨fun hgets => hlogin (hgets.login hconnected hyes), fun hcalls => hnot ?_⟩
        obtain ⟨more, hmore⟩ := hcalled
        rw [← hmore] at hcalls
        exact hcalls.left

theorem mainLoop_ownHandles (pid : Nat) (inputs : List MainSession) {m : MainState}
    (hm : m.LoggedIn ∨ m.Fresh) :
    OwnHandles (mainLoop pid m inputs).calls ↔
      StepSystem.AllEvents (sessionStep pid) GetsHandle m inputs := by
  induction inputs generalizing m with
  | nil =>
    refine iff_of_true ?_ trivial
    rcases hm with hm | hm
    · exact hm.own
    · rw [mainLoop, hm.calls]
      exact ownHandles_nil
  | cons input inputs ih =>
    rcases takeSession_ownHandles hm pid input with ⟨hgets, hown, hnext⟩ | ⟨hgets, hnot⟩
    · rw [StepSystem.AllEvents, and_iff_right hgets, mainLoop_cons, sessionStep]
      cases hturn : takeSession pid m input with
      | stops m' how =>
        rw [hturn] at hown
        exact iff_of_true hown fun m'' hm'' => by cases hm''
      | continues m' =>
        simp only [Option.some.injEq, forall_eq']
        exact ih (.inl (hnext m' hturn))
    · refine iff_of_false (fun hown => hnot ?_) fun hevents => hgets hevents.1
      obtain ⟨more, hmore⟩ := takeSession_calls_mainLoop pid m input inputs
      rw [← hmore] at hown
      exact hown.left

/-- Every handle that is passed was returned by `api->connect` exactly if no session ends
before a `RUN` while there is none, and no login fails. -/
theorem ownHandles_iff (pid : Nat) (inputs : List MainSession) :
    OwnHandles (mainLoop pid {} inputs).calls ↔
      StepSystem.AllEvents (sessionStep pid) GetsHandle {} inputs :=
  mainLoop_ownHandles pid inputs (.inr ⟨rfl, rfl, rfl⟩)

/-- The client of the first session says `:QUIT`. -/
def quitSession : MainSession where
  backend := { login := none, exec := fun _ _ => .results (ascii "[]") }
  handle := 1
  alive := true
  events := [.data ⟨ascii ":QUIT\n", by decide, by decide⟩]

theorem not_ownHandles_quitFirst : ¬OwnHandles (mainLoop 1 {} [quitSession]).calls := by
  have hcalls : (mainLoop 1 {} [quitSession]).calls = [.isalive .uninitialized true] := by
    decide +kernel
  intro h
  rw [hcalls] at h
  obtain ⟨handle, hdb, -⟩ := h [] _ [] rfl
  cases hdb

end DbRelay
