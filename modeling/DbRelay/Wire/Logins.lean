import DbRelay.Wire.MainLoop

/-!
# The logins of the connector

`main` of `connector.c` logs in at a `RUN` unless `connected` is set, and clears it at the end
of a session if `api->isalive` answers no.

* `Dbapi.isalive` is that answer for the two backends that can tell.
* `KeepsOneLogin` says what a sequence of calls of `api` should be: one login at a time, which
  is used again while it is alive, and closed before there is a new one.
* `keepsOneLogin_iff`: it is, exactly if no `RUN` comes to a session that starts with a handle
  and without `connected`.
-/

namespace DbRelay

open History

/-! ## Alive or dead -/

/-- The backends with a test of the connection. -/
inductive Dbapi
  | mssql
  | mysql
  deriving DecidableEq, Repr

/-- `api->isalive`, as a truth value, of what `DBDEAD` or `mysql_ping` answers.  Both answer
zero for a connection that is alive. -/
def Dbapi.isalive : Dbapi → Int → Bool
  | .mssql, dead => decide (dead = 0)
  | .mysql, ping => decide (ping ≠ 0)

/-- Whether the connection was alive when `api->isalive` gave that answer. -/
def Dbapi.alive : Dbapi → Bool → Bool
  | .mssql, answer => answer
  | .mysql, answer => !answer

theorem Dbapi.alive_isalive (dbapi : Dbapi) (probe : Int) :
    dbapi.alive (dbapi.isalive probe) = decide (probe = 0) := by
  cases dbapi with
  | mssql => rfl
  | mysql => simp [alive, isalive]

/-- A session, with what the client library answers at its end. -/
structure DbSession where
  backend : Backend
  handle : Handle
  probe : Int
  events : List RecvEvent

def DbSession.toMain (dbapi : Dbapi) (s : DbSession) : MainSession where
  backend := s.backend
  handle := s.handle
  alive := dbapi.isalive s.probe
  events := s.events

/-! ## What the calls should be -/

/-- The logins after a call. -/
def ApiCall.loginsAfter (logins : List Handle) : ApiCall → List Handle
  | .connect (some h) => logins ++ [h]
  | .close (.handle h) => logins.erase h
  | _ => logins

/-- The handles that `api->connect` returned and that were not closed. -/
def openLogins (calls : List ApiCall) : List Handle := calls.foldl ApiCall.loginsAfter []

/-- The last check after a call. -/
def ApiCall.checkAfter (check : Option (Handle × Bool)) : ApiCall → Option (Handle × Bool)
  | .isalive (.handle h) answer => some (h, answer)
  | .isalive _ _ => none
  | .connect _ | .execQuery _ => none
  | .error _ | .close _ => check

/-- What the end of the last session said of the handle, if there was no `RUN` since. -/
def lastCheck (calls : List ApiCall) : Option (Handle × Bool) :=
  calls.foldl ApiCall.checkAfter none

/-- The first call of a `RUN`. -/
def ApiCall.isRun : ApiCall → Bool
  | .connect _ | .execQuery _ => true
  | _ => false

/-- A `RUN` uses the handle that was alive. -/
def ReusesLogin (dbapi : Dbapi) (earlier : List ApiCall) (call : ApiCall) : Prop :=
  ∀ h answer, lastCheck earlier = some (h, answer) → dbapi.alive answer = true →
    call.isRun = true → call = .execQuery (.handle h)

/-- A login does not come before the dead handle is closed. -/
def ClosesDead (dbapi : Dbapi) (earlier : List ApiCall) (call : ApiCall) : Prop :=
  ∀ h answer new, lastCheck earlier = some (h, answer) → dbapi.alive answer = false →
    call = .connect (some new) → h ∉ openLogins earlier

/-- One login at a time: it is used again while it is alive, and closed when it is dead. -/
structure KeepsOneLogin (dbapi : Dbapi) (calls : List ApiCall) : Prop where
  atMostOne : ∀ earlier, earlier <+: calls → (openLogins earlier).length ≤ 1
  reuses : AtEach (ReusesLogin dbapi) calls
  closes : AtEach (ClosesDead dbapi) calls

theorem openLogins_snoc (calls : List ApiCall) (call : ApiCall) :
    openLogins (calls ++ [call]) = call.loginsAfter (openLogins calls) := by
  rw [openLogins, List.foldl_append]
  rfl

theorem lastCheck_snoc (calls : List ApiCall) (call : ApiCall) :
    lastCheck (calls ++ [call]) = call.checkAfter (lastCheck calls) := by
  rw [lastCheck, List.foldl_append]
  rfl

namespace KeepsOneLogin

variable {dbapi : Dbapi} {calls more : List ApiCall} {call : ApiCall} {h : Handle}

theorem nil : KeepsOneLogin dbapi [] := by
  refine ⟨fun earlier hearlier => ?_, atEach_nil, atEach_nil⟩
  rw [List.prefix_nil.1 hearlier]
  exact Nat.zero_le 1

theorem left (hkeeps : KeepsOneLogin dbapi (calls ++ more)) : KeepsOneLogin dbapi calls :=
  ⟨fun earlier hearlier => hkeeps.atMostOne earlier (hearlier.trans (List.prefix_append _ _)),
    hkeeps.reuses.left, hkeeps.closes.left⟩

theorem snoc (hkeeps : KeepsOneLogin dbapi calls)
    (hone : (call.loginsAfter (openLogins calls)).length ≤ 1)
    (hreuses : ReusesLogin dbapi calls call) (hcloses : ClosesDead dbapi calls call) :
    KeepsOneLogin dbapi (calls ++ [call]) := by
  refine ⟨fun earlier hearlier => ?_, hkeeps.reuses.snoc hreuses, hkeeps.closes.snoc hcloses⟩
  rcases List.prefix_concat_iff.1 hearlier with rfl | hearlier
  · rw [openLogins_snoc]
    exact hone
  · exact hkeeps.atMostOne earlier hearlier

/-- A call that is not a `RUN` is allowed if it opens nothing. -/
theorem snoc_of_not_isRun (hkeeps : KeepsOneLogin dbapi calls) (hrun : call.isRun = false)
    (hlogins : call.loginsAfter (openLogins calls) = openLogins calls) :
    KeepsOneLogin dbapi (calls ++ [call]) := by
  refine hkeeps.snoc ?_ ?_ ?_
  · rw [hlogins]
    exact hkeeps.atMostOne calls (List.prefix_refl _)
  · intro h answer _ _ hcall
    rw [hrun] at hcall
    cases hcall
  · rintro h answer new _ _ rfl
    cases hrun

/-- A second login is one too many. -/
theorem not_second (hopen : openLogins calls = [h]) (new : Handle) :
    ¬KeepsOneLogin dbapi (calls ++ [.connect (some new)]) := by
  intro hkeeps
  have hone := hkeeps.atMostOne _ (List.prefix_refl _)
  rw [openLogins_snoc, hopen] at hone
  simp [ApiCall.loginsAfter] at hone

end KeepsOneLogin

/-! ## With a login -/

/-- There is one login, and it is the one that was checked last. -/
structure OneLogin (dbapi : Dbapi) (h : Handle) (calls : List ApiCall) : Prop where
  opened : openLogins calls = [h]
  checked : ∀ h' answer, lastCheck calls = some (h', answer) → h' = h
  keeps : KeepsOneLogin dbapi calls

/-- A call that passes the handle. -/
def ApiCall.Uses (h : Handle) (call : ApiCall) : Prop :=
  call = .execQuery (.handle h) ∨ call = .error (.handle h) ∨
    ∃ answer, call = .isalive (.handle h) answer

theorem OneLogin.snoc {dbapi : Dbapi} {h : Handle} {calls : List ApiCall} {call : ApiCall}
    (hone : OneLogin dbapi h calls) (huses : call.Uses h) :
    OneLogin dbapi h (calls ++ [call]) := by
  have hlogins : call.loginsAfter (openLogins calls) = openLogins calls := by
    rcases huses with rfl | rfl | ⟨answer, rfl⟩ <;> rfl
  refine ⟨?_, fun h' answer hcheck => ?_, ?_⟩
  · rw [openLogins_snoc, hlogins]
    exact hone.opened
  · rw [lastCheck_snoc] at hcheck
    rcases huses with rfl | rfl | ⟨found, rfl⟩
    · cases hcheck
    · exact hone.checked h' answer hcheck
    · obtain ⟨rfl, -⟩ := Prod.mk.inj (Option.some.inj hcheck)
      rfl
  · rcases huses with rfl | rfl | ⟨answer, rfl⟩
    · refine hone.keeps.snoc ?_ ?_ ?_
      · rw [hlogins, hone.opened]
        exact Nat.le_refl 1
      · intro h' answer hcheck _ _
        rw [hone.checked h' answer hcheck]
      · rintro h' answer new _ _ hcall
        cases hcall
    · exact hone.keeps.snoc_of_not_isRun rfl rfl
    · exact hone.keeps.snoc_of_not_isRun rfl rfl

namespace MainState

/-- `conn.db` is the one login. -/
structure HasLogin (dbapi : Dbapi) (h : Handle) (m : MainState) : Prop where
  db : m.db = .handle h
  one : OneLogin dbapi h m.calls

/-- There was no `RUN` yet. -/
structure NoLogin (dbapi : Dbapi) (m : MainState) : Prop where
  db : m.db = .uninitialized
  connected : m.session.connector.connected = false
  opened : openLogins m.calls = []
  checked : lastCheck m.calls = none
  keeps : KeepsOneLogin dbapi m.calls

variable {dbapi : Dbapi} {h : Handle} {m m' : MainState}

theorem SameHandle.hasLogin (hsame : m.SameHandle m') (hm : m.HasLogin dbapi h) :
    m'.HasLogin dbapi h :=
  ⟨hsame.db.trans hm.db, hsame.calls ▸ hm.one⟩

theorem SameHandle.noLogin (hsame : m.SameHandle m') (hm : m.NoLogin dbapi) :
    m'.NoLogin dbapi :=
  ⟨hsame.db.trans hm.db, hsame.connected.trans hm.connected, hsame.calls ▸ hm.opened,
    hsame.calls ▸ hm.checked, hsame.calls ▸ hm.keeps⟩

theorem HasLogin.exec (hm : m.HasLogin dbapi h) (input : MainSession) :
    (m.exec input).HasLogin dbapi h := by
  obtain ⟨more, hcalls, hmore, hdb, -⟩ := m.exec_spec input
  refine ⟨hdb.trans hm.db, ?_⟩
  rw [hcalls]
  refine append_of_snoc (fun calls hone call hmem => hone.snoc ?_) hm.one
  rw [hm.db] at hmore
  exact (hmore call hmem).imp_right .inl

theorem HasLogin.endSession (hm : m.HasLogin dbapi h) (alive : Bool) :
    ∃ m', m.endSession alive = .continues m' ∧ m'.HasLogin dbapi h := by
  refine ⟨_, by rw [MainState.endSession, hm.db], ?_⟩
  exact ⟨hm.db, hm.one.snoc (.inr (.inr ⟨alive, rfl⟩))⟩

/-- Without a login there is nothing that `api->isalive` could look at. -/
theorem NoLogin.endSession (hm : m.NoLogin dbapi) (alive : Bool) :
    ∃ m', m.endSession alive = .stops m' .undefined ∧ KeepsOneLogin dbapi m'.calls := by
  refine ⟨_, by rw [MainState.endSession, hm.db], ?_⟩
  exact hm.keeps.snoc_of_not_isRun rfl rfl

/-- A line of a session that is connected uses the login. -/
theorem HasLogin.takeLine (hm : m.HasLogin dbapi h)
    (hconnected : m.session.connector.connected = true) (input : MainSession) (pid : Nat)
    (line : List UInt8) :
    (m.takeLine input pid line).state.HasLogin dbapi h ∧
      (m.takeLine input pid line).state.session.connector.connected = true := by
  have heffect := m.takeLine_effect input pid line
  generalize m.takeLine input pid line = turn at heffect ⊢
  cases heffect with
  | undefined => exact ⟨hm, hconnected⟩
  | body m' hsame | answer m' hsame | quit m' hsame | die m' hsame =>
    exact ⟨hsame.hasLogin hm, hsame.connected.trans hconnected⟩
  | run m' hsame =>
    have hm' := hsame.hasLogin hm
    have hconnected' := hsame.connected.trans hconnected
    have hrun := m'.run_effect input
    generalize m'.run input = turn at hrun ⊢
    cases hrun with
    | reuse =>
      refine ⟨hm'.exec input, ?_⟩
      rw [MainTurn.state, exec_connected]
      exact hconnected'
    | login m'' hnot | refused m'' hnot =>
      rw [hconnected'] at hnot
      cases hnot

end MainState

/-- A session that is connected uses the login. -/
theorem serveMain_hasLogin {dbapi : Dbapi} {h : Handle} {m : MainState}
    (hm : m.HasLogin dbapi h) (hconnected : m.session.connector.connected = true)
    (input : MainSession) (pid : Nat) (inBuf : InBuf) (events : List RecvEvent) :
    (serveMain input pid m inBuf events).1.HasLogin dbapi h := by
  refine serveMain_rule
    (P := fun m => m.HasLogin dbapi h ∧ m.session.connector.connected = true)
    (Q := fun m _ => m.HasLogin dbapi h) (fun m hm => ⟨hm.1, hm.1⟩) ?_ ?_ ⟨hm, hconnected⟩
    inBuf events
  · intro m line m' hm hturn
    have hnext := hm.1.takeLine hm.2 input pid line
    rw [hturn] at hnext
    exact hnext
  · intro m line m' how hm hturn
    have hnext := hm.1.takeLine hm.2 input pid line
    rw [hturn] at hnext
    exact hnext.1

/-! ## All sessions -/

/-- A session that starts with a handle and without `connected` comes to no `RUN`, unless the
handle is dead and the login fails. -/
def LeavesLogin (dbapi : Dbapi) (m : MainState) (input : MainSession) : Prop :=
  ∀ h, m.db = .handle h → m.session.connector.connected = false →
    comesToRun m.session.connector.newSession.connector {} input.events = true →
      input.backend.login ≠ none ∧
        ∀ h' answer, lastCheck m.calls = some (h', answer) → dbapi.alive answer = false

/-- A failed login opens nothing. -/
theorem KeepsOneLogin.refused {dbapi : Dbapi} {calls : List ApiCall}
    (hkeeps : KeepsOneLogin dbapi calls)
    (hcheck : ∀ h answer, lastCheck calls = some (h, answer) → dbapi.alive answer = false) :
    KeepsOneLogin dbapi (calls ++ [.connect none, .error .null, .error .null]) := by
  have hconnect : KeepsOneLogin dbapi (calls ++ [.connect none]) := by
    refine hkeeps.snoc (hkeeps.atMostOne calls (List.prefix_refl _)) ?_ ?_
    · intro h answer hlast halive _
      rw [hcheck h answer hlast] at halive
      cases halive
    · rintro h answer new _ _ hcall
      cases hcall
  have herror : KeepsOneLogin dbapi (calls ++ [.connect none] ++ [.error .null]) :=
    hconnect.snoc_of_not_isRun rfl rfl
  have herrors : KeepsOneLogin dbapi
      (calls ++ [.connect none] ++ [.error .null] ++ [.error .null]) :=
    herror.snoc_of_not_isRun rfl rfl
  rwa [List.append_assoc, List.append_assoc] at herrors

/-- What a session makes of the calls, and the state that it leaves if there is another one. -/
def SessionKeeps (dbapi : Dbapi) (result : MainState × SessionEnd) : Prop :=
  KeepsOneLogin dbapi result.1.calls ∧
    (result.2 = .disconnected ∨ result.2 = .broken →
      result.1.NoLogin dbapi ∨ ∃ h, result.1.HasLogin dbapi h)

theorem MainState.HasLogin.sessionKeeps {dbapi : Dbapi} {h : Handle}
    {result : MainState × SessionEnd} (hm : result.1.HasLogin dbapi h) :
    SessionKeeps dbapi result := ⟨hm.one.keeps, fun _ => .inr ⟨h, hm⟩⟩

theorem MainState.NoLogin.sessionKeeps {dbapi : Dbapi} {result : MainState × SessionEnd}
    (hm : result.1.NoLogin dbapi) : SessionKeeps dbapi result := ⟨hm.keeps, fun _ => .inl hm⟩

/-- The first login. -/
theorem MainState.NoLogin.serve {dbapi : Dbapi} {m : MainState} (hm : m.NoLogin dbapi)
    (input : MainSession) (pid : Nat) (inBuf : InBuf) (events : List RecvEvent) :
    SessionKeeps dbapi (serveMain input pid m inBuf events) := by
  rcases serveMain_untilRun input pid m inBuf events with
    ⟨-, -, hsame⟩ | ⟨-, -, m', inBuf', events', hsame, hserve⟩
  · exact (hsame.noLogin hm).sessionKeeps
  · have hm' := hsame.noLogin hm
    rw [hserve]
    have hrun := m'.run_effect input
    generalize m'.run input = turn at hrun ⊢
    cases hrun with
    | reuse hconnected =>
      rw [hm'.connected] at hconnected
      cases hconnected
    | login m'' hconnected hlogin hdb hcalls hnow =>
      have hopened : openLogins m''.calls = [input.handle] := by
        rw [hcalls, openLogins_snoc, hm'.opened]
        rfl
      have hone : OneLogin dbapi input.handle m''.calls := by
        refine ⟨hopened, fun h' answer hcheck => ?_, ?_⟩
        · rw [hcalls, lastCheck_snoc] at hcheck
          cases hcheck
        · rw [hcalls]
          refine hm'.keeps.snoc ?_ ?_ ?_
          · rw [← openLogins_snoc, ← hcalls, hopened]
            exact Nat.le_refl 1
          · intro h answer hcheck _ _
            rw [hm'.checked] at hcheck
            cases hcheck
          · intro h answer new hcheck _ _
            rw [hm'.checked] at hcheck
            cases hcheck
      have hexec : (m''.exec input).HasLogin dbapi input.handle :=
        MainState.HasLogin.exec ⟨hdb, hone⟩ input
      have hconn : (m''.exec input).session.connector.connected = true := by
        rw [MainState.exec_connected]
        exact hnow
      exact (serveMain_hasLogin hexec hconn input pid inBuf' events').sessionKeeps
    | refused m'' hconnected hlogin hcalls =>
      refine ⟨?_, by simp [MainTurn.serve]⟩
      show KeepsOneLogin dbapi m''.calls
      rw [hcalls]
      refine hm'.keeps.refused fun h answer hcheck => ?_
      rw [hm'.checked] at hcheck
      cases hcheck

/-- A session after the login, without `connected`: a `RUN` logs in once more. -/
theorem MainState.HasLogin.serve_unconnected {dbapi : Dbapi} {h : Handle} {m : MainState}
    (hm : m.HasLogin dbapi h) (hconnected : m.session.connector.connected = false)
    (input : MainSession) (pid : Nat) (inBuf : InBuf) (events : List RecvEvent) :
    (comesToRun m.session.connector inBuf events = true → input.backend.login ≠ none ∧
        ∀ h' answer, lastCheck m.calls = some (h', answer) → dbapi.alive answer = false) ∧
      SessionKeeps dbapi (serveMain input pid m inBuf events) ∨
    ¬(comesToRun m.session.connector inBuf events = true → input.backend.login ≠ none ∧
        ∀ h' answer, lastCheck m.calls = some (h', answer) → dbapi.alive answer = false) ∧
      ¬KeepsOneLogin dbapi (serveMain input pid m inBuf events).1.calls := by
  rcases serveMain_untilRun input pid m inBuf events with
    ⟨hno, -, hsame⟩ | ⟨hyes, -, m', inBuf', events', hsame, hserve⟩
  · exact .inl ⟨by simp [hno], (hsame.hasLogin hm).sessionKeeps⟩
  · have hm' := hsame.hasLogin hm
    simp only [hyes, true_implies]
    rw [hserve, ← hsame.calls]
    have hrun := m'.run_effect input
    generalize m'.run input = turn at hrun ⊢
    cases hrun with
    | reuse hyet =>
      rw [hsame.connected, hconnected] at hyet
      cases hyet
    | login m'' _ hlogin hdb hcalls hnow =>
      refine .inr ⟨fun hfails => hfails.1 hlogin, fun hkeeps => ?_⟩
      obtain ⟨more, hexec, -⟩ := m''.exec_spec input
      obtain ⟨rest, hrest⟩ := serveMain_calls input pid (m''.exec input) inBuf' events'
      rw [MainTurn.serve, ← hrest, hexec, hcalls] at hkeeps
      exact KeepsOneLogin.not_second hm'.one.opened input.handle hkeeps.left.left
    | refused m'' _ hlogin hcalls =>
      have hresult : KeepsOneLogin dbapi m''.calls ↔ ∀ h' answer,
          lastCheck m'.calls = some (h', answer) → dbapi.alive answer = false := by
        rw [hcalls]
        refine ⟨fun hkeeps h' answer hcheck => ?_, hm'.one.keeps.refused⟩
        have hreuses : ReusesLogin dbapi m'.calls (.connect none) :=
          hkeeps.reuses m'.calls (.connect none) [.error .null, .error .null] rfl
        by_contra halive
        cases hreuses h' answer hcheck (by simpa using halive) rfl
      by_cases hdead : ∀ h' answer, lastCheck m'.calls = some (h', answer) →
          dbapi.alive answer = false
      · exact .inl ⟨⟨hlogin, hdead⟩, hresult.2 hdead, by simp [MainTurn.serve]⟩
      · exact .inr ⟨fun hleaves => hdead hleaves.2, fun hkeeps => hdead (hresult.1 hkeeps)⟩

/-- A session keeps the login exactly if it leaves it. -/
theorem serveMain_keeps_iff {dbapi : Dbapi} {m : MainState}
    (hm : m.NoLogin dbapi ∨ ∃ h, m.HasLogin dbapi h) (input : MainSession) (pid : Nat) :
    LeavesLogin dbapi m input ∧
      SessionKeeps dbapi (serveMain input pid { m with session := m.session.connector.newSession }
        {} input.events) ∨
    ¬LeavesLogin dbapi m input ∧
      ¬KeepsOneLogin dbapi (serveMain input pid
        { m with session := m.session.connector.newSession } {} input.events).1.calls := by
  have hsame : m.SameHandle { m with session := m.session.connector.newSession } :=
    ⟨rfl, rfl, rfl⟩
  rcases hm with hm | ⟨h, hm⟩
  · refine .inl ⟨fun h hdb => ?_, (hsame.noLogin hm).serve input pid {} input.events⟩
    rw [hm.db] at hdb
    cases hdb
  · have hstart := hsame.hasLogin hm
    cases hconnected : m.session.connector.connected with
    | true =>
      refine .inl ⟨fun h' _ hnot => ?_, ?_⟩
      · rw [hconnected] at hnot
        cases hnot
      · exact (serveMain_hasLogin hstart hconnected input pid {} input.events).sessionKeeps
    | false =>
      have hleaves : LeavesLogin dbapi m input ↔
          (comesToRun m.session.connector.newSession.connector {} input.events = true →
            input.backend.login ≠ none ∧ ∀ h' answer,
              lastCheck m.calls = some (h', answer) → dbapi.alive answer = false) :=
        ⟨fun hleaves => hleaves h hm.db hconnected, fun hrun h' _ _ => hrun⟩
      rw [hleaves]
      exact hstart.serve_unconnected hconnected input pid {} input.events

/-- The end of a session that kept the login. -/
theorem SessionKeeps.takeSession {dbapi : Dbapi} {pid : Nat} {m : MainState}
    {input : MainSession} (hserve : SessionKeeps dbapi (serveMain input pid
      { m with session := m.session.connector.newSession } {} input.events)) :
    KeepsOneLogin dbapi (takeSession pid m input).state.calls ∧
      ∀ m', takeSession pid m input = .continues m' → ∃ h, m'.HasLogin dbapi h := by
  have hended : ∀ m' : MainState, (m'.NoLogin dbapi ∨ ∃ h, m'.HasLogin dbapi h) →
      KeepsOneLogin dbapi (m'.endSession input.alive).state.calls ∧
        ∀ m'', m'.endSession input.alive = .continues m'' → ∃ h, m''.HasLogin dbapi h := by
    intro m' hm'
    rcases hm' with hm' | ⟨h, hm'⟩
    · obtain ⟨m'', hstops, hkeeps⟩ := hm'.endSession input.alive
      rw [hstops]
      exact ⟨hkeeps, fun m'' heq => by cases heq⟩
    · obtain ⟨m'', hcontinues, hm''⟩ := hm'.endSession input.alive
      rw [hcontinues]
      refine ⟨hm''.one.keeps, fun m₂ heq => ?_⟩
      cases heq
      exact ⟨h, hm''⟩
  rw [DbRelay.takeSession]
  generalize serveMain input pid { m with session := m.session.connector.newSession } {}
    input.events = result at hserve ⊢
  rcases result with ⟨m', how⟩
  cases how with
  | waiting | exited | undefined => exact ⟨hserve.1, fun m'' heq => by cases heq⟩
  | disconnected => exact hended m' (hserve.2 (.inl rfl))
  | broken => exact hended m' (hserve.2 (.inr rfl))

theorem mainLoop_keeps_iff {dbapi : Dbapi} (pid : Nat) (inputs : List MainSession)
    {m : MainState} (hm : m.NoLogin dbapi ∨ ∃ h, m.HasLogin dbapi h) :
    KeepsOneLogin dbapi (mainLoop pid m inputs).calls ↔
      StepSystem.AllEvents (sessionStep pid) (LeavesLogin dbapi) m inputs := by
  induction inputs generalizing m with
  | nil =>
    refine iff_of_true ?_ trivial
    rcases hm with hm | ⟨h, hm⟩
    · exact hm.keeps
    · exact hm.one.keeps
  | cons input inputs ih =>
    rcases serveMain_keeps_iff hm input pid with ⟨hleaves, hserve⟩ | ⟨hleaves, hnot⟩
    · obtain ⟨hkeeps, hnext⟩ := hserve.takeSession
      rw [StepSystem.AllEvents, and_iff_right hleaves, mainLoop_cons, sessionStep]
      cases hturn : takeSession pid m input with
      | stops m' how =>
        rw [hturn] at hkeeps
        exact iff_of_true hkeeps fun m'' hm'' => by cases hm''
      | continues m' =>
        simp only [Option.some.injEq, forall_eq']
        exact ih (.inr (hnext m' hturn))
    · refine iff_of_false (fun hkeeps => hnot ?_) fun hevents => hleaves hevents.1
      obtain ⟨more, hmore⟩ := (takeSession_calls pid m input).trans
        (takeSession_calls_mainLoop pid m input inputs)
      rw [← hmore] at hkeeps
      exact hkeeps.left

/-- The connector keeps one login exactly if no session that starts with a handle and without
`connected` comes to a `RUN`. -/
theorem keepsOneLogin_iff (dbapi : Dbapi) (pid : Nat) (sessions : List DbSession) :
    KeepsOneLogin dbapi (mainLoop pid {} (sessions.map (·.toMain dbapi))).calls ↔
      StepSystem.AllEvents (sessionStep pid) (LeavesLogin dbapi) {}
        (sessions.map (·.toMain dbapi)) :=
  mainLoop_keeps_iff pid _ (.inl ⟨rfl, rfl, rfl, rfl, .nil⟩)

/-- A client that runs a query and closes its socket. -/
def runSession (handle : Handle) (probe : Int) : DbSession where
  backend := { login := none, exec := fun _ _ => .results (ascii "[]") }
  handle := handle
  probe := probe
  events :=
    [.data ⟨ascii ":SQL BEGIN\nselect 1\n:SQL END\n:RUN\n", by decide, by decide⟩, .closed]

/-- The connection to `mysql` stays alive, and the one to `mssql` dies after the first query. -/
theorem not_keepsOneLogin_secondLogin :
    ¬KeepsOneLogin .mysql
        (mainLoop 1 {} ([runSession 1 0, runSession 2 0].map (·.toMain .mysql))).calls ∧
      ¬KeepsOneLogin .mssql
        (mainLoop 1 {} ([runSession 1 1, runSession 2 0].map (·.toMain .mssql))).calls := by
  have hmysql : openLogins
      (mainLoop 1 {} ([runSession 1 0, runSession 2 0].map (·.toMain .mysql))).calls = [1, 2] := by
    decide +kernel
  have hmssql : openLogins
      (mainLoop 1 {} ([runSession 1 1, runSession 2 0].map (·.toMain .mssql))).calls = [1, 2] := by
    decide +kernel
  constructor
  · intro h
    have hone := h.atMostOne _ (List.prefix_refl _)
    rw [hmysql] at hone
    cases hone with
    | step hle => cases hle
  · intro h
    have hone := h.atMostOne _ (List.prefix_refl _)
    rw [hmssql] at hone
    cases hone with
    | step hle => cases hle

end DbRelay
