import DbRelay.Wire.Socket
import DbRelay.Lib.Decimal

/-!
# The connector

`connector.c` reads commands line by line, keeps the settings of a request in
a global record, and runs the SQL that it collected.

`processLine` is `process_line`.  It returns the command on which it acts, and
nothing for a line of an SQL body.  The value that the source returns is
`Command.ret`.  It is `none` where the source reads or frees what it may not:
an array that was never filled, a string buffer that is not open, or an argument
of `log_msg` that was not passed.

`serve` is the loop over one session.  Next to the connector's memory it keeps
a trace, the commands in order with the global request as it was after each of
them, and the bytes that were sent.  `serve_delivers` replaces the socket by
the canonical cut of the stream: it equals `serveLines` on the pieces.
-/

namespace DbRelay

open Framing Decimal

/-! ## Commands -/

/-- The settings that `process_line` knows. -/
inductive Setting
  | name | port | server | database | user | password | appname | timeout | flags
  deriving DecidableEq, Repr

/-- In the order in which `process_line` tries them. -/
def settings : List Setting :=
  [.name, .port, .server, .database, .user, .password, .appname, .timeout, .flags]

def Setting.command : Setting → List UInt8
  | .name => ascii "SET NAME"
  | .port => ascii "SET PORT"
  | .server => ascii "SET SERVER"
  | .database => ascii "SET DATABASE"
  | .user => ascii "SET USER"
  | .password => ascii "SET PASSWORD"
  | .appname => ascii "SET APPNAME"
  | .timeout => ascii "SET TIMEOUT"
  | .flags => ascii "SET FLAGS"

/-- The values that `process_line` returns. -/
inductive Ret
  | ok | quit | err | die | run | cont | helo
  deriving DecidableEq, Repr

/-- What `process_line` acts on. -/
inductive Command
  | helo
  | quit
  | run
  | die
  /-- A setting and the content of its buffer afterwards. -/
  | set (setting : Setting) (value : List UInt8)
  | sqlBegin
  /-- The end of an SQL body, with the body. -/
  | sqlEnd (body : List UInt8)
  | err
  deriving DecidableEq, Repr

def Command.ret : Command → Ret
  | .helo => .helo
  | .quit => .quit
  | .run => .run
  | .die => .die
  | .set _ _ => .ok
  | .sqlBegin => .cont
  | .sqlEnd _ => .ok
  | .err => .err

/-! ## The memory of the connector -/

/-- `sb_sql`. -/
inductive SqlBuffer
  | null
  | opened (body : List UInt8)
  | freed
  deriving DecidableEq, Repr

/-- The size of `timeout_str` and `flag_str`. -/
def numberSz : Nat := 10

/-- The size of `arg`. -/
def argSz : Nat := 100

instance : NeZero numberSz := ⟨by decide⟩
instance : NeZero argSz := ⟨by decide⟩

structure Connector where
  request : Request := {}
  timeoutStr : CharBuf numberSz := .empty
  receiveSql : Bool := false
  sbSql : SqlBuffer := .null
  connected : Bool := false
  deriving DecidableEq, Repr

/-- `check_command`, the comparison. -/
def checkCommand (line command : List UInt8) : Bool :=
  decide (command.length + 1 ≤ line.length) &&
    decide ((line.drop 1).take command.length = command)

/-- `check_command`, the part of the line that is copied, if any. -/
def commandValue (line command : List UInt8) : Option (List UInt8) :=
  if command.length + 1 < line.length then some (line.drop (command.length + 2)) else none

/-- `dbrelay_copy_string` into a buffer. -/
def copyString {size : Nat} [NeZero size] (src : List UInt8) : CharBuf size :=
  .ofCString (.ofBytes src)

/-- The branches of `process_line` for the settings: `value` is what
`check_command` copies.  Without a value the buffers of the request stay as
they are, and `flag_str` was never filled. -/
def Connector.store (c : Connector) (value : Option (List UInt8)) :
    Setting → Option (Connector × List UInt8)
  -- `log_msg("connection name %s\n")` has no argument for its conversion.
  | .name => none
  | .appname =>
    let buf := value.elim c.request.connectionName copyString
    some ({ c with request := { c.request with connectionName := buf } }, buf.bytes)
  | .port =>
    let buf := value.elim c.request.sqlPort copyString
    some ({ c with request := { c.request with sqlPort := buf } }, buf.bytes)
  | .server =>
    let buf := value.elim c.request.sqlServer copyString
    some ({ c with request := { c.request with sqlServer := buf } }, buf.bytes)
  | .database =>
    let buf := value.elim c.request.sqlDatabase copyString
    some ({ c with request := { c.request with sqlDatabase := buf } }, buf.bytes)
  | .user =>
    let buf := value.elim c.request.sqlUser copyString
    some ({ c with request := { c.request with sqlUser := buf } }, buf.bytes)
  | .password =>
    let buf := value.elim c.request.sqlPassword copyString
    some ({ c with request := { c.request with sqlPassword := buf } }, buf.bytes)
  | .timeout =>
    let buf := value.elim c.timeoutStr copyString
    some ({ c with
      timeoutStr := buf
      request :=
        { c.request with connectionTimeout := Int64.ofInt (atol buf.bytes) } }, buf.bytes)
  | .flags =>
    value.map fun src =>
      let buf : CharBuf numberSz := copyString src
      ({ c with request := { c.request with flags := UInt64.ofInt (atol buf.bytes) } },
        buf.bytes)

/-- The branch of `process_line` for `SQL`, with what is copied into `arg`. -/
def Connector.sqlCommand (c : Connector) (value : Option (List UInt8)) :
    Option (Connector × Option Command) :=
  match value with
  | none => none
  | some src =>
    let arg : CharBuf argSz := copyString src
    if arg.bytes = ascii "BEGIN" then
      some ({ c with
        receiveSql := true
        request := { c.request with sql := none }
        sbSql := .opened [] }, some .sqlBegin)
    else if arg.bytes = ascii "END" then
      match c.sbSql with
      | .opened body =>
        some ({ c with
          receiveSql := false
          request := { c.request with sql := some (.ofBytes body) }
          sbSql := .freed }, some (.sqlEnd body))
      | _ => none
    else some (c, some .err)

/-- A format that asks for no argument: each `%` begins a `%%`. -/
def formatDefined : List UInt8 → Bool
  | [] => true
  | b :: bytes =>
    if b = 37 then
      match bytes with
      | [] => false
      | b :: bytes => decide (b = 37) && formatDefined bytes
    else formatDefined bytes

/-- The test of `process_line` for a line of an SQL body. -/
def bodyLine (line : List UInt8) : Bool :=
  decide (line.length < 8) || decide (line.take 8 ≠ ascii ":SQL END")

/-- `process_line` after the test for a body line. -/
def Connector.processCommand (c : Connector) (line : List UInt8) :
    Option (Connector × Option Command) :=
  -- `line[strlen(line)-1]` of an empty line is before the array.
  if line = [] then none
  else
    let line := if line.getLast? = some newline then line.dropLast else line
    if line.head? ≠ some 58 then
      -- `log_msg(line)` takes the line for its format.
      if formatDefined line then some (c, some .err) else none
    else if checkCommand line (ascii "HELO") then some (c, some .helo)
    else if checkCommand line (ascii "QUIT") then some (c, some .quit)
    else if checkCommand line (ascii "RUN") then some (c, some .run)
    else if checkCommand line (ascii "DIE") then some (c, some .die)
    else
      match settings.find? fun setting => checkCommand line setting.command with
      | some setting =>
        (c.store (commandValue line setting.command) setting).map fun (c, value) =>
          (c, some (.set setting value))
      | none =>
        if checkCommand line (ascii "SQL") then
          c.sqlCommand (commandValue line (ascii "SQL"))
        else some (c, some .err)

/-- `process_line`. -/
def Connector.processLine (c : Connector) (line : List UInt8) :
    Option (Connector × Option Command) :=
  if c.receiveSql && bodyLine line then
    match c.sbSql with
    | .opened body => some ({ c with sbSql := .opened (body ++ line) }, none)
    | _ => none
  else c.processCommand line

/-! ## A session -/

/-- The answer of `dbrelay_exec_query`, with the text of `api->error` when it
is `NULL`. -/
inductive RunOutcome
  | results (text : List UInt8)
  | failed (error : List UInt8)
  deriving DecidableEq, Repr

/-- What the database answers in a session: the error of `api->connect`, if it
fails, and the outcome of each run.  The error is the text of
`api->error(NULL)`, in which `mysql` and `odbc` crash; the process ends at a
failed login either way. -/
structure Backend where
  login : Option (List UInt8)
  exec : Nat → Request → RunOutcome

/-- The reply to a run. -/
def runReply : RunOutcome → List UInt8
  | .results text =>
    ascii ":RESULTS BEGIN\n" ++ text ++ ascii "\n" ++ ascii ":RESULTS END\n" ++ ascii ":OK\n"
  | .failed error =>
    ascii ":ERROR BEGIN\n" ++ error ++ ascii "\n" ++ ascii ":ERROR END\n" ++ ascii ":OK\n"

/-- The memory of the connector, and what happened in the session so far. -/
structure Session where
  connector : Connector
  trace : List (Command × Request) := []
  sent : List UInt8 := []
  deriving DecidableEq, Repr

/-- The start of a session: `receive_sql` was reset at the end of the last
one. -/
def Connector.newSession (c : Connector) : Session :=
  { connector := { c with receiveSql := false } }

/-- How the loop over a session ends. -/
inductive SessionEnd
  /-- It does not: it waits for another line. -/
  | waiting
  /-- After `:QUIT`. -/
  | disconnected
  /-- The socket is closed, or failed. -/
  | broken
  /-- The process exits, after `:DIE` or a failed login. -/
  | exited
  /-- The source has no defined behaviour. -/
  | undefined
  deriving DecidableEq, Repr

/-- One turn of the loop: it goes on, or it ends. -/
inductive Turn
  | continues (s : Session)
  | stops (s : Session) (how : SessionEnd)
  deriving DecidableEq, Repr

def Session.send (s : Session) (str : List UInt8) : Session :=
  { s with sent := s.sent ++ str }

/-- The branch of `main` for `RUN`. -/
def Session.run (s : Session) (backend : Backend) : Turn :=
  match (if s.connector.connected then none else backend.login) with
  | some error =>
    .stops (s.send (runReply (.failed error))) .exited
  | none =>
    let s := { s with connector := { s.connector with connected := true } }
    .continues (s.send (runReply (backend.exec s.trace.length s.connector.request)))

/-- The branches of `main` for the values that `process_line` returns. -/
def Session.respond (s : Session) (backend : Backend) (pid : Nat) : Ret → Turn
  | .helo => .continues (s.send (ascii ":PID " ++ decimal pid ++ ascii "\n"))
  | .quit => .stops (s.send (ascii ":BYE\n")) .disconnected
  | .run => s.run backend
  | .die => .stops (s.send (ascii ":BYE\n")) .exited
  | .ok => .continues (s.send (ascii ":OK\n"))
  | .cont => .continues s
  | .err => .continues (s.send (ascii ":ERR\n"))

/-- The loop body of `main` for one line. -/
def Session.takeLine (s : Session) (backend : Backend) (pid : Nat) (line : List UInt8) : Turn :=
  match s.connector.processLine line with
  | none => .stops s .undefined
  | some (c, none) => .continues { s with connector := c }
  | some (c, some command) =>
    { s with connector := c, trace := s.trace ++ [(command, c.request)] }.respond
      backend pid command.ret

/-- The loop of `main` over one session. -/
def serve (backend : Backend) (pid : Nat) (s : Session) (inBuf : InBuf)
    (events : List RecvEvent) : Session × SessionEnd :=
  match _h : recvString inBuf events with
  | .waiting => (s, .waiting)
  | .returned .closed _ _ => (s, .broken)
  | .returned .failed _ _ => (s, .broken)
  | .returned (.line line) inBuf' events' =>
    match s.takeLine backend pid line with
    | .stops s how => (s, how)
    | .continues s => serve backend pid s inBuf' events'
termination_by recvWeight inBuf events
decreasing_by exact recvString_weight ‹_›

/-- The same loop over lines that are given. -/
def serveLines (backend : Backend) (pid : Nat) (s : Session) :
    List (List UInt8) → Session × SessionEnd
  | [] => (s, .waiting)
  | line :: lines =>
    match s.takeLine backend pid line with
    | .stops s how => (s, how)
    | .continues s => serveLines backend pid s lines

/-- The commands of a session, in order. -/
def Session.commands (s : Session) : List Command := s.trace.map Prod.fst

/-! ## What a line changes -/

/-- Only a setting and `SQL` change the connector. -/
theorem Connector.processCommand_cases {c c' : Connector} {line : List UInt8}
    {command : Option Command} (h : c.processCommand line = some (c', command)) :
    c' = c ∨ (∃ value setting text, c.store value setting = some (c', text)) ∨
      ∃ value, c.sqlCommand value = some (c', command) := by
  have hsame : ∀ {x : Option Command}, some (c, x) = some (c', command) → c' = c := by
    intro x heq
    exact (Prod.mk.inj (Option.some.inj heq)).1.symm
  unfold Connector.processCommand at h
  split at h
  · cases h
  · simp only at h
    generalize (if line.getLast? = some newline then line.dropLast else line) = trimmed at h
    cases hfind : settings.find? fun setting => checkCommand trimmed setting.command with
    | some setting =>
      simp only [hfind] at h
      split_ifs at h
      · exact .inl (hsame h)
      · exact .inl (hsame h)
      · exact .inl (hsame h)
      · exact .inl (hsame h)
      · exact .inl (hsame h)
      · obtain ⟨⟨stored, text⟩, hstore, heq⟩ := Option.map_eq_some_iff.1 h
        obtain ⟨rfl, -⟩ := Prod.mk.inj heq
        exact .inr (.inl ⟨_, setting, text, hstore⟩)
    | none =>
      simp only [hfind] at h
      split_ifs at h
      · exact .inl (hsame h)
      · exact .inl (hsame h)
      · exact .inl (hsame h)
      · exact .inl (hsame h)
      · exact .inl (hsame h)
      · exact .inr (.inr ⟨_, h⟩)
      · exact .inl (hsame h)

/-- A line of a body is collected, and any other one is a command. -/
theorem Connector.processLine_cases {c c' : Connector} {line : List UInt8}
    {command : Option Command} (h : c.processLine line = some (c', command)) :
    (bodyLine line = true ∧ ∃ body, c.sbSql = .opened body ∧
      c' = { c with sbSql := .opened (body ++ line) }) ∨
    c.processCommand line = some (c', command) := by
  unfold Connector.processLine at h
  split at h
  · rename_i hbody
    rw [Bool.and_eq_true] at hbody
    split at h
    · rename_i body hbuffer
      exact .inl ⟨hbody.2, body, hbuffer, (Prod.mk.inj (Option.some.inj h)).1.symm⟩
    · cases h
  · exact .inr h

theorem Connector.store_connected {c c' : Connector} {value : Option (List UInt8)}
    {setting : Setting} {text : List UInt8} (h : c.store value setting = some (c', text)) :
    c'.connected = c.connected := by
  cases setting with
  | name => cases h
  | flags =>
    obtain ⟨src, -, heq⟩ := Option.map_eq_some_iff.1 h
    obtain ⟨rfl, -⟩ := Prod.mk.inj heq
    rfl
  | _ =>
    obtain ⟨rfl, -⟩ := Prod.mk.inj (Option.some.inj h)
    rfl

theorem Connector.sqlCommand_connected {c c' : Connector} {value : Option (List UInt8)}
    {command : Option Command} (h : c.sqlCommand value = some (c', command)) :
    c'.connected = c.connected := by
  unfold Connector.sqlCommand at h
  cases value with
  | none => cases h
  | some src =>
    simp only at h
    split at h
    · obtain ⟨rfl, -⟩ := Prod.mk.inj (Option.some.inj h)
      rfl
    · split at h
      · split at h
        · obtain ⟨rfl, -⟩ := Prod.mk.inj (Option.some.inj h)
          rfl
        · cases h
      · obtain ⟨rfl, -⟩ := Prod.mk.inj (Option.some.inj h)
        rfl

/-- Only the branch for `RUN` sets `connected`. -/
theorem Connector.processLine_connected {c c' : Connector} {line : List UInt8}
    {command : Option Command} (h : c.processLine line = some (c', command)) :
    c'.connected = c.connected := by
  rcases c.processLine_cases h with ⟨-, body, -, rfl⟩ | h
  · rfl
  · rcases c.processCommand_cases h with rfl | ⟨value, setting, text, hstore⟩ | ⟨value, hsql⟩
    · rfl
    · exact store_connected hstore
    · exact sqlCommand_connected hsql

/-! ## The socket and the cut -/

theorem serve_eq (backend : Backend) (pid : Nat) (s : Session) (inBuf : InBuf)
    (events : List RecvEvent) :
    serve backend pid s inBuf events =
      match recvString inBuf events with
      | .waiting => (s, .waiting)
      | .returned .closed _ _ => (s, .broken)
      | .returned .failed _ _ => (s, .broken)
      | .returned (.line line) inBuf' events' =>
        match s.takeLine backend pid line with
        | .stops s how => (s, how)
        | .continues s => serve backend pid s inBuf' events' := by
  rw [serve]
  split <;> rename_i h <;> rw [h]

/-- However a stream arrives, a session is the one over its pieces. -/
theorem serve_delivers (backend : Backend) (pid : Nat) {events : List RecvEvent}
    {bytes : List UInt8} (hev : Delivers events bytes) (hnul : 0 ∉ bytes)
    (s : Session) (inBuf : InBuf) :
    serve backend pid s inBuf events =
      serveLines backend pid s (cut newline pieceSize [] (inBuf.pending ++ bytes)).1 := by
  induction hn : (inBuf.pending ++ bytes).length using Nat.strong_induction_on
    generalizing s inBuf events bytes with
  | _ n ih =>
    rw [serve_eq]
    cases hpiece : firstPiece newline pieceSize [] (inBuf.pending ++ bytes) with
    | none =>
      obtain ⟨buf, hrecv⟩ := recvString_none hev hnul [] hpiece
      rw [List.append_nil, recvFetch] at hrecv
      rw [cut_of_firstPiece_none hpiece, serveLines, hrecv]
    | some pr =>
      obtain ⟨p, r⟩ := pr
      obtain ⟨inBuf', events', rest, hrecv, hev', hnul', hrest⟩ :=
        recvString_line hev hnul [] hpiece
      rw [List.append_nil, List.append_nil] at hrecv
      rw [cut_of_firstPiece_some hpiece, serveLines, hrecv]
      simp only
      cases s.takeLine backend pid p with
      | stops s how => rfl
      | continues s =>
        have hlen := firstPiece_length hpiece
        simp only
        rw [ih _ (by rw [← hn, hrest]; exact hlen) hev' hnul' s inBuf' rfl, hrest]

end DbRelay
