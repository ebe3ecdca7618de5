import DbRelay.Lib.StepSystem
import DbRelay.Wire.Settings

/-!
# The SQL mode of the connector

`process_line` collects an SQL body in `sb_sql` between `SQL BEGIN` and `SQL END`, and moves it
to `request.sql`.  Both, and `receive_sql`, are globals that outlive a session.

* `Connector.sqlAccesses` are the accesses to `sb_sql` and to `arg`.
* `SqlModeSound` says which of them, and which `RUN`s, are sound.  A line that `process_line`
  cannot take at all is not.
* `LineDefined` are the lines whose log messages and buffers are there.
* `Client` is the order of lines that a client has to keep, without the memory of the connector.
* `sqlModeSound_iff`: the mode is sound along a run exactly if the lines of the clients are in
  that order.
-/

namespace DbRelay

open Framing StepSystem

/-! ## The accesses -/

/-- The accesses of `process_line` to `sb_sql` and to `arg`. -/
inductive SqlAccess
  /-- `sb_append(sb_sql, line)`. -/
  | append (buffer : SqlBuffer)
  /-- `sb_to_char(sb_sql)` and `sb_free(sb_sql)`. -/
  | finish (buffer : SqlBuffer)
  /-- `strcmp(arg, ...)`. -/
  | readArg (filled : Bool)
  deriving DecidableEq, Repr

def SqlBuffer.isOpen : SqlBuffer → Bool
  | .opened _ => true
  | _ => false

def SqlAccess.Sound : SqlAccess → Prop
  | .append buffer => buffer.isOpen = true
  | .finish buffer => buffer.isOpen = true
  | .readArg filled => filled = true

/-- The branch of `process_line` for `SQL` is taken. -/
def isSqlCommand (line : List UInt8) : Bool :=
  let line := trimLine line
  decide (line.head? = some 58) && !checkCommand line (ascii "HELO") &&
    !checkCommand line (ascii "QUIT") && !checkCommand line (ascii "RUN") &&
    !checkCommand line (ascii "DIE") &&
    (settings.find? fun setting => checkCommand line setting.command).isNone &&
    checkCommand line (ascii "SQL")

/-- The accesses of `process_line`, in their order. -/
def Connector.sqlAccesses (c : Connector) (line : List UInt8) : List SqlAccess :=
  if c.receiveSql && bodyLine line then [.append c.sbSql]
  else if isSqlCommand line then
    match commandValue (trimLine line) (ascii "SQL") with
    | none => [.readArg false]
    | some src =>
      let arg : CharBuf argSz := copyString src
      if arg.bytes = ascii "BEGIN" then [.readArg true]
      else if arg.bytes = ascii "END" then [.readArg true, .readArg true, .finish c.sbSql]
      else [.readArg true, .readArg true]
  else []

/-- The body that `SQL END` completed in a session and no `SQL BEGIN` dropped. -/
def lastSql (commands : List Command) : Option (List UInt8) :=
  commands.foldl (fun last command => match command with
    | .sqlBegin => none
    | .sqlEnd body => some body
    | _ => last) none

theorem lastSql_snoc (commands : List Command) (command : Command) :
    lastSql (commands ++ [command]) = match command with
      | .sqlBegin => none
      | .sqlEnd body => some body
      | _ => lastSql commands := by
  rw [lastSql, List.foldl_append]
  rfl

/-! ## The run -/

/-- The order in which a client sends the lines about SQL. -/
structure Client where
  /-- There was an `SQL BEGIN`, maybe of an earlier session, and no `SQL END` since. -/
  begun : Bool := false
  /-- So it is in this session. -/
  inBody : Bool := false
  /-- There was an `SQL END` in this session, and no `SQL BEGIN` since. -/
  complete : Bool := false
  deriving DecidableEq, Repr

/-- The word after `:SQL`, as far as it is looked at. -/
def sqlWord (line : List UInt8) : List UInt8 :=
  (copyString ((trimLine line).drop 5) : CharBuf argSz).bytes

/-- What `process_line` reads for a command is there: a byte of the line, the arguments of
what it logs, and the string for the flags. -/
structure LineDefined (line : List UInt8) : Prop where
  nonempty : line ≠ []
  format : (trimLine line).head? ≠ some 58 → formatDefined (trimLine line) = true
  name : ¬ascii ":SET NAME" <+: trimLine line
  flags : trimLine line ≠ ascii ":SET FLAGS"

namespace Client

/-- A line that `process_line` takes for a command about SQL. -/
def isCommand (client : Client) (line : List UInt8) : Bool :=
  !(client.inBody && bodyLine line) && decide (ascii ":SQL" <+: trimLine line)

/-- What was sent after a line. -/
def next (client : Client) (line : List UInt8) : Client :=
  if client.isCommand line then
    if sqlWord line = ascii "BEGIN" then { begun := true, inBody := true, complete := false }
    else if sqlWord line = ascii "END" then { begun := false, inBody := false, complete := true }
    else client
  else client

def endSession (client : Client) : Client :=
  { client with inBody := false, complete := false }

/-- A line is in order: `SQL` has a word, `SQL END` ends a body, and a `RUN` that is executed
has a body.  What is not a part of a body is a line that can be taken. -/
structure Allows (client : Client) (executes : Bool) (line : List UInt8) : Prop where
  sql : client.isCommand line = true → trimLine line ≠ ascii ":SQL" ∧
    (sqlWord line = ascii "END" → client.begun = true)
  run : ascii ":RUN" <+: trimLine line → (client.inBody && bodyLine line) = false →
    executes = true → client.complete = true
  taken : (client.inBody && bodyLine line) = false → LineDefined line

end Client

/-- The connector in a session, and what its clients sent. -/
structure Served where
  session : Session := { connector := {} }
  /-- The client said `:QUIT`. -/
  left : Bool := false
  client : Client := {}
  deriving DecidableEq, Repr

/-- A line, with what the database answers to it, or the end of a session. -/
inductive ServedEvent
  | line (backend : Backend) (line : List UInt8)
  | sessionEnd (alive : Bool)

/-- One step of `main`. -/
def Served.step (pid : Nat) (s : Served) : ServedEvent → Option Served
  | .line backend line =>
    if s.left then none
    else
      match s.session.takeLine backend pid line with
      | .continues session => some { session := session, client := s.client.next line }
      | .stops session .disconnected =>
        some { session := session, left := true, client := s.client.next line }
      | .stops _ _ => none
  | .sessionEnd alive =>
    some
      { session := (s.session.connector.endSession alive).newSession
        client := s.client.endSession }

/-- A `RUN` comes to `dbrelay_exec_query`: there is a login, or a new one succeeds. -/
def executesRun (c : Connector) (backend : Backend) : Bool :=
  c.connected || decide (backend.login = none)

/-- The accesses of a line are sound, a `RUN` that is executed has the SQL that was completed
in its session, and `process_line` reads nothing else that is not there. -/
structure LineSound (s : Session) (backend : Backend) (line : List UInt8) : Prop where
  accesses : ∀ access ∈ s.connector.sqlAccesses line, access.Sound
  run : ∀ c, s.connector.processLine line = some (c, some .run) → executesRun c backend = true →
    ∃ body, lastSql s.commands = some body ∧ c.request.sql = some (.ofBytes body)
  taken : s.connector.processLine line ≠ none

def SqlModeSound (s : Served) : ServedEvent → Prop
  | .line backend line => s.left = false → LineSound s.session backend line
  | .sessionEnd _ => True

/-- The line of the client is in order. -/
def InOrder (s : Served) : ServedEvent → Prop
  | .line backend line => s.left = false →
    s.client.Allows (executesRun s.session.connector backend) line
  | .sessionEnd _ => True

/-! ## Lines -/

theorem trimLine_nil : trimLine [] = [] := rfl

/-- A line that starts with a colon and a command. -/
theorem prefix_of_checkCommand {line command : List UInt8} (hhead : line.head? = some 58)
    (h : checkCommand line command = true) : 58 :: command <+: line := by
  cases line with
  | nil => cases hhead
  | cons b rest =>
    rw [checkCommand_cons, List.isPrefixOf_iff_prefix] at h
    rw [Option.some.inj hhead]
    exact (List.prefix_cons_inj 58).2 h

/-- Only lines that start with `:SQL` come to the branch for `SQL`. -/
theorem isSqlCommand_iff (line : List UInt8) :
    isSqlCommand line = true ↔ ascii ":SQL" <+: trimLine line := by
  constructor
  · intro h
    simp only [isSqlCommand, Bool.and_eq_true, decide_eq_true_eq] at h
    obtain ⟨-, hsql⟩ := id h
    obtain ⟨⟨⟨⟨⟨⟨hhead, -⟩, -⟩, -⟩, -⟩, -⟩, -⟩ := h
    exact prefix_of_checkCommand hhead hsql
  · intro hgiven
    obtain ⟨rest, hline⟩ := hgiven
    rw [isSqlCommand, ← hline]
    have hcons : ascii ":SQL" ++ rest = 58 :: (ascii "SQL" ++ rest) := rfl
    rw [hcons]
    simp only [checkCommand_cons]
    rfl

/-- A line for `SQL`. -/
theorem processCommand_of_sql (c : Connector) {line : List UInt8}
    (hline : ascii ":SQL" <+: trimLine line) :
    c.processCommand line = c.sqlCommand (commandValue (trimLine line) (ascii "SQL")) := by
  have hsql := (isSqlCommand_iff line).2 hline
  have hne : line ≠ [] := by
    rintro rfl
    have := hline.length_le
    rw [trimLine_nil] at this
    exact absurd this (by decide)
  simp only [isSqlCommand, Bool.and_eq_true, Bool.not_eq_true', Option.isNone_iff_eq_none,
    decide_eq_true_eq] at hsql
  obtain ⟨⟨⟨⟨⟨⟨hhead, hhelo⟩, hquit⟩, hrun⟩, hdie⟩, hsettings⟩, hcheck⟩ := hsql
  unfold Connector.processCommand
  rw [if_neg hne]
  rw [trimLine] at hhead hhelo hquit hrun hdie hsettings hcheck ⊢
  simp only [hhead, hhelo, hquit, hrun, hdie, hsettings, hcheck]
  simp

/-- What is copied into `arg`. -/
theorem commandValue_sql {line : List UInt8} (hline : ascii ":SQL" <+: trimLine line) :
    commandValue (trimLine line) (ascii "SQL") =
      if trimLine line = ascii ":SQL" then none else some ((trimLine line).drop 5) := by
  obtain ⟨rest, hrest⟩ := hline
  rw [← hrest, commandValue]
  cases rest with
  | nil => rfl
  | cons b rest =>
    rw [if_pos (by simp [ascii]), if_neg (by simp)]
    rfl

/-- A line for `RUN`. -/
theorem processCommand_run (c : Connector) {line : List UInt8}
    (hline : ascii ":RUN" <+: trimLine line) : c.processCommand line = some (c, some .run) := by
  have hne : line ≠ [] := by
    rintro rfl
    have := hline.length_le
    rw [trimLine_nil] at this
    exact absurd this (by decide)
  obtain ⟨rest, hrest⟩ := hline
  have hcons : ascii ":RUN" ++ rest = 58 :: (ascii "RUN" ++ rest) := rfl
  unfold Connector.processCommand
  rw [if_neg hne]
  rw [trimLine] at hrest
  rw [← hrest, hcons]
  simp only [checkCommand_cons]
  rfl

/-- What other lines leave alone. -/
structure Connector.SameSql (c c' : Connector) : Prop where
  receiveSql : c'.receiveSql = c.receiveSql
  sbSql : c'.sbSql = c.sbSql
  sql : c'.request.sql = c.request.sql

theorem Connector.SameSql.refl (c : Connector) : c.SameSql c := ⟨rfl, rfl, rfl⟩

theorem Connector.store_sameSql {c c' : Connector} {value : Option (List UInt8)}
    {setting : Setting} {text : List UInt8} (h : c.store value setting = some (c', text)) :
    c.SameSql c' := by
  cases setting with
  | name => cases h
  | flags =>
    obtain ⟨src, -, heq⟩ := Option.map_eq_some_iff.1 h
    obtain ⟨rfl, -⟩ := Prod.mk.inj heq
    exact ⟨rfl, rfl, rfl⟩
  | _ =>
    obtain ⟨rfl, -⟩ := Prod.mk.inj (Option.some.inj h)
    exact ⟨rfl, rfl, rfl⟩

/-- A command that is not for `SQL`. -/
theorem processCommand_other {c c' : Connector} {line : List UInt8} {command : Option Command}
    (hsql : ¬ascii ":SQL" <+: trimLine line) (h : c.processCommand line = some (c', command)) :
    c.SameSql c' ∧ ∃ done, command = some done ∧ (∀ body, done ≠ .sqlEnd body) ∧
      done ≠ .sqlBegin ∧ (done = .run → ascii ":RUN" <+: trimLine line) := by
  have hsame : ∀ done : Command, some (c, some done) = some (c', command) →
      (∀ body, done ≠ .sqlEnd body) → done ≠ .sqlBegin →
      (done = .run → ascii ":RUN" <+: trimLine line) →
      c.SameSql c' ∧ ∃ done, command = some done ∧ (∀ body, done ≠ .sqlEnd body) ∧
        done ≠ .sqlBegin ∧ (done = .run → ascii ":RUN" <+: trimLine line) := by
    intro done heq hend hbegin hrun
    obtain ⟨rfl, rfl⟩ := Prod.mk.inj (Option.some.inj heq)
    exact ⟨.refl c, done, rfl, hend, hbegin, hrun⟩
  have htrim : (if line.getLast? = some newline then line.dropLast else line) =
    trimLine line := rfl
  unfold Connector.processCommand at h
  split at h
  · cases h
  · simp only [htrim] at h
    by_cases hhead : (trimLine line).head? = some 58
    · rw [if_neg (not_not.2 hhead)] at h
      cases hfind : settings.find? fun setting =>
          checkCommand (trimLine line) setting.command with
      | some setting =>
        simp only [hfind] at h
        split_ifs at h with hhelo hquit hrun hdie
        · exact hsame _ h (by simp) (by simp) (by simp)
        · exact hsame _ h (by simp) (by simp) (by simp)
        · exact hsame _ h (by simp) (by simp) fun _ => prefix_of_checkCommand hhead hrun
        · exact hsame _ h (by simp) (by simp) (by simp)
        · obtain ⟨⟨stored, text⟩, hstore, heq⟩ := Option.map_eq_some_iff.1 h
          obtain ⟨rfl, rfl⟩ := Prod.mk.inj heq
          exact ⟨Connector.store_sameSql hstore, _, rfl, by simp⟩
      | none =>
        simp only [hfind] at h
        split_ifs at h with hhelo hquit hrun hdie hcheck
        · exact hsame _ h (by simp) (by simp) (by simp)
        · exact hsame _ h (by simp) (by simp) (by simp)
        · exact hsame _ h (by simp) (by simp) fun _ => prefix_of_checkCommand hhead hrun
        · exact hsame _ h (by simp) (by simp) (by simp)
        · exact absurd (prefix_of_checkCommand hhead hcheck) hsql
        · exact hsame _ h (by simp) (by simp) (by simp)
    · rw [if_pos hhead] at h
      split at h
      · exact hsame _ h (by simp) (by simp) (by simp)
      · cases h

/-! ## Lines that can be taken -/

theorem Connector.store_isSome (c : Connector) {value : Option (List UInt8)} {setting : Setting}
    (hname : setting ≠ .name) (hflags : setting = .flags → value.isSome = true) :
    (c.store value setting).isSome = true := by
  cases setting with
  | name => exact absurd rfl hname
  | flags =>
    rw [Connector.store, Option.isSome_map]
    exact hflags rfl
  | _ => rfl

/-- A line that starts with a colon and a text. -/
theorem head_of_prefix {text line : List UInt8} (h : 58 :: text <+: line) :
    line.head? = some 58 := by
  obtain ⟨rest, rfl⟩ := h
  rfl

/-- The branch for the name has an argument too few. -/
theorem processCommand_name (c : Connector) {line : List UInt8}
    (hline : ascii ":SET NAME" <+: trimLine line) : c.processCommand line = none := by
  obtain ⟨rest, hrest⟩ := hline
  have hcons : ascii ":SET NAME" ++ rest = 58 :: (ascii "SET NAME" ++ rest) := rfl
  unfold Connector.processCommand
  split
  · rfl
  · rw [trimLine] at hrest
    rw [← hrest, hcons]
    simp only [checkCommand_cons]
    rfl

/-- Without a value `flag_str` is not filled. -/
theorem processCommand_flags (c : Connector) {line : List UInt8}
    (hline : trimLine line = ascii ":SET FLAGS") : c.processCommand line = none := by
  unfold Connector.processCommand
  split
  · rfl
  · rw [trimLine] at hline
    rw [hline]
    rfl

/-- The branch for a setting that was found. -/
theorem store_isSome_of_find (c : Connector) {line : List UInt8} {setting : Setting}
    (hhead : line.head? = some 58) (hname : ¬ascii ":SET NAME" <+: line)
    (hflags : line ≠ ascii ":SET FLAGS")
    (hfind : (settings.find? fun setting => checkCommand line setting.command) = some setting) :
    (c.store (commandValue line setting.command) setting).isSome = true := by
  have hcheck : checkCommand line setting.command = true := by
    simpa using List.find?_some hfind
  have hstarts := prefix_of_checkCommand hhead hcheck
  refine c.store_isSome (fun heq => hname ?_) fun heq => ?_
  · rwa [heq] at hstarts
  · rw [heq] at hstarts ⊢
    rw [commandValue]
    split
    · rfl
    · rename_i hshort
      refine absurd (hstarts.eq_of_length_le ?_).symm hflags
      have hlen : (58 :: Setting.flags.command).length = Setting.flags.command.length + 1 := rfl
      omega

/-- A command that is not for `SQL` is taken exactly if what it reads is there. -/
theorem processCommand_isSome_iff (c : Connector) {line : List UInt8}
    (hsql : ¬ascii ":SQL" <+: trimLine line) :
    (c.processCommand line).isSome = true ↔ LineDefined line := by
  by_cases hne : line = []
  · rw [Connector.processCommand, if_pos hne]
    exact iff_of_false Bool.false_ne_true fun h => h.nonempty hne
  by_cases hname : ascii ":SET NAME" <+: trimLine line
  · rw [processCommand_name c hname]
    exact iff_of_false Bool.false_ne_true fun h => h.name hname
  by_cases hflags : trimLine line = ascii ":SET FLAGS"
  · rw [processCommand_flags c hflags]
    exact iff_of_false Bool.false_ne_true fun h => h.flags hflags
  have htrim : (if line.getLast? = some newline then line.dropLast else line) =
    trimLine line := rfl
  unfold Connector.processCommand
  rw [if_neg hne]
  simp only [htrim]
  by_cases hhead : (trimLine line).head? = some 58
  · rw [if_neg (not_not.2 hhead)]
    refine iff_of_true ?_ ⟨hne, fun hnot => absurd hhead hnot, hname, hflags⟩
    split_ifs with _ _ _ _ hcheck
    · rfl
    · rfl
    · rfl
    · rfl
    · exact absurd (prefix_of_checkCommand hhead hcheck) hsql
    · cases hfind : settings.find? fun setting =>
          checkCommand (trimLine line) setting.command with
      | some setting =>
        simp only
        rw [Option.isSome_map]
        exact store_isSome_of_find c hhead hname hflags hfind
      | none => rfl
  · rw [if_pos hhead]
    constructor
    · intro h
      refine ⟨hne, fun _ => ?_, hname, hflags⟩
      by_contra hformat
      rw [if_neg hformat] at h
      cases h
    · intro h
      rw [if_pos (h.format hhead)]
      rfl

/-- A line for `SQL` reads nothing of these. -/
theorem lineDefined_of_sql {line : List UInt8} (hsql : ascii ":SQL" <+: trimLine line) :
    LineDefined line := by
  have hhead : (trimLine line).head? = some 58 := head_of_prefix hsql
  obtain ⟨rest, hrest⟩ := hsql
  refine ⟨?_, fun hnot => absurd hhead hnot, fun hname => ?_, fun hflags => ?_⟩
  · rintro rfl
    cases hhead
  · obtain ⟨rest', hrest'⟩ := hname
    rw [← hrest] at hrest'
    cases hrest'
  · rw [← hrest] at hflags
    cases hflags

/-! ## The memory follows the lines -/

/-- The memory of the connector is what the lines say. -/
structure Follows (c : Connector) (commands : List Command) (client : Client) : Prop where
  receiveSql : c.receiveSql = client.inBody
  opened : c.sbSql.isOpen = client.begun
  inBody : client.inBody = true → client.begun = true
  complete : (lastSql commands).isSome = client.complete
  sql : ∀ body, lastSql commands = some body → c.request.sql = some (.ofBytes body)

variable {c c' : Connector} {commands : List Command} {client : Client} {line : List UInt8}
  {command : Option Command}

theorem Follows.of_sameSql (h : Follows c commands client) (hsame : c.SameSql c') :
    Follows c' commands client :=
  ⟨hsame.receiveSql.trans h.receiveSql, hsame.sbSql ▸ h.opened, h.inBody, h.complete,
    fun body hbody => hsame.sql.trans (h.sql body hbody)⟩

/-- The branch for `SQL`. -/
theorem Follows.sqlCommand (h : Follows c commands client) {src : List UInt8}
    (hcommand : c.sqlCommand (some src) = some (c', command)) :
    Follows c' (commands ++ command.toList)
      (if (copyString src : CharBuf argSz).bytes = ascii "BEGIN" then
        { begun := true, inBody := true, complete := false }
      else if (copyString src : CharBuf argSz).bytes = ascii "END" then
        { begun := false, inBody := false, complete := true }
      else client) := by
  unfold Connector.sqlCommand at hcommand
  simp only at hcommand
  split at hcommand
  · rename_i hbegin
    obtain ⟨rfl, rfl⟩ := Prod.mk.inj (Option.some.inj hcommand)
    rw [if_pos hbegin]
    refine ⟨rfl, rfl, fun _ => rfl, ?_, fun body hbody => ?_⟩
    · rw [Option.toList_some, lastSql_snoc]
      rfl
    · rw [Option.toList_some, lastSql_snoc] at hbody
      cases hbody
  · rename_i hbegin
    rw [if_neg hbegin]
    split at hcommand
    · rename_i hend
      rw [if_pos hend]
      cases hbuffer : c.sbSql with
      | opened collected =>
        rw [hbuffer] at hcommand
        obtain ⟨rfl, rfl⟩ := Prod.mk.inj (Option.some.inj hcommand)
        refine ⟨rfl, rfl, (fun hin => by cases hin), ?_, fun body hbody => ?_⟩
        · rw [Option.toList_some, lastSql_snoc]
          rfl
        · rw [Option.toList_some, lastSql_snoc] at hbody
          obtain rfl := Option.some.inj hbody
          rfl
      | null | freed =>
        rw [hbuffer] at hcommand
        cases hcommand
    · rename_i hend
      rw [if_neg hend]
      obtain ⟨rfl, rfl⟩ := Prod.mk.inj (Option.some.inj hcommand)
      refine ⟨h.receiveSql, h.opened, h.inBody, ?_, fun body hbody => ?_⟩
      · rw [Option.toList_some, lastSql_snoc]
        exact h.complete
      · rw [Option.toList_some, lastSql_snoc] at hbody
        exact h.sql body hbody

/-- One line. -/
theorem Follows.processLine (h : Follows c commands client)
    (hline : c.processLine line = some (c', command)) :
    Follows c' (commands ++ command.toList) (client.next line) := by
  unfold Client.next Client.isCommand
  rw [← h.receiveSql]
  unfold Connector.processLine at hline
  cases hbody : c.receiveSql && bodyLine line with
  | true =>
    rw [hbody, if_pos rfl] at hline
    rw [Bool.not_true, Bool.false_and, if_neg Bool.false_ne_true]
    cases hbuffer : c.sbSql with
    | opened body =>
      rw [hbuffer] at hline
      obtain ⟨rfl, rfl⟩ := Prod.mk.inj (Option.some.inj hline)
      rw [Option.toList_none, List.append_nil]
      refine ⟨h.receiveSql, ?_, h.inBody, h.complete, h.sql⟩
      rw [← h.opened, hbuffer]
      rfl
    | null | freed =>
      rw [hbuffer] at hline
      cases hline
  | false =>
    rw [hbody, if_neg Bool.false_ne_true] at hline
    rw [Bool.not_false, Bool.true_and]
    by_cases hsql : ascii ":SQL" <+: trimLine line
    · rw [if_pos (by simpa using hsql)]
      rw [processCommand_of_sql c hsql, commandValue_sql hsql] at hline
      split at hline
      · cases hline
      · exact h.sqlCommand hline
    · rw [if_neg (by simpa using hsql)]
      obtain ⟨hsame, done, rfl, hend, hbegin, -⟩ := processCommand_other hsql hline
      have hlast : lastSql (commands ++ [done]) = lastSql commands := by
        rw [lastSql_snoc]
        cases done with
        | sqlBegin => exact absurd rfl hbegin
        | sqlEnd body => exact absurd rfl (hend body)
        | _ => rfl
      have hnext := h.of_sameSql hsame
      refine ⟨hnext.receiveSql, hnext.opened, hnext.inBody, ?_, fun body hbody => ?_⟩
      · rw [Option.toList_some, hlast]
        exact hnext.complete
      · rw [Option.toList_some, hlast] at hbody
        exact hnext.sql body hbody

theorem Session.respond_sameSql (s : Session) (backend : Backend) (pid : Nat) (ret : Ret) :
    s.connector.SameSql (s.respond backend pid ret).session.connector := by
  obtain ⟨connected, h⟩ := s.respond_connector backend pid ret
  rw [h]
  exact ⟨rfl, rfl, rfl⟩

/-- One turn. -/
theorem Follows.takeLine {s : Session} (h : Follows s.connector s.commands client)
    (backend : Backend) (pid : Nat) (hline : s.connector.processLine line ≠ none) :
    Follows (s.takeLine backend pid line).session.connector
      (s.takeLine backend pid line).session.commands (client.next line) := by
  cases hresult : s.connector.processLine line with
  | none => exact absurd hresult hline
  | some result =>
    rcases result with ⟨c, command⟩
    have hnext := h.processLine hresult
    cases command with
    | none =>
      rw [Session.takeLine, hresult]
      rwa [Option.toList_none, List.append_nil] at hnext
    | some command =>
      rw [Session.takeLine_commands hresult]
      refine Follows.of_sameSql hnext ?_
      rw [Session.takeLine, hresult]
      exact Session.respond_sameSql
        { s with connector := c, trace := s.trace ++ [(command, c.request)] } backend pid
        command.ret

theorem Follows.endSession {s : Session} (h : Follows s.connector s.commands client)
    (alive : Bool) :
    Follows (s.connector.endSession alive).newSession.connector
      (s.connector.endSession alive).newSession.commands client.endSession :=
  ⟨rfl, h.opened, (fun hin => by cases hin), rfl, (fun body hbody => by cases hbody)⟩

/-! ## A step -/

/-- The memory of the connector in a run is what its clients sent. -/
def Served.Follows (s : Served) : Prop :=
  DbRelay.Follows s.session.connector s.session.commands s.client

theorem Served.follows_step {pid : Nat} {s s' : Served} {e : ServedEvent} (h : s.Follows)
    (hstep : s.step pid e = some s') : s'.Follows := by
  cases e with
  | sessionEnd alive =>
    obtain rfl := Option.some.inj hstep
    exact DbRelay.Follows.endSession h alive
  | line backend line =>
    unfold Served.step at hstep
    simp only at hstep
    split at hstep
    · cases hstep
    · have hnone : s.session.connector.processLine line = none →
          s.session.takeLine backend pid line = .stops s.session .undefined := by
        intro hline
        rw [Session.takeLine, hline]
      have hnext := fun hline : s.session.connector.processLine line ≠ none =>
        DbRelay.Follows.takeLine h backend pid hline
      split at hstep
      · rename_i session hturn
        obtain rfl := Option.some.inj hstep
        rw [hturn] at hnext
        refine hnext fun hline => ?_
        cases hturn.symm.trans (hnone hline)
      · rename_i session hturn
        obtain rfl := Option.some.inj hstep
        rw [hturn] at hnext
        refine hnext fun hline => ?_
        cases hturn.symm.trans (hnone hline)
      · cases hstep

/-- The accesses of a line are sound exactly if the line is in order. -/
theorem Follows.accesses_sound_iff (h : Follows c commands client) (line : List UInt8) :
    (∀ access ∈ c.sqlAccesses line, access.Sound) ↔
      (client.isCommand line = true → trimLine line ≠ ascii ":SQL" ∧
        (sqlWord line = ascii "END" → client.begun = true)) := by
  unfold Connector.sqlAccesses Client.isCommand
  rw [← h.receiveSql]
  cases hbody : c.receiveSql && bodyLine line with
  | true =>
    -- A line of a body: the buffer is open.
    have hopen : c.sbSql.isOpen = true := by
      rw [h.opened]
      refine h.inBody ?_
      rw [← h.receiveSql]
      exact (Bool.and_eq_true_iff.1 hbody).1
    simp [SqlAccess.Sound, hopen]
  | false =>
    by_cases hsql : ascii ":SQL" <+: trimLine line
    · have hword : ∀ src, src = (trimLine line).drop 5 →
          (copyString src : CharBuf argSz).bytes = sqlWord line := fun src hsrc => by
        rw [hsrc]
        rfl
      have hdiffer : ascii "BEGIN" ≠ ascii "END" := by decide
      rw [if_neg Bool.false_ne_true, if_pos ((isSqlCommand_iff line).2 hsql),
        commandValue_sql hsql]
      by_cases hbare : trimLine line = ascii ":SQL"
      · simp [hbare, SqlAccess.Sound]
      · rw [if_neg hbare]
        simp only [hword _ rfl]
        by_cases hbegin : sqlWord line = ascii "BEGIN"
        · simp [hbegin, hbare, hdiffer, SqlAccess.Sound]
        · by_cases hend : sqlWord line = ascii "END"
          · simp [hend, hdiffer.symm, hbare, hsql, SqlAccess.Sound, h.opened]
          · simp [hbegin, hend, hbare, SqlAccess.Sound]
    · have hnot : isSqlCommand line = false := by
        rw [Bool.eq_false_iff]
        exact fun hline => hsql ((isSqlCommand_iff line).1 hline)
      simp [hnot, hsql]

/-- With sound accesses a line is taken exactly if what it reads besides is there. -/
theorem Follows.taken_iff (h : Follows c commands client) (line : List UInt8)
    (hsound : ∀ access ∈ c.sqlAccesses line, access.Sound) :
    c.processLine line ≠ none ↔
      ((client.inBody && bodyLine line) = false → LineDefined line) := by
  rw [← h.receiveSql, Connector.processLine]
  cases hbody : c.receiveSql && bodyLine line with
  | true =>
    rw [Connector.sqlAccesses, hbody, if_pos rfl] at hsound
    have hopen : c.sbSql.isOpen = true := hsound _ (List.mem_singleton_self _)
    refine iff_of_true ?_ fun hnot => by cases hnot
    cases hbuffer : c.sbSql with
    | opened body => simp
    | null | freed =>
      rw [hbuffer] at hopen
      cases hopen
  | false =>
    rw [if_neg Bool.false_ne_true, imp_iff_right rfl]
    by_cases hsql : ascii ":SQL" <+: trimLine line
    · refine iff_of_true (fun hnone => ?_) (lineDefined_of_sql hsql)
      rw [Connector.sqlAccesses, hbody, if_neg Bool.false_ne_true,
        if_pos ((isSqlCommand_iff line).2 hsql)] at hsound
      rw [processCommand_of_sql c hsql] at hnone
      cases hvalue : commandValue (trimLine line) (ascii "SQL") with
      | none =>
        rw [hvalue] at hsound
        cases hsound _ (List.mem_singleton_self _)
      | some src =>
        rw [hvalue] at hsound hnone
        unfold Connector.sqlCommand at hnone
        simp only at hsound hnone
        split at hnone
        · cases hnone
        · rename_i hbegin
          split at hnone
          · rename_i hend
            rw [if_neg hbegin, if_pos hend] at hsound
            have hopen : c.sbSql.isOpen = true := hsound (.finish c.sbSql) (by simp)
            split at hnone
            · cases hnone
            · rename_i hclosed
              cases hbuffer : c.sbSql with
              | opened body => exact hclosed body hbuffer
              | null | freed =>
                rw [hbuffer] at hopen
                cases hopen
          · cases hnone
    · rw [← processCommand_isSome_iff c hsql, Option.isSome_iff_ne_none]

/-- The branch for `SQL` never runs a query. -/
theorem sqlCommand_ne_run {value : Option (List UInt8)} :
    c.sqlCommand value ≠ some (c', some .run) := by
  intro h
  unfold Connector.sqlCommand at h
  split at h
  · cases h
  · simp only at h
    split at h
    · cases (Prod.mk.inj (Option.some.inj h)).2
    · split at h
      · split at h
        · cases (Prod.mk.inj (Option.some.inj h)).2
        · cases h
      · cases (Prod.mk.inj (Option.some.inj h)).2

/-- A `RUN` has the SQL of its session exactly if the line is in order. -/
theorem Follows.run_sound_iff (h : Follows c commands client) (backend : Backend)
    (line : List UInt8) :
    (∀ c', c.processLine line = some (c', some .run) → executesRun c' backend = true →
      ∃ body, lastSql commands = some body ∧ c'.request.sql = some (.ofBytes body)) ↔
    (ascii ":RUN" <+: trimLine line → (client.inBody && bodyLine line) = false →
      executesRun c backend = true → client.complete = true) := by
  rw [← h.receiveSql]
  constructor
  · intro hsound hrun hbody hexecutes
    have hline : c.processLine line = some (c, some .run) := by
      rw [Connector.processLine, hbody, if_neg Bool.false_ne_true]
      exact processCommand_run c hrun
    obtain ⟨body, hlast, -⟩ := hsound c hline hexecutes
    rw [← h.complete, hlast]
    rfl
  · intro horder c' hline hexecutes
    have hconnected := Connector.processLine_connected hline
    unfold Connector.processLine at hline
    cases hbody : c.receiveSql && bodyLine line with
    | true =>
      rw [hbody, if_pos rfl] at hline
      split at hline
      · cases (Prod.mk.inj (Option.some.inj hline)).2
      · cases hline
    | false =>
      rw [hbody, if_neg Bool.false_ne_true] at hline
      by_cases hsql : ascii ":SQL" <+: trimLine line
      · rw [processCommand_of_sql c hsql] at hline
        exact absurd hline sqlCommand_ne_run
      · obtain ⟨hsame, done, hdone, -, -, hrun⟩ := processCommand_other hsql hline
        have hcomplete := horder (hrun (Option.some.inj hdone).symm) hbody (by
          rw [executesRun, ← hconnected]
          exact hexecutes)
        rw [← h.complete, Option.isSome_iff_exists] at hcomplete
        obtain ⟨body, hlast⟩ := hcomplete
        exact ⟨body, hlast, hsame.sql.trans (h.sql body hlast)⟩

/-- A line is sound exactly if it is in order. -/
theorem Follows.lineSound_iff {s : Session} (h : Follows s.connector s.commands client)
    (backend : Backend) (line : List UInt8) :
    LineSound s backend line ↔
      client.Allows (executesRun s.connector backend) line := by
  constructor
  · intro hsound
    exact ⟨(h.accesses_sound_iff line).1 hsound.accesses,
      (h.run_sound_iff backend line).1 hsound.run,
      (h.taken_iff line hsound.accesses).1 hsound.taken⟩
  · intro hallows
    have haccesses := (h.accesses_sound_iff line).2 hallows.sql
    exact ⟨haccesses, (h.run_sound_iff backend line).2 hallows.run,
      (h.taken_iff line haccesses).2 hallows.taken⟩

/-- The mode is sound along a run exactly if the lines of the clients are in order: every `SQL`
has a word, every `SQL END` ends a body, every `RUN` that is executed follows the `SQL END` of
its session, and what is not a part of a body can be logged and stored. -/
theorem sqlModeSound_iff (pid : Nat) (events : List ServedEvent) :
    AllEvents (Served.step pid) SqlModeSound {} events ↔
      AllEvents (Served.step pid) InOrder {} events := by
  have hstart : Served.Follows {} :=
    ⟨rfl, rfl, (fun hin => by cases hin), rfl, fun body hbody => by cases hbody⟩
  refine allEvents_iff_of_inv (P := Served.Follows)
    (fun _ _ _ h hstep => Served.follows_step h hstep) (fun s e h => ?_) hstart
  cases e with
  | sessionEnd alive => exact Iff.rfl
  | line backend line => exact imp_congr_right fun _ => Follows.lineSound_iff h backend line

/-- A client that says `:SQL END` first. -/
theorem not_sqlModeSound_endFirst :
    ¬AllEvents (Served.step 1) SqlModeSound {}
      [.line { login := none, exec := fun _ _ => .results [] } (ascii ":SQL END\n")] := by
  intro h
  have haccesses : ({} : Connector).sqlAccesses (ascii ":SQL END\n") =
      [.readArg true, .readArg true, .finish .null] := by decide +kernel
  have hsound := (h.1 rfl).accesses (.finish .null)
  rw [show ({} : Served).session.connector = {} from rfl, haccesses] at hsound
  cases hsound (by simp)

end DbRelay
