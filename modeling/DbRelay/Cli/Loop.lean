import DbRelay.Db.TableName
import DbRelay.Lib.Framing
import DbRelay.Lib.StepSystem
import DbRelay.Lib.Strtok
import DbRelay.Query.ErrorBuffers
import Mathlib.Data.List.DropRight

/-!
# The loop of the command line

The loop of `main` in `main.c`.  It collects lines in `mybuf`, and at a `go` it takes them for an
admin command or for a query.  One request lives as long as the loop.

* `Cli` is what a command leaves behind in the request, in `mybuf` and in `login_error`.
* `Cli.runQuery` is `dbrelay_db_run_query` on this state, with the messages of the server.
* `Cli.step` is one turn of the loop.
* `param0_go`: which commands leave a pointer to a freed block in `params[0]`.
* `run_pending`: the lines since the last `go` or `reset` give a new loop the same `mybuf`.

`request->sql` is set before each query, and `request->connection_timeout` is not in the response,
so neither is a part of the state.
-/

namespace DbRelay

open Framing StepSystem Strtok

instance : NeZero errorSz := ⟨by decide⟩

/-! ## The server -/

/-- What the calls of a query return, and the messages that come meanwhile.  What may depend on
the text that is sent is a function of it. -/
structure Server where
  /-- `dbrelay_wait_for_connection` returns a connection. -/
  connection : Bool := true
  /-- `dbrelay_conn_initialize`, with `none` for -1. -/
  helperPid : Option Nat := none
  /-- `dbrelay_conn_send_request`. -/
  reply : List UInt8 → CString × Nat := fun _ => (.empty, 0)
  /-- `api->connected`. -/
  connected : Bool := true
  /-- The messages before `api->connect` returns. -/
  loginMessages : List ServerMessage := []
  /-- `dbrelay_exec_query`, with `none` for `NULL`, and the messages before it returns. -/
  exec : List UInt8 → Option CString × List ServerMessage := fun _ => (none, [])

/-- A message that `dbrelay_mssql_msg_handler` copies to `login_error`. -/
def ServerMessage.toLogin (m : ServerMessage) : Bool := !m.toRequest && !m.dropped

/-- `dbrelay_mssql_msg_handler`, on `login_error`.  `none` is a write behind its end. -/
def loginHandler (loginError : CharBuf errorSz) (m : ServerMessage) : Option (CharBuf errorSz) :=
  if m.toLogin then
    if h : m.text.bytes.length < errorSz then some ⟨m.text.bytes, m.text.noNul, h⟩ else none
  else some loginError

def deliverLogin (loginError : CharBuf errorSz) : List ServerMessage → Option (CharBuf errorSz)
  | [] => some loginError
  | m :: messages => (loginHandler loginError m).bind fun buf => deliverLogin buf messages

/-! ## The state -/

/-- `request->params[0]` between two turns. -/
inductive Param0
  | null
  /-- It points into `m2`, which was freed. -/
  | freed
  deriving DecidableEq, Repr

/-- What a read of `params[0]` gives, when the freed block holds `block`. -/
def Param0.read (block : CString) : Param0 → Option CString
  | .null => none
  | .freed => some block

/-- `params[0]` after `free(m2)`. -/
def Param0.after : Option CString → Param0
  | none => .null
  | some _ => .freed

/-- `request->params`.  The loop sets no other element. -/
def paramArray (param0 : Option CString) : Vector (Option CString) maxParams :=
  (Vector.replicate maxParams none).set 0 param0 maxParams_pos

structure Cli where
  mybuf : CString := .empty
  cmd : CString := .empty
  param0 : Param0 := .null
  errorMessage : CArray errorMessageSz := zeroedMessage
  loginError : CharBuf errorSz := .empty

/-- The request of a query, over the options of the command line. -/
def queryRequest (options : Request) (sql : Option CString) (param0 : Option CString) : Request :=
  { options with sql := sql, params := paramArray param0 }

/-! ## A query -/

/-- What a query has sent to the server, if anything, and what it returned. -/
structure Shown where
  executed : Option (List UInt8)
  response : List UInt8
  deriving DecidableEq, Repr

/-- The server gets `newsql`, and a connector the text before the parameters are in it. -/
def executedSql (request : Request) (newsql : List UInt8) (server : Server) :
    Option (List UInt8) :=
  if !server.connection then none
  else if request.named then
    if server.helperPid.isNone then none else some request.sqlText
  else if server.connected then some newsql
  else none

namespace Cli

/-- The messages of an unnamed query.  A connector gets those of a named one. -/
def hear (cli : Cli) (request : Request) (newsql : List UInt8) (server : Server) : Option Cli :=
  if request.named then some cli
  else
    (deliverLogin cli.loginError server.loginMessages).bind fun loginError =>
      (deliver cli.errorMessage
          (if server.connection && server.connected then (server.exec newsql).2 else [])).map
        fun errorMessage => { cli with errorMessage := errorMessage, loginError := loginError }

/-- `api->error`. -/
def error (cli : Cli) (server : Server) : CString :=
  if server.connected then .ofBytes cli.errorMessage.string else cli.loginError.toCString

def answers (cli : Cli) (request : Request) (newsql : List UInt8) (server : Server) : Answers where
  connection := server.connection
  helperPid := server.helperPid
  reply := some (server.reply request.sqlText)
  connected := server.connected
  error := some (cli.error server)
  result := (server.exec newsql).1

/-- `dbrelay_db_run_query`.  `none` is a write or a read outside of an object of the program. -/
def runQuery (magic : CString) (request : Request) (server : Server) (cli : Cli) :
    Option (Shown × Cli) :=
  if !checkRequest request then
    (DbRelay.runQuery magic request { connection := false }).map fun response =>
      ({ executed := none, response := response }, cli)
  else
    (resolveParams magic request request.sqlText).bind fun newsql =>
      (cli.hear request newsql server).bind fun cli =>
        (DbRelay.runQuery magic request (cli.answers request newsql server)).map fun response =>
          ({ executed := executedSql request newsql server, response := response }, cli)

end Cli

/-! ## Lines -/

/-- `" \t"`. -/
def isBlank (c : UInt8) : Bool := decide (c = 32 ∨ c = 9)

/-- `" \t\n\r"`. -/
def isBlankOrEnd (c : UInt8) : Bool := isBlank c || decide (c = 10 ∨ c = 13)

/-- The commands of the loop. -/
inductive LineCommand
  | exit
  | go
  | reset
  | load
  | sql
  deriving DecidableEq, Repr

def lineCommand (s : CString) : LineCommand :=
  let cmd := ((strtok isBlank s.bytes).map Prod.fst).getD []
  if sameIgnoringCase cmd (ascii "exit") || sameIgnoringCase cmd (ascii "quit") ||
      sameIgnoringCase cmd (ascii "bye") then .exit
  else if sameIgnoringCase cmd (ascii "go") then .go
  else if sameIgnoringCase cmd (ascii "reset") then .reset
  else if sameIgnoringCase cmd (ascii "load") then .load
  else .sql

/-- What a `go` takes `mybuf` for.  `none` is a parameter that is missing. -/
inductive GoCommand
  | status
  | kill (param0 : Option CString)
  | tables
  | columns (param0 : Option CString)
  | pkey (param0 : Option CString)
  | plain
  deriving DecidableEq, Repr

/-- The second word of `mybuf`. -/
def secondWord (mybuf : CString) : Option CString :=
  (strtok isBlank mybuf.bytes).bind fun (_, rest) =>
    (strtok isBlankOrEnd rest).map fun (param0, _) => .ofBytes param0

/-- The third word of `mybuf`. -/
def thirdWord (mybuf : CString) : Option CString :=
  (strtok isBlank mybuf.bytes).bind fun (_, rest) =>
    (strtok isBlankOrEnd rest).bind fun (_, rest) =>
      (strtok isBlankOrEnd rest).map fun (param0, _) => .ofBytes param0

def goCommand (mybuf : CString) : GoCommand :=
  if (ascii "status").isPrefixOf mybuf.bytes then .status
  else if (ascii "kill").isPrefixOf mybuf.bytes then .kill (secondWord mybuf)
  else if (ascii "list tables").isPrefixOf mybuf.bytes then .tables
  else if (ascii "list columns").isPrefixOf mybuf.bytes then .columns (thirdWord mybuf)
  else if (ascii "list keys").isPrefixOf mybuf.bytes then .pkey (thirdWord mybuf)
  else .plain

/-- `slurp_input_file` on a file that was opened.  `fgets` reads up to a newline, and at most
1023 bytes. -/
def slurpInputFile (mybuf : CString) (content : List UInt8) : CString :=
  let (pieces, rest) := cut 10 1023 [] content
  .ofBytes (mybuf.bytes ++ (pieces ++ [rest]).flatMap fun s => (CString.ofBytes s).bytes)

/-! ## The loop -/

/-- What one turn of the loop reads. -/
structure Input where
  line : CString
  /-- The file that `load` names, if it can be opened. -/
  file : Option (List UInt8) := none
  /-- What the block that `params[0]` points into holds. -/
  block : CString := .empty
  server : Server := {}

/-- The turn ends with an empty `mybuf`. -/
def Input.clears (input : Input) : Bool :=
  decide (lineCommand input.line = .go ∨ lineCommand input.line = .reset)

namespace Cli

variable (magic : CString) (options : Request)

/-- The query of a `go` on plain text. -/
def runPlain (server : Server) (block : CString) (cli : Cli) : Option (Shown × Cli) :=
  cli.runQuery magic (queryRequest options (some cli.mybuf) (cli.param0.read block)) server

/-- `dbrelay_admin_tables`, `dbrelay_admin_columns` and `dbrelay_admin_pkey`. -/
def runCatalog (server : Server) (dbcmd : Nat) (param0 : Option CString) (cli : Cli) :
    Option Cli :=
  (mssqlCatalogsql dbcmd (paramArray param0)).bind fun sql =>
    (cli.runQuery magic (queryRequest options (sql.map .ofBytes) param0) server).map Prod.snd

/-- The commands with a table.  Without a parameter no query is run. -/
def runTable (server : Server) (cmd : List UInt8) (dbcmd : Nat) (param0 : Option CString)
    (cli : Cli) : Option Cli :=
  let cli := { cli with cmd := .ofBytes cmd, param0 := .after param0 }
  match param0 with
  | none => some cli
  | some _ => cli.runCatalog magic options server dbcmd param0

/-- A `go`, up to the end of the branch that it takes.  Neither `dbrelay_db_status` nor
`dbrelay_admin_kill` writes to the request. -/
def go (input : Input) (cli : Cli) : Option Cli :=
  match goCommand cli.mybuf with
  | .status => some cli
  | .kill param0 => some { cli with cmd := .ofBytes (ascii "kill"), param0 := .after param0 }
  | .tables =>
    { cli with cmd := .ofBytes (ascii "tables") }.runCatalog magic options input.server dbcmdTables
      (cli.param0.read input.block)
  | .columns param0 =>
    cli.runTable magic options input.server (ascii "columns") dbcmdColumns param0
  | .pkey param0 => cli.runTable magic options input.server (ascii "pkey") dbcmdPkey param0
  | .plain => (cli.runPlain magic options input.server input.block).map Prod.snd

/-- One turn of the loop.  `none` is the end of it. -/
def step (cli : Cli) (input : Input) : Option Cli :=
  match lineCommand input.line with
  | .exit => none
  | .go => (cli.go magic options input).map fun cli => { cli with mybuf := .empty }
  | .reset => some { cli with mybuf := .empty }
  | .load =>
    match input.file with
    | none => some cli
    | some content => some { cli with mybuf := slurpInputFile cli.mybuf content }
  | .sql => some { cli with mybuf := .ofBytes (cli.mybuf.bytes ++ input.line.bytes ++ ascii "\n") }

/-! ## What a turn leaves -/

/-- `error_message` holds a string. -/
def Terminated (cli : Cli) : Prop :=
  cli.errorMessage.string ++ [0] <+: cli.errorMessage.toList

variable {magic options}

theorem noNul_string {size : Nat} (a : CArray size) : 0 ∉ a.string := fun h => by
  simpa using List.mem_takeWhile_imp h

theorem terminated_of_start {cli : Cli} {s : List UInt8} (hs : 0 ∉ s)
    (h : s ++ [0] <+: cli.errorMessage.toList) : cli.Terminated := by
  rwa [Terminated, CArray.string_of_prefix hs h]

theorem terminated_new (mybuf : CString) : ({ mybuf := mybuf } : Cli).Terminated :=
  terminated_of_start List.not_mem_nil zeroedMessage_empty

/-- A query writes to the two buffers of messages only. -/
theorem hear_some {cli cli' : Cli} {request : Request} {newsql : List UInt8} {server : Server}
    (hcli : cli.Terminated) (h : cli.hear request newsql server = some cli') :
    cli'.Terminated ∧ cli'.mybuf = cli.mybuf ∧ cli'.param0 = cli.param0 := by
  unfold hear at h
  split at h
  · obtain rfl := Option.some.inj h
    exact ⟨hcli, rfl, rfl⟩
  · obtain ⟨loginError, -, h⟩ := Option.bind_eq_some_iff.1 h
    obtain ⟨errorMessage, hdeliver, rfl⟩ := Option.map_eq_some_iff.1 h
    have hspec := (deliver_spec (noNul_string _) hcli _).2 errorMessage hdeliver
    refine ⟨terminated_of_start ?_ hspec, rfl, rfl⟩
    rw [List.mem_append, not_or]
    exact ⟨noNul_string _, noNul_messageText _⟩

theorem runQuery_some {cli cli' : Cli} {request : Request} {server : Server} {shown : Shown}
    (hcli : cli.Terminated) (h : cli.runQuery magic request server = some (shown, cli')) :
    cli'.Terminated ∧ cli'.mybuf = cli.mybuf ∧ cli'.param0 = cli.param0 := by
  unfold runQuery at h
  split at h
  · obtain ⟨response, -, heq⟩ := Option.map_eq_some_iff.1 h
    obtain rfl : cli = cli' := (Prod.mk.inj heq).2
    exact ⟨hcli, rfl, rfl⟩
  · obtain ⟨newsql, -, h⟩ := Option.bind_eq_some_iff.1 h
    obtain ⟨heard, hhear, h⟩ := Option.bind_eq_some_iff.1 h
    obtain ⟨response, -, heq⟩ := Option.map_eq_some_iff.1 h
    obtain rfl : heard = cli' := (Prod.mk.inj heq).2
    exact hear_some hcli hhear

theorem terminated_runCatalog {cli cli' : Cli} {server : Server} {dbcmd : Nat}
    {param0 : Option CString} (hcli : cli.Terminated)
    (h : cli.runCatalog magic options server dbcmd param0 = some cli') : cli'.Terminated := by
  obtain ⟨sql, -, h⟩ := Option.bind_eq_some_iff.1 h
  obtain ⟨⟨shown, cli₁⟩, hrun, rfl⟩ := Option.map_eq_some_iff.1 h
  exact (runQuery_some hcli hrun).1

theorem terminated_runTable {cli cli' : Cli} {server : Server} {cmd : List UInt8} {dbcmd : Nat}
    {param0 : Option CString} (hcli : cli.Terminated)
    (h : cli.runTable magic options server cmd dbcmd param0 = some cli') : cli'.Terminated := by
  cases param0 with
  | none =>
    obtain rfl := Option.some.inj h
    exact hcli
  | some param0 =>
    have hset :
        ({ cli with cmd := .ofBytes cmd, param0 := .after (some param0) } : Cli).Terminated := hcli
    exact terminated_runCatalog hset h

theorem terminated_go {cli cli' : Cli} {input : Input} (hcli : cli.Terminated)
    (h : cli.go magic options input = some cli') : cli'.Terminated := by
  unfold go at h
  split at h
  · obtain rfl := Option.some.inj h
    exact hcli
  · obtain rfl := Option.some.inj h
    exact hcli
  · have hset : ({ cli with cmd := .ofBytes (ascii "tables") } : Cli).Terminated := hcli
    exact terminated_runCatalog hset h
  · exact terminated_runTable hcli h
  · exact terminated_runTable hcli h
  · obtain ⟨⟨shown, cli₁⟩, hrun, rfl⟩ := Option.map_eq_some_iff.1 h
    exact (runQuery_some hcli hrun).1

theorem terminated_step {cli cli' : Cli} {input : Input} (hcli : cli.Terminated)
    (h : cli.step magic options input = some cli') : cli'.Terminated := by
  unfold step at h
  split at h
  · cases h
  · obtain ⟨cli₁, hgo, rfl⟩ := Option.map_eq_some_iff.1 h
    have hgone : cli₁.Terminated := terminated_go hcli hgo
    exact hgone
  · obtain rfl := Option.some.inj h
    exact hcli
  · split at h <;> obtain rfl := Option.some.inj h <;> exact hcli
  · obtain rfl := Option.some.inj h
    exact hcli

theorem terminated_run {cli : Cli} {inputs : List Input}
    (h : run (step magic options) {} inputs = some cli) : cli.Terminated :=
  run_keeps (fun _ _ _ _ => terminated_step) h (terminated_new .empty)

theorem param0_runCatalog {cli cli' : Cli} {server : Server} {dbcmd : Nat}
    {param0 : Option CString} (hcli : cli.Terminated)
    (h : cli.runCatalog magic options server dbcmd param0 = some cli') :
    cli'.param0 = cli.param0 := by
  obtain ⟨sql, -, h⟩ := Option.bind_eq_some_iff.1 h
  obtain ⟨⟨shown, cli₁⟩, hrun, rfl⟩ := Option.map_eq_some_iff.1 h
  exact (runQuery_some hcli hrun).2.2

theorem param0_runTable {cli cli' : Cli} {server : Server} {cmd : List UInt8} {dbcmd : Nat}
    {param0 : Option CString} (hcli : cli.Terminated)
    (h : cli.runTable magic options server cmd dbcmd param0 = some cli') :
    cli'.param0 = .after param0 := by
  cases param0 with
  | none =>
    obtain rfl := Option.some.inj h
    rfl
  | some param0 =>
    have hset :
        ({ cli with cmd := .ofBytes cmd, param0 := .after (some param0) } : Cli).Terminated := hcli
    exact param0_runCatalog hset h

/-- A `kill`, a `list columns` and a `list keys` leave a pointer to a freed block exactly if they
have a parameter, and nothing else moves it. -/
theorem param0_go {cli cli' : Cli} {input : Input} (hcli : cli.Terminated)
    (h : cli.go magic options input = some cli') :
    cli'.param0 =
      match goCommand cli.mybuf with
      | .kill param0 | .columns param0 | .pkey param0 => .after param0
      | .status | .tables | .plain => cli.param0 := by
  unfold go at h
  cases hcommand : goCommand cli.mybuf with
  | status | kill param0 =>
    rw [hcommand] at h
    obtain rfl := Option.some.inj h
    rfl
  | tables =>
    rw [hcommand] at h
    have hset : ({ cli with cmd := .ofBytes (ascii "tables") } : Cli).Terminated := hcli
    have hsame := param0_runCatalog hset h
    exact hsame
  | columns param0 | pkey param0 =>
    rw [hcommand] at h
    exact param0_runTable hcli h
  | plain =>
    rw [hcommand] at h
    obtain ⟨⟨shown, cli₁⟩, hrun, rfl⟩ := Option.map_eq_some_iff.1 h
    exact (runQuery_some hcli hrun).2.2

/-- A turn that does not clear `mybuf` works on nothing else, and the same way on any state. -/
theorem step_of_not_clears {cli cli' : Cli} {input : Input} (hclears : input.clears = false)
    (h : cli.step magic options input = some cli') :
    ({ mybuf := cli.mybuf } : Cli).step magic options input = some { mybuf := cli'.mybuf } := by
  unfold step at h ⊢
  unfold Input.clears at hclears
  split at h
  · cases h
  · rename_i hgo
    rw [hgo] at hclears
    cases hclears
  · rename_i hreset
    rw [hreset] at hclears
    cases hclears
  · split at h <;> obtain rfl := Option.some.inj h <;> rfl
  · obtain rfl := Option.some.inj h
    rfl

theorem mybuf_of_clears {cli cli' : Cli} {input : Input} (hclears : input.clears = true)
    (h : cli.step magic options input = some cli') : cli'.mybuf = .empty := by
  unfold step at h
  rcases of_decide_eq_true hclears with hcommand | hcommand <;> rw [hcommand] at h
  · obtain ⟨cli₁, -, rfl⟩ := Option.map_eq_some_iff.1 h
    rfl
  · obtain rfl := Option.some.inj h
    rfl

end Cli

/-! ## The text of a query -/

/-- What was entered since the last `go` or `reset`. -/
def pending (history : List Input) : List Input := history.rtakeWhile fun input => !input.clears

/-- In a new session it gives the same `mybuf`, and nothing else. -/
theorem run_pending {magic : CString} {options : Request} {history : List Input} {cli : Cli}
    (h : run (Cli.step magic options) {} history = some cli) :
    run (Cli.step magic options) {} (pending history) = some { mybuf := cli.mybuf } := by
  induction history using List.reverseRecOn generalizing cli with
  | nil =>
    obtain rfl := Option.some.inj h
    rfl
  | append_singleton history input ih =>
    rw [run_concat] at h
    obtain ⟨before, hbefore, hstep⟩ := Option.bind_eq_some_iff.1 h
    cases hclears : input.clears with
    | true =>
      rw [pending, List.rtakeWhile_concat_neg _ _ _ (by simp [hclears]),
        Cli.mybuf_of_clears hclears hstep]
      rfl
    | false =>
      have hpending : pending (history ++ [input]) = pending history ++ [input] :=
        List.rtakeWhile_concat_pos _ _ _ (by simp [hclears])
      rw [hpending, run_concat, ih hbefore]
      exact Cli.step_of_not_clears hclears hstep

end DbRelay
