import DbRelay.Lib.CArray
import DbRelay.Wire.Connector

/-!
# The client of a connector

`dbrelay_conn_send_request` sends the settings of a request, its SQL and the
command to run it, and collects the reply.

A `Net` is what a call sees of the socket: the events to come, and the bytes
sent so far.  It also logs the calls of the two socket functions with their
results.  Nothing reads the log but the results about broken sessions.

The two numbers of a request go through the array `tmp`.  A call whose number
does not fit ends there, as `RequestEnd.overflow`; `Request.NumbersFit` says for
which requests that does not happen.

`requestStream` is the concatenation of the strings that the function sends
for such a request.  `replyData` is what `dbrelay_db_run_query` does with the
reply.
-/

namespace DbRelay

open Framing Decimal

/-! ## The socket of a call -/

/-- The point of the exchange at which a socket function is called. -/
inductive Point
  | option (setting : Setting)
  | sqlBegin | sqlText | sqlNewline | sqlEnd | run
  deriving DecidableEq, Repr

inductive Call
  | send (point : Point) (ok : Bool)
  | recv (point : Point) (received : Received)
  deriving DecidableEq

structure Net where
  recvs : List RecvEvent
  sends : List SendEvent
  sent : List UInt8 := []
  calls : List Call := []
  deriving DecidableEq

/-- A call of `dbrelay_socket_send_string`. -/
def Net.send (net : Net) (point : Point) (str : List UInt8) : Bool × Net :=
  let result := sendString str net.sends
  (result.ok, { net with
    sends := result.events
    sent := net.sent ++ result.taken
    calls := net.calls ++ [.send point result.ok] })

/-- What a call of `dbrelay_socket_recv_string` leaves. -/
def Net.afterRecv (net : Net) (point : Point) (received : Received)
    (events : List RecvEvent) : Net :=
  { net with recvs := events, calls := net.calls ++ [.recv point received] }

/-! ## The strings -/

/-- The name that the client has for a setting. -/
def Setting.option : Setting → List UInt8
  | .name => ascii "NAME"
  | .port => ascii "PORT"
  | .server => ascii "SERVER"
  | .database => ascii "DATABASE"
  | .user => ascii "USER"
  | .password => ascii "PASSWORD"
  | .appname => ascii "APPNAME"
  | .timeout => ascii "TIMEOUT"
  | .flags => ascii "FLAGS"

/-- `":SET %s %s\n"`. -/
def setString (option value : List UInt8) : List UInt8 :=
  ascii ":SET " ++ option ++ ascii " " ++ value ++ ascii "\n"

/-- The options that `dbrelay_conn_send_request` sets, in order.  A password
is sent only when there is one.  The texts of the numbers are those that
`sprintf` writes into `tmp`. -/
def Request.options (request : Request) : List (Setting × List UInt8) :=
  [(.server, request.sqlServer.bytes),
    (.database, request.sqlDatabase.bytes),
    (.user, request.sqlUser.bytes)] ++
  (if request.sqlPassword.isSet then [(.password, request.sqlPassword.bytes)] else []) ++
  [(.timeout, decimalInt request.connectionTimeout.toInt),
    (.flags, decimal request.flags.toNat),
    (.appname, request.connectionName.bytes)]

/-- `request->sql`.  `dbrelay_check_request` lets no `NULL` pass. -/
def Request.sqlText (request : Request) : List UInt8 :=
  (request.sql.getD .empty).bytes

/-- The strings of the SQL phase. -/
def Request.sqlStrings (request : Request) : List (Point × List UInt8) :=
  [(.sqlBegin, ascii ":SQL BEGIN\n"),
    (.sqlText, request.sqlText),
    (.sqlNewline, ascii "\n"),
    (.sqlEnd, ascii ":SQL END\n")]

/-- All that `dbrelay_conn_send_request` sends, when the numbers fit `tmp`. -/
def requestStream (request : Request) : List UInt8 :=
  (request.options.map fun o => setString o.1.option o.2).flatten ++
    (request.sqlStrings.map Prod.snd).flatten ++ ascii ":RUN\n"

/-! ## The numbers -/

/-- `sizeof(tmp)`. -/
def tmpSz : Nat := 20

/-- The string in `tmp` after the `sprintf` of a number with this text.  `none`
writes past the array. -/
def tmpText (number : List UInt8) : Option (List UInt8) :=
  (CArray.write (Vector.replicate tmpSz 0) 0 (number ++ [0])).map CArray.string

/-- The value that `dbrelay_conn_set_option` gets.  The timeout and the flags
come from `tmp`. -/
def optionValue (setting : Setting) (value : List UInt8) : Option (List UInt8) :=
  match setting with
  | .timeout | .flags => tmpText value
  | _ => some value

/-- `tmp` holds the numbers of the request. -/
def Request.NumbersFit (request : Request) : Prop :=
  -10 ^ 18 < request.connectionTimeout.toInt ∧ request.flags.toNat < 10 ^ 19

instance (request : Request) : Decidable request.NumbersFit := instDecidableAnd

theorem tmpText_eq_some {number : List UInt8} (hnul : 0 ∉ number)
    (hlen : number.length < tmpSz) : tmpText number = some number := by
  have hfits : ([] : List UInt8).length + (number ++ [0]).length ≤ tmpSz := by
    rw [List.length_nil, Nat.zero_add, List.length_append, List.length_singleton]
    exact hlen
  obtain ⟨a, hwrite, hprefix⟩ :=
    CArray.write_append (List.nil_prefix (l := (Vector.replicate tmpSz (0 : UInt8)).toList))
      (number ++ [0]) hfits
  rw [tmpText, show (0 : Nat) = ([] : List UInt8).length from rfl, hwrite, Option.map_some,
    CArray.string_of_prefix hnul hprefix]

theorem tmpText_eq_none {number : List UInt8} (hlen : tmpSz ≤ number.length) :
    tmpText number = none := by
  have hpast : tmpSz < 0 + (number ++ [0]).length := by
    rw [Nat.zero_add, List.length_append, List.length_singleton]
    exact Nat.lt_succ_of_le hlen
  rw [tmpText, CArray.write_eq_none (by simp) hpast, Option.map_none]

/-- The text of a timeout is shorter than `tmp` from the least number with 18
digits on. -/
theorem length_timeout_lt_iff (timeout : Int64) :
    (decimalInt timeout.toInt).length < tmpSz ↔ -10 ^ 18 < timeout.toInt := by
  have hle := @length_decimalInt_le_iff timeout.toInt 18 (by decide)
  have hhigh := timeout.toInt_lt
  rw [tmpSz, Nat.lt_succ_iff, hle]
  exact and_iff_left (by omega)

theorem length_flags_lt_iff (flags : UInt64) :
    (decimal flags.toNat).length < tmpSz ↔ flags.toNat < 10 ^ 19 := by
  rw [tmpSz, Nat.lt_succ_iff, length_decimal_le_iff (by decide)]

/-- A request whose numbers fit sends the texts of its options. -/
theorem Request.NumbersFit.optionValue {request : Request} (h : request.NumbersFit) :
    ∀ o ∈ request.options, optionValue o.1 o.2 = some o.2 := by
  have htimeout : tmpText (decimalInt request.connectionTimeout.toInt) =
      some (decimalInt request.connectionTimeout.toInt) :=
    tmpText_eq_some (not_mem_decimalInt (by decide)) ((length_timeout_lt_iff _).2 h.1)
  have hflags : tmpText (decimal request.flags.toNat) = some (decimal request.flags.toNat) :=
    tmpText_eq_some (not_mem_decimal (by decide)) ((length_flags_lt_iff _).2 h.2)
  intro o hmem
  simp only [Request.options, List.mem_append, List.mem_cons, List.not_mem_nil, or_false] at hmem
  rcases hmem with ((rfl | rfl | rfl) | hpassword) | rfl | rfl | rfl
  · rfl
  · rfl
  · rfl
  · split at hpassword
    · rw [List.mem_singleton.1 hpassword]
      rfl
    · cases hpassword
  · exact htimeout
  · exact hflags
  · rfl

/-- A request whose numbers do not fit has an option that writes past `tmp`. -/
theorem Request.overflow_of_not_fits {request : Request} (h : ¬ request.NumbersFit) :
    ∃ o ∈ request.options, DbRelay.optionValue o.1 o.2 = none := by
  rw [Request.NumbersFit, not_and_or, ← length_timeout_lt_iff, ← length_flags_lt_iff,
    Nat.not_lt, Nat.not_lt] at h
  rcases h with htimeout | hflags
  · exact ⟨(.timeout, decimalInt request.connectionTimeout.toInt), by simp [Request.options],
      tmpText_eq_none htimeout⟩
  · exact ⟨(.flags, decimal request.flags.toNat), by simp [Request.options],
      tmpText_eq_none hflags⟩

/-! ## The exchange -/

/-- `dbrelay_conn_set_option`.  It has its own `in_buf`, and ignores what it
receives.  `none` is a call that still waits. -/
def connSetOption (net : Net) (setting : Setting) (value : List UInt8) :
    Option (Bool × Net) :=
  match net.send (.option setting) (setString setting.option value) with
  | (false, net) => some (false, net)
  | (true, net) =>
    match recvString {} net.recvs with
    | .waiting => none
    | .returned received _ events =>
      some (true, net.afterRecv (.option setting) received events)

/-- How the option phase ends. -/
inductive OptionsEnd
  | sent
  | failed
  /-- A number was written past `tmp`. -/
  | overflow
  deriving DecidableEq, Repr

/-- The option phase, up to the first send that fails. -/
def setOptions (net : Net) : List (Setting × List UInt8) → Option (OptionsEnd × Net)
  | [] => some (.sent, net)
  | (setting, value) :: options =>
    match optionValue setting value with
    | none => some (.overflow, net)
    | some value =>
      match connSetOption net setting value with
      | none => none
      | some (false, net) => some (.failed, net)
      | some (true, net) => setOptions net options

/-- The SQL phase, up to the first send that fails. -/
def sendStrings (net : Net) : List (Point × List UInt8) → Bool × Net
  | [] => (true, net)
  | (point, str) :: strings =>
    match net.send point str with
    | (true, net) => sendStrings net strings
    | (false, net) => (false, net)

/-- The text of `dbrelay_conn_socket_error`. -/
def socketErrorText : List UInt8 :=
  ascii "Internal Error: connector terminated connection unexpectedly."

/-- The variables of the loop that receives the reply. -/
structure Reply where
  results : Bool := false
  errors : Bool := false
  error : Nat := 0
  text : List UInt8 := []
  deriving DecidableEq

/-- A line without its newline. -/
def trimLine (line : List UInt8) : List UInt8 :=
  if line.getLast? = some newline then line.dropLast else line

/-- The lines that end the loop. -/
def lastLine (line : List UInt8) : Bool :=
  decide (line = ascii ":BYE" ∨ line = ascii ":OK" ∨ line = ascii ":ERR")

/-- The loop body for one line.  `none` is the `break`. -/
def Reply.takeLine (reply : Reply) (line : List UInt8) : Option Reply :=
  let line := trimLine line
  if lastLine line then none
  else
    let results := reply.results && decide (line ≠ ascii ":RESULTS END")
    let errors := reply.errors && decide (line ≠ ascii ":ERROR END")
    let text := if results || errors then reply.text ++ line else reply.text
    let results := results || decide (line = ascii ":RESULTS BEGIN")
    if line = ascii ":ERROR BEGIN" then
      some { results := results, errors := true, error := 1, text := text }
    else
      some { results := results, errors := errors, error := reply.error, text := text }

/-- The loop that receives the reply, and the end of the function. -/
def receiveReply (net : Net) (reply : Reply) (inBuf : InBuf) :
    Option ((List UInt8 × Nat) × Net) :=
  match _h : recvString inBuf net.recvs with
  | .waiting => none
  | .returned .failed _ events =>
    some ((socketErrorText, 2), net.afterRecv .run .failed events)
  | .returned .closed _ events =>
    some ((reply.text, reply.error), net.afterRecv .run .closed events)
  | .returned (.line line) inBuf' events =>
    let net' := net.afterRecv .run (.line line) events
    match reply.takeLine line with
    | none => some ((reply.text, reply.error), net')
    | some reply => receiveReply net' reply inBuf'
termination_by recvWeight inBuf net.recvs
decreasing_by exact recvString_weight ‹_›

theorem receiveReply_eq (net : Net) (reply : Reply) (inBuf : InBuf) :
    receiveReply net reply inBuf =
      match recvString inBuf net.recvs with
      | .waiting => none
      | .returned .failed _ events =>
        some ((socketErrorText, 2), net.afterRecv .run .failed events)
      | .returned .closed _ events =>
        some ((reply.text, reply.error), net.afterRecv .run .closed events)
      | .returned (.line line) inBuf' events =>
        match reply.takeLine line with
        | none => some ((reply.text, reply.error), net.afterRecv .run (.line line) events)
        | some reply => receiveReply (net.afterRecv .run (.line line) events) reply inBuf' := by
  rw [receiveReply]
  split <;> rename_i h <;> rw [h]

/-- `dbrelay_conn_send_request` from the receive that follows `:SQL END`. -/
def runAndReceive (net : Net) : Option ((List UInt8 × Nat) × Net) :=
  match recvString {} net.recvs with
  | .waiting => none
  | .returned received inBuf events =>
    match (net.afterRecv .sqlEnd received events).send .run (ascii ":RUN\n") with
    -- `*error` is 0 since before the receive.
    | (false, net) => some ((socketErrorText, 0), net)
    | (true, net) => receiveReply net {} inBuf

/-- How `dbrelay_conn_send_request` ends. -/
inductive RequestEnd
  /-- The text and `*error`. -/
  | returned (text : List UInt8) (error : Nat)
  /-- A number was written past `tmp`. -/
  | overflow
  deriving DecidableEq, Repr

/-- `dbrelay_conn_send_request`.  `none` is a call that still waits. -/
def connSendRequest (request : Request) (net : Net) : Option (RequestEnd × Net) :=
  match setOptions net request.options with
  | none => none
  | some (.overflow, net) => some (.overflow, net)
  | some (.failed, net) => some (.returned socketErrorText 2, net)
  | some (.sent, net) =>
    match sendStrings net request.sqlStrings with
    | (false, net) => some (.returned socketErrorText 2, net)
    | (true, net) => (runAndReceive net).map fun result =>
        (.returned result.1.1 result.1.2, result.2)

/-- What `dbrelay_db_run_query` inserts into the response as query data. -/
def replyData (text : List UInt8) (error : Nat) : Option (List UInt8) :=
  if error ≠ 0 then none
  else if text = [] then none
  else some text

end DbRelay
