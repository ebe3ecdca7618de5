import DbRelay.Wire.Client

/-!
# What the connector makes of the client's stream

The client sends values and SQL in-band, and the connector sees pieces.  This
module says when the commands on which the connector acts are the ones that
were issued.

* Options: an option line with a value that has no newline is one piece, and
  the connector stores what fits its buffer.
* The SQL body: the connector collects pieces until one starts with
  `":SQL END"`.
* `serve_commands_iff`: the commands are the issued ones if and only if the
  request is `CleanlyFramed`.
-/

namespace DbRelay

open Framing Decimal

/-! ## Lines -/

theorem checkCommand_cons (b : UInt8) (line command : List UInt8) :
    checkCommand (b :: line) command = command.isPrefixOf line := by
  rw [Bool.eq_iff_iff, checkCommand, List.isPrefixOf_iff_prefix, Bool.and_eq_true,
    decide_eq_true_eq, decide_eq_true_eq, List.drop_one, List.tail_cons]
  constructor
  · intro hgiven
    obtain ⟨-, h⟩ := hgiven
    rw [← h]
    exact List.take_prefix _ _
  · intro h
    exact ⟨Nat.succ_le_succ h.length_le, (List.prefix_iff_eq_take.1 h).symm⟩

theorem copyString_bytes {size : Nat} [NeZero size] {src : List UInt8} (hnul : 0 ∉ src) :
    (copyString src : CharBuf size).bytes = src.take (size - 1) := by
  show (CString.ofBytes src).bytes.take (size - 1) = _
  rw [CString.ofBytes_bytes_eq_iff.2 hnul]

/-- The size of the buffer that a value is copied into. -/
def Setting.size : Setting → Nat
  | .name | .server | .appname => nameSz
  | .port => portSz
  | .database | .user | .password => objSz
  | .timeout | .flags => numberSz

/-- The connector after an option with a value. -/
def Connector.put (c : Connector) (option : Setting × List UInt8) : Connector :=
  ((c.store (some option.2) option.1).map Prod.fst).getD c

/-- A value is stored up to the size of its buffer. -/
theorem Connector.store_some (c : Connector) {setting : Setting} (hname : setting ≠ .name)
    {value : List UInt8} (hnul : 0 ∉ value) :
    c.store (some value) setting =
      some (c.put (setting, value), value.take (setting.size - 1)) := by
  cases setting with
  | name => exact absurd rfl hname
  | _ =>
    simp only [Connector.put, Connector.store, Option.elim_some, Option.map_some,
      Setting.size, copyString_bytes hnul, Option.getD_some]

/-- An option changes the request and `timeout_str` only. -/
theorem Connector.put_receiveSql (c : Connector) (option : Setting × List UInt8) :
    (c.put option).receiveSql = c.receiveSql := by
  obtain ⟨setting, value⟩ := option
  cases setting <;> rfl

/-- The command that the connector looks for is the one that the client sends. -/
theorem Setting.command_eq (setting : Setting) :
    setting.command = ascii "SET " ++ setting.option := by
  cases setting <;> rfl

/-- No control character is in a command. -/
theorem Setting.le_of_mem_command {setting : Setting} {b : UInt8} (h : b ∈ setting.command) :
    32 ≤ b := by
  have hall : setting.command.all (fun b => decide (32 ≤ b)) = true := by
    cases setting <;> rfl
  exact of_decide_eq_true (List.all_eq_true.1 hall b h)

theorem setString_eq (setting : Setting) (value : List UInt8) :
    setString setting.option value =
      58 :: (setting.command ++ 32 :: value) ++ [newline] := by
  have hstart : ascii ":SET " = 58 :: ascii "SET " := rfl
  have hblank : ascii " " = [32] := rfl
  have hend : ascii "\n" = [newline] := rfl
  rw [setString, hstart, hblank, hend, setting.command_eq]
  simp only [List.append_assoc, List.cons_append, List.nil_append]

/-- The line that the client sends for an option is a command for the same
option. -/
theorem processCommand_setString (c : Connector) (setting : Setting) (value : List UInt8) :
    c.processCommand (setString setting.option value) =
      (c.store (some value) setting).map fun (c, value) => (c, some (.set setting value)) := by
  have hother : ∀ command ∈ [ascii "HELO", ascii "QUIT", ascii "RUN", ascii "DIE"],
      checkCommand (58 :: (setting.command ++ 32 :: value)) command = false := by
    intro command hmem
    rw [checkCommand_cons, setting.command_eq]
    simp only [List.mem_cons, List.not_mem_nil, or_false] at hmem
    rcases hmem with rfl | rfl | rfl | rfl <;> rfl
  have hfind : settings.find? (fun s =>
      checkCommand (58 :: (setting.command ++ 32 :: value)) s.command) = some setting := by
    simp only [checkCommand_cons]
    cases setting <;> rfl
  have hvalue : commandValue (58 :: (setting.command ++ 32 :: value)) setting.command =
      some value := by
    rw [commandValue, if_pos (by simp), List.drop_succ_cons, ← List.drop_drop,
      List.drop_left, List.drop_one, List.tail_cons]
  rw [setString_eq, Connector.processCommand, if_neg (by simp)]
  simp only [List.getLast?_append, List.getLast?_singleton, Option.some_or, ↓reduceIte,
    List.dropLast_concat, List.head?_cons, ne_eq, not_true_eq_false, hfind, hvalue]
  rw [hother _ (by simp), hother _ (by simp), hother _ (by simp), hother _ (by simp)]
  rfl

/-- A line of an SQL body is one that does not start with `":SQL END"`. -/
theorem bodyLine_iff {line : List UInt8} :
    bodyLine line = true ↔ ¬ ascii ":SQL END" <+: line := by
  have h8 : (ascii ":SQL END").length = 8 := by decide
  rw [bodyLine, Bool.or_eq_true, decide_eq_true_eq, decide_eq_true_eq]
  constructor
  · rintro (h | h) hpre
    · have := hpre.length_le
      omega
    · exact h ((List.prefix_iff_eq_take.1 hpre).symm ▸ h8 ▸ rfl)
  · intro h
    by_cases hlen : line.length < 8
    · exact .inl hlen
    · refine .inr fun heq => h ?_
      rw [← heq]
      exact List.take_prefix _ _

/-! ## Turns -/

/-- The session after a turn. -/
def Turn.session : Turn → Session
  | .continues s => s
  | .stops s _ => s

/-- An answer adds no command. -/
theorem Session.respond_trace (s : Session) (backend : Backend) (pid : Nat) (ret : Ret) :
    (s.respond backend pid ret).session.trace = s.trace := by
  cases ret with
  | run =>
    show (s.run backend).session.trace = s.trace
    unfold Session.run
    split <;> rfl
  | _ => rfl

/-- It changes only `connected` in the connector. -/
theorem Session.respond_connector (s : Session) (backend : Backend) (pid : Nat) (ret : Ret) :
    ∃ connected, (s.respond backend pid ret).session.connector =
      { s.connector with connected := connected } := by
  cases ret with
  | run =>
    show ∃ connected, (s.run backend).session.connector =
      { s.connector with connected := connected }
    unfold Session.run
    split <;> exact ⟨_, rfl⟩
  | _ => exact ⟨s.connector.connected, rfl⟩

/-- A line that is a command adds that command. -/
theorem Session.takeLine_commands {s : Session} {line : List UInt8} {c : Connector}
    {command : Command} (h : s.connector.processLine line = some (c, some command))
    (backend : Backend) (pid : Nat) :
    (s.takeLine backend pid line).session.commands = s.commands ++ [command] := by
  unfold Session.takeLine Session.commands
  rw [h]
  simp only [Session.respond_trace, List.map_append, List.map_cons, List.map_nil]

/-- A line takes no command back. -/
theorem Session.commands_prefix_takeLine (s : Session) (backend : Backend) (pid : Nat)
    (line : List UInt8) :
    s.commands <+: (s.takeLine backend pid line).session.commands := by
  cases h : s.connector.processLine line with
  | none =>
    rw [Session.takeLine, h]
    exact List.prefix_rfl
  | some result =>
    obtain ⟨c, command⟩ := result
    cases command with
    | none =>
      rw [Session.takeLine, h]
      exact List.prefix_rfl
    | some command =>
      rw [Session.takeLine_commands h]
      exact List.prefix_append _ _

/-- The first line of several, and those after it. -/
theorem session_prefix_serveLines (backend : Backend) (pid : Nat) (s : Session)
    (line : List UInt8) (lines : List (List UInt8)) :
    (s.takeLine backend pid line).session.commands <+:
      (serveLines backend pid s (line :: lines)).1.commands := by
  induction lines generalizing s line with
  | nil =>
    rw [serveLines]
    cases s.takeLine backend pid line <;> exact List.prefix_rfl
  | cons next lines ih =>
    rw [serveLines]
    cases s.takeLine backend pid line with
    | stops s how => exact List.prefix_rfl
    | continues s => exact (s.commands_prefix_takeLine backend pid next).trans (ih s next)

/-- A first line that is a command fixes the next command. -/
theorem next_command {s : Session} {line : List UInt8} {c : Connector} {command : Command}
    (h : s.connector.processLine line = some (c, some command)) (backend : Backend) (pid : Nat)
    (lines : List (List UInt8)) :
    s.commands ++ [command] <+: (serveLines backend pid s (line :: lines)).1.commands := by
  have hpre := session_prefix_serveLines backend pid s line lines
  rwa [Session.takeLine_commands h] at hpre

/-! ## The option phase -/

/-- A session after an option whose line arrived as one piece. -/
def Session.takeOption (s : Session) (option : Setting × List UInt8) : Session :=
  { connector := s.connector.put option
    trace := s.trace ++
      [(.set option.1 (option.2.take (option.1.size - 1)), (s.connector.put option).request)]
    sent := s.sent ++ ascii ":OK\n" }

theorem Session.processLine_setString (s : Session) {setting : Setting}
    (hname : setting ≠ .name) {value : List UInt8}
    (hmode : s.connector.receiveSql = false) (hnul : 0 ∉ value) :
    s.connector.processLine (setString setting.option value) =
      some (s.connector.put (setting, value),
        some (.set setting (value.take (setting.size - 1)))) := by
  rw [Connector.processLine, hmode, Bool.false_and, if_neg Bool.false_ne_true,
    processCommand_setString, Connector.store_some _ hname hnul]
  rfl

theorem Session.takeLine_setString (s : Session) (backend : Backend) (pid : Nat)
    {setting : Setting} (hname : setting ≠ .name) {value : List UInt8}
    (hmode : s.connector.receiveSql = false) (hnul : 0 ∉ value) :
    s.takeLine backend pid (setString setting.option value) =
      .continues (s.takeOption (setting, value)) := by
  rw [Session.takeLine, s.processLine_setString hname hmode hnul]
  rfl

/-- What `dbrelay_conn_set_option` sends for several options. -/
def optionStream (options : List (Setting × List UInt8)) : List UInt8 :=
  (options.map fun o => setString o.1.option o.2).flatten

/-- Room for the longest value in one piece. -/
def optionSize : Nat := 128

/-- An option that the client may set: not the name, whose branch logs an argument that is
not there, and a C string that fits one piece. -/
structure IsOption (option : Setting × List UInt8) : Prop where
  named : option.1 ≠ .name
  noNul : 0 ∉ option.2
  short : option.2.length ≤ optionSize

/-- A value without a newline is one piece. -/
theorem cut_setString (setting : Setting) {value : List UInt8} (hline : newline ∉ value)
    (hlen : value.length ≤ optionSize) (t : List UInt8) :
    (cut newline pieceSize [] (setString setting.option value ++ t)).1 =
      setString setting.option value :: (cut newline pieceSize [] t).1 := by
  rw [setString_eq, List.append_assoc, List.singleton_append]
  refine cut_line t ?_ ?_
  · have hcommand : newline ∉ setting.command := by
      intro hmem
      exact absurd (Setting.le_of_mem_command hmem) (by decide)
    simp only [List.mem_cons, List.mem_append, not_or]
    exact ⟨by decide, hcommand, by decide, hline⟩
  · have hcommand : setting.command.length ≤ optionSize := by
      cases setting <;> decide
    simp only [List.length_cons, List.length_append]
    unfold optionSize at hlen hcommand
    unfold pieceSize socketBufsize
    omega

/-- An option arrives with its full value. -/
def ArrivesWhole (option : Setting × List UInt8) : Prop :=
  newline ∉ option.2 ∧ option.2.length ≤ option.1.size - 1

theorem receiveSql_foldl {s : Session} (options : List (Setting × List UInt8)) :
    (options.foldl Session.takeOption s).connector.receiveSql = s.connector.receiveSql := by
  induction options generalizing s with
  | nil => rfl
  | cons option options ih =>
    rw [List.foldl_cons, ih]
    exact s.connector.put_receiveSql option

/-- Options whose values have no newline. -/
theorem serveLines_options (backend : Backend) (pid : Nat) {s : Session}
    (hmode : s.connector.receiveSql = false) {options : List (Setting × List UInt8)}
    (hopts : ∀ o ∈ options, newline ∉ o.2 ∧ IsOption o) (t : List UInt8) :
    serveLines backend pid s (cut newline pieceSize [] (optionStream options ++ t)).1 =
      serveLines backend pid (options.foldl Session.takeOption s)
        (cut newline pieceSize [] t).1 := by
  induction options generalizing s with
  | nil => rfl
  | cons option options ih =>
    obtain ⟨setting, value⟩ := option
    obtain ⟨hline, hname, hnul, hlen⟩ := hopts _ List.mem_cons_self
    rw [optionStream, List.map_cons, List.flatten_cons, List.append_assoc,
      cut_setString setting hline hlen, serveLines,
      s.takeLine_setString backend pid hname hmode hnul]
    exact ih ((s.connector.put_receiveSql _).trans hmode)
      fun o ho => hopts o (List.mem_cons_of_mem _ ho)

/-- The line of a value that has a newline ends at the first one. -/
theorem setString_split (option : List UInt8) {line more : List UInt8} (rest : List UInt8) :
    setString option (line ++ newline :: more) ++ rest =
      setString option line ++ (more ++ newline :: rest) := by
  have hnewline : ascii "\n" = [newline] := rfl
  simp only [setString, hnewline, List.append_assoc, List.cons_append, List.nil_append]

/-- If the commands are the issued ones, every option arrived with its full
value. -/
theorem arrivesWhole_of_commands (backend : Backend) (pid : Nat) {s : Session}
    (hmode : s.connector.receiveSql = false) {options : List (Setting × List UInt8)}
    (hopts : ∀ o ∈ options, IsOption o) {t : List UInt8}
    {more : List Command}
    (h : (serveLines backend pid s
        (cut newline pieceSize [] (optionStream options ++ t)).1).1.commands =
      s.commands ++ (options.map fun o => .set o.1 o.2) ++ more) :
    ∀ o ∈ options, ArrivesWhole o := by
  induction options generalizing s with
  | nil => exact fun o ho => by cases ho
  | cons option options ih =>
    obtain ⟨setting, value⟩ := option
    obtain ⟨hname, hnul, hlen⟩ := hopts _ List.mem_cons_self
    -- Whatever the first line holds of the value fixes the first command.
    have hfirst : ∀ {line tail : List UInt8}, newline ∉ line → line <+: value →
        optionStream ((setting, value) :: options) ++ t =
          setString setting.option line ++ tail →
        line.take (setting.size - 1) = value := by
      intro line tail hline hpre hstream
      have hnul' : 0 ∉ line := fun hmem => hnul (hpre.subset hmem)
      have hnext := next_command (s.processLine_setString hname hmode hnul') backend pid
        (cut newline pieceSize [] tail).1
      rw [← cut_setString setting hline (hpre.length_le.trans hlen), ← hstream, h,
        List.append_assoc, List.prefix_append_right_inj] at hnext
      have hhead := (List.cons_prefix_cons.1 hnext).1
      exact (Command.set.inj hhead).2
    have hstream : optionStream ((setting, value) :: options) ++ t =
        setString setting.option value ++ (optionStream options ++ t) := by
      rw [optionStream, List.map_cons, List.flatten_cons, List.append_assoc, optionStream]
    have hline : newline ∉ value := by
      intro hmem
      obtain ⟨line, rest, rfl, hline⟩ := List.eq_append_cons_of_mem hmem
      have htake := hfirst hline (List.prefix_append _ _) (hstream.trans (setString_split _ _))
      have hlength := congrArg List.length htake
      have hle := List.length_take_le' (setting.size - 1) line
      simp only [List.length_append, List.length_cons] at hlength
      omega
    have htake : value.take (setting.size - 1) = value :=
      hfirst hline List.prefix_rfl hstream
    have hwhole : ArrivesWhole (setting, value) := ⟨hline, List.take_eq_self_iff _ |>.1 htake⟩
    have hrest : ∀ o ∈ options, ArrivesWhole o := by
      refine @ih (s.takeOption (setting, value)) ((s.connector.put_receiveSql _).trans hmode)
        (fun o ho => hopts o (List.mem_cons_of_mem _ ho)) ?_
      have hserve := h
      rw [hstream, cut_setString setting hline hlen, serveLines,
        s.takeLine_setString backend pid hname hmode hnul] at hserve
      rw [hserve, List.map_cons, Session.takeOption, Session.commands, Session.commands, htake]
      simp only [List.map_append, List.map_cons, List.map_nil, List.append_assoc,
        List.cons_append, List.nil_append]
    intro o ho
    rcases List.mem_cons.1 ho with rfl | ho
    · exact hwhole
    · exact hrest o ho

/-! ## The SQL phase -/

/-- A session that collects an SQL body. -/
def Session.collecting (s : Session) (body : List UInt8) : Session :=
  { s with connector := { s.connector with receiveSql := true, sbSql := .opened body } }

@[simp] theorem Session.collecting_collecting (s : Session) (body body' : List UInt8) :
    (s.collecting body).collecting body' = s.collecting body' := rfl

@[simp] theorem Session.collecting_commands (s : Session) (body : List UInt8) :
    (s.collecting body).commands = s.commands := rfl

/-- Adds a command, with the request of the connector at that moment. -/
def Session.record (s : Session) (command : Command) : Session :=
  { s with trace := s.trace ++ [(command, s.connector.request)] }

@[simp] theorem Session.record_commands (s : Session) (command : Command) :
    (s.record command).commands = s.commands ++ [command] := by
  rw [Session.commands, Session.record, List.map_append]
  rfl

/-- The session after `":SQL BEGIN"`. -/
def Session.beginSql (s : Session) : Session :=
  (({ s with connector :=
    { s.connector with request := { s.connector.request with sql := none } } } :
      Session).record .sqlBegin).collecting []

/-- The session after `":SQL END"`. -/
def Session.endSql (s : Session) (body : List UInt8) : Session :=
  (({ s with
    connector := { s.connector with
      receiveSql := false
      request := { s.connector.request with sql := some (.ofBytes body) }
      sbSql := .freed } } : Session).record (.sqlEnd body)).send (ascii ":OK\n")

/-- A trailing newline is cut off. -/
theorem trimLine_append {first rest : List UInt8} (hfirst : first.getLast? ≠ some newline) :
    trimLine (first ++ rest) = first ++ trimLine rest := by
  cases hrest : rest with
  | nil =>
    rw [List.append_nil, trimLine, if_neg hfirst, trimLine, if_neg (by simp), List.append_nil]
  | cons b bs =>
    rw [trimLine, trimLine, List.getLast?_append,
      List.dropLast_append_of_ne_nil (List.cons_ne_nil _ _),
      List.getLast?_eq_some_getLast (List.cons_ne_nil b bs), Option.some_or]
    split <;> rfl

/-- A line that starts with `":SQL "`. -/
theorem processCommand_sql (c : Connector) (rest : List UInt8) :
    c.processCommand (ascii ":SQL " ++ rest) = c.sqlCommand (some (trimLine rest)) := by
  have htrim := @trimLine_append (ascii ":SQL ") rest (by decide)
  rw [trimLine] at htrim
  have hline : ascii ":SQL " ++ trimLine rest = 58 :: (ascii "SQL " ++ trimLine rest) := rfl
  have hother : ∀ command ∈ [ascii "HELO", ascii "QUIT", ascii "RUN", ascii "DIE"],
      checkCommand (58 :: (ascii "SQL " ++ trimLine rest)) command = false := by
    intro command hmem
    rw [checkCommand_cons]
    simp only [List.mem_cons, List.not_mem_nil, or_false] at hmem
    rcases hmem with rfl | rfl | rfl | rfl <;> rfl
  have hfind : settings.find? (fun setting =>
      checkCommand (58 :: (ascii "SQL " ++ trimLine rest)) setting.command) = none := by
    simp only [checkCommand_cons]
    rfl
  have hsql : checkCommand (58 :: (ascii "SQL " ++ trimLine rest)) (ascii "SQL") = true := by
    rw [checkCommand_cons]
    rfl
  have hvalue : commandValue (58 :: (ascii "SQL " ++ trimLine rest)) (ascii "SQL") =
      some (trimLine rest) := by
    have hlength : (ascii "SQL").length = 3 ∧ (ascii "SQL ").length = 4 := by decide
    rw [commandValue, if_pos]
    · rfl
    · rw [List.length_cons, List.length_append, hlength.1, hlength.2]
      omega
  rw [Connector.processCommand, if_neg (by simp [ascii])]
  simp only [htrim, hline, List.head?_cons, ne_eq, not_true_eq_false, ↓reduceIte, hfind, hsql,
    hvalue]
  rw [hother _ (by simp), hother _ (by simp), hother _ (by simp), hother _ (by simp)]
  rfl

/-- The line that opens an SQL body. -/
theorem Session.takeLine_sqlBegin (s : Session) (backend : Backend) (pid : Nat)
    (hmode : s.connector.receiveSql = false) :
    s.takeLine backend pid (ascii ":SQL BEGIN\n") = .continues s.beginSql := by
  have hline := processCommand_sql s.connector (ascii "BEGIN\n")
  have happend : ascii ":SQL " ++ ascii "BEGIN\n" = ascii ":SQL BEGIN\n" := by decide
  rw [happend] at hline
  rw [Session.takeLine, Connector.processLine, hmode, Bool.false_and,
    if_neg Bool.false_ne_true, hline]
  rfl

/-- The next line of an SQL body. -/
theorem Session.takeLine_body (s : Session) (backend : Backend) (pid : Nat)
    {body line : List UInt8} (hline : ¬ ascii ":SQL END" <+: line) :
    (s.collecting body).takeLine backend pid line =
      .continues (s.collecting (body ++ line)) := by
  rw [Session.takeLine, Connector.processLine]
  have hbody : ((s.collecting body).connector.receiveSql && bodyLine line) = true :=
    bodyLine_iff.2 hline
  rw [if_pos hbody]
  rfl

/-- The lines of an SQL body. -/
theorem serveLines_body (backend : Backend) (pid : Nat) (s : Session) {body : List UInt8}
    {lines : List (List UInt8)} (hlines : ∀ line ∈ lines, ¬ ascii ":SQL END" <+: line)
    (rest : List (List UInt8)) :
    serveLines backend pid (s.collecting body) (lines ++ rest) =
      serveLines backend pid (s.collecting (body ++ lines.flatten)) rest := by
  induction lines generalizing body with
  | nil => rw [List.nil_append, List.flatten_nil, List.append_nil]
  | cons line lines ih =>
    rw [List.cons_append, serveLines,
      s.takeLine_body backend pid (hlines line List.mem_cons_self), List.flatten_cons,
      ← List.append_assoc]
    exact ih fun l hl => hlines l (List.mem_cons_of_mem _ hl)

/-- A line that starts with `":SQL END"` is a command, and the end of the body
if nothing follows. -/
theorem Session.processLine_sqlEnd (s : Session) (body : List UInt8) {line : List UInt8}
    (hline : ascii ":SQL END" <+: line) :
    ∃ c command, (s.collecting body).connector.processLine line = some (c, some command) ∧
      (command = .sqlEnd body ∨ command = .err) := by
  have hbody : ((s.collecting body).connector.receiveSql && bodyLine line) = false := by
    rw [Bool.and_eq_false_iff]
    right
    rw [Bool.eq_false_iff]
    exact fun h => bodyLine_iff.1 h hline
  obtain ⟨rest, rfl⟩ := hline
  have happend : ascii ":SQL END" ++ rest = ascii ":SQL " ++ (ascii "END" ++ rest) := rfl
  rw [Connector.processLine, hbody, if_neg Bool.false_ne_true, happend, processCommand_sql,
    Connector.sqlCommand]
  have hnotBegin : (copyString (trimLine (ascii "END" ++ rest)) :
      CharBuf argSz).bytes ≠ ascii "BEGIN" := by
    rw [trimLine_append (by decide)]
    intro h
    exact absurd (congrArg List.head? h) (by simp [copyString, CharBuf.ofCString,
      CString.ofBytes, ascii, argSz])
  simp only [if_neg hnotBegin]
  split
  · exact ⟨_, _, rfl, .inl rfl⟩
  · exact ⟨_, _, rfl, .inr rfl⟩

/-- The line that ends an SQL body. -/
theorem Session.takeLine_sqlEnd (s : Session) (backend : Backend) (pid : Nat)
    (body : List UInt8) :
    (s.collecting body).takeLine backend pid (ascii ":SQL END\n") =
      .continues (s.endSql body) := by
  have hline := processCommand_sql (s.collecting body).connector (ascii "END\n")
  have happend : ascii ":SQL " ++ ascii "END\n" = ascii ":SQL END\n" := by decide
  rw [happend] at hline
  have hbody : bodyLine (ascii ":SQL END\n") = false := by decide
  rw [Session.takeLine, Connector.processLine, hbody, Bool.and_false,
    if_neg Bool.false_ne_true, hline]
  rfl

theorem Session.takeLine_run (s : Session) (backend : Backend) (pid : Nat)
    (hmode : s.connector.receiveSql = false) :
    s.takeLine backend pid (ascii ":RUN\n") = (s.record .run).run backend := by
  rw [Session.takeLine, Connector.processLine, hmode, Bool.false_and,
    if_neg Bool.false_ne_true]
  rfl

/-! ## The stream of a request -/

/-- The SQL body that is sent. -/
def Request.body (request : Request) : List UInt8 := request.sqlText ++ [newline]

/-- The pieces in which the SQL body arrives. -/
def Request.bodyPieces (request : Request) : List (List UInt8) :=
  (cut newline pieceSize [] request.body).1

theorem Request.bodyPieces_flatten (request : Request) :
    request.bodyPieces.flatten = request.body := by
  have hflatten := @cut_flatten _ _ newline pieceSize [] request.body
  rwa [show (cut newline pieceSize [] request.body).2 = [] from cut_snd_delim _ _,
    List.append_nil, List.nil_append] at hflatten

/-- What is sent after the options. -/
def Request.sqlStream (request : Request) : List UInt8 :=
  ascii ":SQL BEGIN\n" ++ (request.body ++ (ascii ":SQL END\n" ++ ascii ":RUN\n"))

theorem requestStream_eq (request : Request) :
    requestStream request = optionStream request.options ++ request.sqlStream := by
  have hnewline : ascii "\n" = [newline] := rfl
  simp only [requestStream, optionStream, Request.sqlStrings, Request.sqlStream, Request.body,
    List.map_cons, List.map_nil, List.flatten_cons, List.flatten_nil, List.append_nil,
    List.append_assoc, hnewline]

/-- The pieces after the options. -/
theorem cut_sqlStream (request : Request) (t : List UInt8) :
    (cut newline pieceSize [] (request.sqlStream ++ t)).1 =
      ascii ":SQL BEGIN\n" :: (request.bodyPieces ++
        ascii ":SQL END\n" :: ascii ":RUN\n" :: (cut newline pieceSize [] t).1) := by
  have hline : ∀ {line : List UInt8} (t : List UInt8), newline ∉ line →
      line.length < pieceSize → (cut newline pieceSize [] (line ++ [newline] ++ t)).1 =
        (line ++ [newline]) :: (cut newline pieceSize [] t).1 := by
    intro line t hnot hlen
    rw [List.append_assoc]
    exact cut_line t hnot hlen
  have hbegin : ascii ":SQL BEGIN\n" = ascii ":SQL BEGIN" ++ [newline] := by decide
  have hend : ascii ":SQL END\n" = ascii ":SQL END" ++ [newline] := by decide
  have hrun : ascii ":RUN\n" = ascii ":RUN" ++ [newline] := by decide
  rw [Request.sqlStream, hbegin, hend, hrun, List.append_assoc,
    hline _ (by decide) (by decide), Request.body, List.append_assoc, cut_delim_append,
    List.append_assoc, hline _ (by decide) (by decide), hline _ (by decide) (by decide)]
  rfl

/-- A property of every option. -/
theorem Request.forall_options {request : Request} {P : Setting × List UInt8 → Prop} :
    (∀ o ∈ request.options, P o) ↔
      P (.server, request.sqlServer.bytes) ∧ P (.database, request.sqlDatabase.bytes) ∧
      P (.user, request.sqlUser.bytes) ∧
      (request.sqlPassword.isSet = true → P (.password, request.sqlPassword.bytes)) ∧
      P (.timeout, decimalInt request.connectionTimeout.toInt) ∧
      P (.flags, decimal request.flags.toNat) ∧
      P (.appname, request.connectionName.bytes) := by
  unfold Request.options
  split
  · rename_i hset
    simp [hset]
  · rename_i hset
    simp [hset]

/-- Every value is a C string that fits one piece. -/
theorem Request.isOption (request : Request) : ∀ o ∈ request.options, IsOption o := by
  have hbuf : ∀ {setting : Setting} {size : Nat} (buf : CharBuf size), setting ≠ .name →
      size ≤ 128 → IsOption (setting, buf.bytes) := fun buf hname hsize =>
    ⟨hname, buf.noNul, (Nat.le_of_lt buf.fits).trans hsize⟩
  have htimeout : (decimalInt request.connectionTimeout.toInt).length ≤ optionSize := by
    have hlow := request.connectionTimeout.le_toInt
    have hhigh := request.connectionTimeout.toInt_lt
    exact (@length_decimalInt_le_iff _ 127 (by decide)).2 (by omega)
  have hflags : (decimal request.flags.toNat).length ≤ optionSize := by
    have hlt := request.flags.toNat_lt
    exact (length_decimal_le_iff (by decide)).2 (lt_trans hlt (by decide))
  have hzero : 0 ∉ decimal request.flags.toNat := not_mem_decimal (by decide)
  rw [Request.forall_options]
  exact ⟨hbuf _ (by decide) (by decide), hbuf _ (by decide) (by decide),
    hbuf _ (by decide) (by decide), fun _ => hbuf _ (by decide) (by decide),
    ⟨Setting.noConfusion, not_mem_decimalInt (by decide), htimeout⟩,
    ⟨Setting.noConfusion, hzero, hflags⟩,
    hbuf _ (by decide) (by decide)⟩

/-- The stream is a C string. -/
theorem requestStream_noNul (request : Request) : 0 ∉ requestStream request := by
  have hoptions : 0 ∉ optionStream request.options := by
    intro hmem
    obtain ⟨line, hline, hmem⟩ := List.mem_flatten.1 hmem
    obtain ⟨o, ho, rfl⟩ := List.mem_map.1 hline
    have hcommand : 0 ∉ o.1.command := by
      intro hmem
      exact absurd (Setting.le_of_mem_command hmem) (by decide)
    rw [setString_eq] at hmem
    simp only [List.mem_cons, List.mem_append, List.not_mem_nil, or_false] at hmem
    rcases hmem with (h | h | h | h) | h
    · exact absurd h (by decide)
    · exact hcommand h
    · exact absurd h (by decide)
    · exact (request.isOption o ho).noNul h
    · exact absurd h (by decide)
  have hbody : 0 ∉ request.body := by
    rw [Request.body, List.mem_append, not_or]
    exact ⟨(request.sql.getD .empty).noNul, by decide⟩
  have hbegin : 0 ∉ ascii ":SQL BEGIN\n" := by decide
  have hend : 0 ∉ ascii ":SQL END\n" ++ ascii ":RUN\n" := by decide
  rw [requestStream_eq, Request.sqlStream]
  simp only [List.mem_append, not_or] at hend ⊢
  exact ⟨hoptions, hbegin, hbody, hend⟩

/-! ## The commands of a request -/

/-- The commands that a call of `dbrelay_conn_send_request` issues. -/
def issued (request : Request) : List Command :=
  request.options.map (fun o => .set o.1 o.2) ++ [.sqlBegin, .sqlEnd request.body, .run]

/-- Nothing in the request is taken for a part of the protocol: every value is
on one line, and no piece of the SQL body ends it. -/
structure WellDelimited (request : Request) : Prop where
  values : ∀ o ∈ request.options, newline ∉ o.2
  body : ∀ p ∈ request.bodyPieces, ¬ ascii ":SQL END" <+: p

/-- Nor is anything too long for the connector. -/
structure CleanlyFramed (request : Request) : Prop extends WellDelimited request where
  timeout : -10 ^ 8 < request.connectionTimeout.toInt ∧
    request.connectionTimeout.toInt < 10 ^ 9
  flags : request.flags.toNat < 10 ^ 9

/-- The session at the moment the connector acts on `:RUN`, when it got the
request undisturbed. -/
def Session.atRun (s : Session) (request : Request) : Session :=
  ((request.options.foldl Session.takeOption s).beginSql.endSql request.body).record .run

/-- A request with values on one line reaches its SQL body. -/
theorem serveLines_begin (backend : Backend) (pid : Nat) {s : Session}
    (hmode : s.connector.receiveSql = false) {request : Request}
    (hvalues : ∀ o ∈ request.options, newline ∉ o.2) (t : List UInt8) :
    serveLines backend pid s (cut newline pieceSize [] (requestStream request ++ t)).1 =
      serveLines backend pid (request.options.foldl Session.takeOption s).beginSql
        (request.bodyPieces ++
          ascii ":SQL END\n" :: ascii ":RUN\n" :: (cut newline pieceSize [] t).1) := by
  have hoptions : ∀ o ∈ request.options,
      newline ∉ o.2 ∧ IsOption o := fun o ho =>
    ⟨hvalues o ho, request.isOption o ho⟩
  rw [requestStream_eq, List.append_assoc, serveLines_options backend pid hmode hoptions,
    cut_sqlStream, serveLines,
    Session.takeLine_sqlBegin _ backend pid ((receiveSql_foldl _).trans hmode)]

/-- A well delimited request reaches its `:RUN`. -/
theorem serveLines_request (backend : Backend) (pid : Nat) {s : Session}
    (hmode : s.connector.receiveSql = false) {request : Request}
    (h : WellDelimited request) (t : List UInt8) :
    serveLines backend pid s (cut newline pieceSize [] (requestStream request ++ t)).1 =
      match (s.atRun request).run backend with
      | .stops s how => (s, how)
      | .continues s => serveLines backend pid s (cut newline pieceSize [] t).1 := by
  rw [serveLines_begin backend pid hmode h.values, Session.beginSql,
    serveLines_body backend pid _ h.body, List.nil_append, request.bodyPieces_flatten,
    serveLines, Session.takeLine_sqlEnd]
  simp only
  rw [serveLines, Session.takeLine_run _ backend pid rfl]
  rfl

theorem Session.foldl_takeOption_commands (s : Session) (options : List (Setting × List UInt8)) :
    (options.foldl Session.takeOption s).commands =
      s.commands ++ options.map fun o => .set o.1 (o.2.take (o.1.size - 1)) := by
  induction options generalizing s with
  | nil => rw [List.foldl_nil, List.map_nil, List.append_nil]
  | cons option options ih =>
    rw [List.foldl_cons, ih, List.map_cons, Session.commands, Session.takeOption,
      List.map_append, List.append_assoc]
    rfl

/-- The commands up to `:RUN`. -/
theorem Session.atRun_commands (s : Session) (request : Request) :
    (s.atRun request).commands = s.commands ++
      (request.options.map (fun o => Command.set o.1 (o.2.take (o.1.size - 1))) ++
        [.sqlBegin, .sqlEnd request.body, .run]) := by
  have htail : (s.atRun request).commands =
      (request.options.foldl Session.takeOption s).commands ++
        [.sqlBegin, .sqlEnd request.body, .run] := by
    simp only [Session.commands, Session.atRun, Session.record, Session.endSql, Session.send,
      Session.beginSql, Session.collecting, List.map_append, List.map_cons, List.map_nil,
      List.append_assoc, List.cons_append, List.nil_append]
  rw [htail, Session.foldl_takeOption_commands, List.append_assoc]

/-- The end of a session with one request. -/
theorem Session.run_commands (s : Session) (backend : Backend) (pid : Nat) :
    (match s.run backend with
      | .stops s how => (s, how)
      | .continues s => serveLines backend pid s []).1.commands = s.commands := by
  have htrace := s.respond_trace backend pid .run
  rw [Session.respond] at htrace
  rw [Session.commands, Session.commands, ← htrace]
  cases s.run backend <;> rfl

/-- The values arrive whole if they have no newline and the numbers fit their
buffers. -/
theorem arrivesWhole_iff {request : Request} :
    (∀ o ∈ request.options, ArrivesWhole o) ↔
      (∀ o ∈ request.options, newline ∉ o.2) ∧
      (-10 ^ 8 < request.connectionTimeout.toInt ∧
        request.connectionTimeout.toInt < 10 ^ 9) ∧ request.flags.toNat < 10 ^ 9 := by
  have hbuf : ∀ {size : Nat} (buf : CharBuf size), buf.bytes.length ≤ size - 1 :=
    fun buf => Nat.le_sub_one_of_lt buf.fits
  have htimeout := @length_decimalInt_le_iff request.connectionTimeout.toInt 8 (by decide)
  have hflags := @length_decimal_le_iff request.flags.toNat 9 (by decide)
  rw [← htimeout, ← hflags, Request.forall_options, Request.forall_options]
  constructor
  · intro h
    obtain ⟨h1, h2, h3, h4, h5, h6, h7⟩ := h
    exact ⟨⟨h1.1, h2.1, h3.1, fun hset => (h4 hset).1, h5.1, h6.1, h7.1⟩, h5.2, h6.2⟩
  · intro h
    obtain ⟨⟨h1, h2, h3, h4, h5, h6, h7⟩, ht, hf⟩ := h
    exact ⟨⟨h1, hbuf _⟩, ⟨h2, hbuf _⟩, ⟨h3, hbuf _⟩, fun hset => ⟨h4 hset, hbuf _⟩,
      ⟨h5, ht⟩, ⟨h6, hf⟩, ⟨h7, hbuf _⟩⟩

/-- An SQL body that ends early is not the one that was sent. -/
theorem body_of_commands (backend : Backend) (pid : Nat) (s : Session) {request : Request}
    {rest : List (List UInt8)} {more : List Command}
    (h : s.commands ++ [.sqlEnd request.body] ++ more =
      (serveLines backend pid (s.collecting []) (request.bodyPieces ++ rest)).1.commands) :
    ∀ p ∈ request.bodyPieces, ¬ ascii ":SQL END" <+: p := by
  cases hfind : request.bodyPieces.find? fun p => !bodyLine p with
  | none =>
    intro p hp
    apply bodyLine_iff.1
    simpa using List.find?_eq_none.1 hfind p hp
  | some first =>
    exfalso
    obtain ⟨hfirst, good, others, hsplit, hgood⟩ := List.find?_eq_some_iff_append.1 hfind
    have hgood' : ∀ line ∈ good, ¬ ascii ":SQL END" <+: line := by
      intro line hline
      apply bodyLine_iff.1
      simpa using hgood line hline
    have hfirst' : ascii ":SQL END" <+: first := by
      by_contra hnot
      rw [bodyLine_iff.2 hnot] at hfirst
      cases hfirst
    have hlength : good.flatten.length < request.body.length := by
      have hpos := hfirst'.length_le
      have h8 : (ascii ":SQL END").length = 8 := by decide
      rw [← request.bodyPieces_flatten, hsplit, List.flatten_append, List.flatten_cons,
        List.length_append, List.length_append]
      omega
    obtain ⟨c, command, hline, hcommand⟩ := s.processLine_sqlEnd good.flatten hfirst'
    have hnext := next_command hline backend pid (others ++ rest)
    rw [hsplit, List.append_assoc good, serveLines_body backend pid s hgood', List.nil_append,
      List.cons_append] at h
    rw [← h, Session.collecting_commands, List.append_assoc, List.prefix_append_right_inj]
      at hnext
    have hcommand' := (List.cons_prefix_cons.1 hnext).1
    rcases hcommand with rfl | rfl
    · rw [Command.sqlEnd.inj hcommand'] at hlength
      exact lt_irrefl _ hlength
    · exact Command.noConfusion hcommand'

/-- The commands of the option phase, when every option arrived whole. -/
theorem commands_of_arrivesWhole (s : Session) {options : List (Setting × List UInt8)}
    (h : ∀ o ∈ options, ArrivesWhole o) :
    (options.foldl Session.takeOption s).commands =
      s.commands ++ options.map fun o => .set o.1 o.2 := by
  rw [Session.foldl_takeOption_commands]
  congr 1
  apply List.map_congr_left
  intro o ho
  rw [List.take_of_length_le (h o ho).2]

theorem Session.beginSql_commands (s : Session) :
    s.beginSql.commands = s.commands ++ [.sqlBegin] := by
  rw [Session.beginSql, Session.collecting_commands, Session.record_commands]
  rfl

/-- If the commands are the issued ones, the request is cleanly framed. -/
theorem cleanlyFramed_of_commands (backend : Backend) (pid : Nat) {s : Session}
    (hmode : s.connector.receiveSql = false) {request : Request}
    (h : (serveLines backend pid s
        (cut newline pieceSize [] (requestStream request)).1).1.commands =
      s.commands ++ issued request) :
    CleanlyFramed request := by
  have hissued : s.commands ++ issued request = s.commands ++
      (request.options.map fun o => .set o.1 o.2) ++
        [.sqlBegin, .sqlEnd request.body, .run] := by
    rw [issued, List.append_assoc]
  have hwhole : ∀ o ∈ request.options, ArrivesWhole o := by
    rw [requestStream_eq, hissued] at h
    exact arrivesWhole_of_commands backend pid hmode request.isOption h
  obtain ⟨hvalues, htimeout, hflags⟩ := arrivesWhole_iff.1 hwhole
  have hbegin := serveLines_begin backend pid hmode hvalues []
  rw [List.append_nil] at hbegin
  refine ⟨⟨hvalues, ?_⟩, htimeout, hflags⟩
  refine @body_of_commands backend pid
    (request.options.foldl Session.takeOption s).beginSql request
    (ascii ":SQL END\n" :: ascii ":RUN\n" :: (cut newline pieceSize [] []).1) [.run] ?_
  rw [Session.beginSql_commands, commands_of_arrivesWhole s hwhole, List.append_assoc,
    List.append_assoc]
  rw [hbegin, hissued] at h
  exact h.symm

/-- If the request is cleanly framed, the commands are the issued ones. -/
theorem commands_of_cleanlyFramed (backend : Backend) (pid : Nat) {s : Session}
    (hmode : s.connector.receiveSql = false) {request : Request} (h : CleanlyFramed request) :
    (serveLines backend pid s
        (cut newline pieceSize [] (requestStream request)).1).1.commands =
      s.commands ++ issued request := by
  have hwhole := arrivesWhole_iff.2 ⟨h.values, h.timeout, h.flags⟩
  have hserve := serveLines_request backend pid hmode h.toWellDelimited []
  rw [List.append_nil] at hserve
  have hcommands := (s.atRun request).run_commands backend pid
  rw [hserve]
  refine hcommands.trans ?_
  rw [Session.atRun_commands, ← List.append_assoc, ← Session.foldl_takeOption_commands,
    commands_of_arrivesWhole s hwhole, issued, List.append_assoc]

/-- In a session that waits for a command, the connector acts on exactly the
commands that were issued if and only if the request is cleanly framed, however
the stream arrives. -/
theorem serve_commands_iff (backend : Backend) (pid : Nat) {s : Session} {inBuf : InBuf}
    (hmode : s.connector.receiveSql = false) (hempty : inBuf.pending = []) (request : Request)
    {events : List RecvEvent} (hev : Delivers events (requestStream request)) :
    (serve backend pid s inBuf events).1.commands = s.commands ++ issued request ↔
      CleanlyFramed request := by
  rw [serve_delivers backend pid hev (requestStream_noNul request), hempty, List.nil_append]
  constructor
  · intro h
    exact cleanlyFramed_of_commands backend pid hmode h
  · intro h
    exact commands_of_cleanlyFramed backend pid hmode h

/-- A request of connection `pool` on server `db1`. -/
def namedRequest (sql : CString) : Request :=
  { sqlServer := copyString (ascii "db1")
    sqlUser := copyString (ascii "alice")
    connectionName := copyString (ascii "pool")
    sql := some sql }

/-- A database that lets everyone in and answers `[]`. -/
def emptyBackend : Backend := { login := none, exec := fun _ _ => .results (ascii "[]") }

/-- `"select 1"` in one fragment. -/
theorem serve_commands_selectOne :
    (serve emptyBackend 1 ({} : Connector).newSession {}
      [.data ⟨requestStream (namedRequest (.ofBytes (ascii "select 1"))), by decide +kernel,
        by decide +kernel⟩]).1.commands =
      issued (namedRequest (.ofBytes (ascii "select 1"))) :=
  (@serve_commands_iff emptyBackend 1 ({} : Connector).newSession {} rfl rfl _ _
    (delivers_fragment _)).2
    ⟨⟨by decide +kernel, by decide +kernel⟩, by decide +kernel, by decide +kernel⟩

/-- SQL with a line that starts with `":SQL END"`: what follows are commands. -/
def injectingSql : CString := .ofBytes (ascii "select 1\n:SQL END\n:SET USER bob\n:RUN")

/-- The text of `injectingSql` adds a setting and a run. -/
theorem commands_injectingSql :
    ¬ ∀ (backend : Backend) (pid : Nat) (c : Connector) (request : Request)
      (events : List RecvEvent), Delivers events (requestStream request) →
      (serve backend pid c.newSession {} events).1.commands = issued request := by
  intro h
  have hev : Delivers [.data ⟨requestStream (namedRequest injectingSql), by decide +kernel,
      by decide +kernel⟩] (requestStream (namedRequest injectingSql)) := delivers_fragment _
  have hcommands := h emptyBackend 1 {} (namedRequest injectingSql) _ hev
  rw [serve_delivers _ _ hev (requestStream_noNul _)] at hcommands
  revert hcommands
  decide +kernel

end DbRelay
