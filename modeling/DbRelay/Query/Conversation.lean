import DbRelay.Lib.Dialogue
import DbRelay.Db.ColumnNames
import DbRelay.Query.ErrorText
import DbRelay.Wire.Settings
import Mathlib.Data.List.DropRight

/-!
# A named query between two processes

A worker and a connector run at the same time and wait for each other.  `Caller` is
the part of `dbrelay_db_run_query` that talks to the connector, from
`dbrelay_conn_initialize` to `dbrelay_conn_close`, and `Listener` is the loop of the
connector over one session.  Both are cut at each byte that they send and at each
line that they receive, and `conversation` runs them over a pair of streams.

A receive takes the first piece of what arrived, as `recvString_line` says of
`dbrelay_socket_recv_string`.  `dbrelay_conn_set_option` has an `in_buf` of its own,
which is lost when it returns.  `Caller` keeps what is left over, and the last part of
`conversation_serves` says that there is nothing.

* `initializePid_decimal`: the process id crosses.
* `script_serves`: the turns of the two processes, one lemma for each stage.
* `conversation_serves`: every order of their steps ends, and where `serve` ends.

No process dies here, and no call of the socket fails.
-/

namespace DbRelay

open Framing Decimal Dialogue

/-! ## The worker -/

/-- What `dbrelay_conn_initialize` makes of the line that it receives.  `none` is -1. -/
def initializePid (line : List UInt8) : Option Int :=
  if line.take 5 = ascii ":PID " then
    let trimmed := line.rdropWhile fun b => decide (b = newline)
    let childpid := atoi (trimmed.drop 5)
    if childpid = -1 then none else some childpid
  else none

inductive Caller
  /-- Before the rest of a string is sent. -/
  | sending (str : List UInt8) (next : Caller)
  /-- In `dbrelay_conn_initialize`. -/
  | awaitPid (request : Request)
  /-- In `dbrelay_conn_set_option`, or after `:SQL END`. -/
  | awaitAnswer (next : Caller)
  /-- In the loop that receives the reply. -/
  | reply (pid : Int) (reply : Reply)
  /-- In `dbrelay_conn_close`. -/
  | awaitBye (pid : Int) (text : List UInt8) (error : Nat)
  | finished (pid : Int) (text : List UInt8) (error : Nat)
  /-- After `"Couldn't initialize connector"`. -/
  | refused
  /-- After a number was written past `tmp`. -/
  | overflow (pid : Int)

/-- Strings that are sent one after the other. -/
def Caller.sendAll (strs : List (List UInt8)) (next : Caller) : Caller :=
  strs.foldr .sending next

/-- `dbrelay_conn_send_request` from the SQL on. -/
def Caller.sendSql (pid : Int) (request : Request) : Caller :=
  .sendAll (request.sqlStrings.map Prod.snd)
    (.awaitAnswer (.sending (ascii ":RUN\n") (.reply pid {})))

/-- Calls of `dbrelay_conn_set_option`. -/
def Caller.setOptions (pid : Int) (options : List (Setting × List UInt8)) (next : Caller) :
    Caller :=
  options.foldr (fun option next =>
    (optionValue option.1 option.2).elim (.overflow pid) fun value =>
      .sending (setString option.1.option value) (.awaitAnswer next)) next

/-- `dbrelay_conn_send_request`. -/
def Caller.sendRequest (pid : Int) (request : Request) : Caller :=
  .setOptions pid request.options (.sendSql pid request)

/-- `dbrelay_conn_close`, with what the request came to. -/
def Caller.close (pid : Int) (reply : Reply) : Caller :=
  .sending (ascii ":QUIT\n") (.awaitBye pid reply.text reply.error)

def Caller.start (request : Request) : Caller :=
  .sending (ascii ":HELO\n") (.awaitPid request)

def Caller.act : Caller → Action UInt8 Caller
  | .sending (b :: str) next => .put b (.sending str next)
  | .sending [] next => next.act
  | .awaitPid request =>
    .get fun line => (initializePid line).elim .refused fun pid => .sendRequest pid request
  | .awaitAnswer next => .get fun _ => next
  | .reply pid r =>
    .get fun line => (r.takeLine line).elim (.close pid r) (.reply pid)
  | .awaitBye pid text error => .get fun _ => .finished pid text error
  | .finished _ _ _ => .stop
  | .refused => .stop
  | .overflow _ => .stop

/-! ## The connector -/

structure Listener where
  session : Session
  /-- What the loop body has still to send. -/
  out : List UInt8 := []
  /-- How the loop ended. -/
  how : Option SessionEnd := none

/-- The connector after a turn. -/
def Listener.after (s : Session) : Turn → Listener
  | .continues s' => { session := s', out := s'.sent.drop s.sent.length }
  | .stops s' how => { session := s', out := s'.sent.drop s.sent.length, how := some how }

def Listener.act (backend : Backend) (pid : Nat) (listener : Listener) : Action UInt8 Listener :=
  match listener.out with
  | b :: out => .put b { listener with out := out }
  | [] =>
    match listener.how with
    | some _ => .stop
    | none => .get fun line => .after listener.session (listener.session.takeLine backend pid line)

/-- The two processes and the streams between them. -/
def conversation (backend : Backend) (pid : Nat) (l : Link UInt8 Caller Listener)
    (e : Event) : Option (Link UInt8 Caller Listener) :=
  step (firstPiece newline pieceSize []) Caller.act (Listener.act backend pid) l e

theorem reader_firstPiece : Reader (firstPiece newline pieceSize []) where
  nil := rfl
  append := fun _ _ _ t h => firstPiece_append_some t h
  shorter := fun _ _ _ h => firstPiece_length h

/-! ## What the connector takes and sends -/

section Connector

variable {backend : Backend} {pid : Nat} {s s' : Session}

/-- A line that is one piece. -/
theorem gets_line {line : List UInt8} (hline : newline ∉ line) (hlen : line.length < pieceSize) :
    Gets (firstPiece newline pieceSize []) (Listener.act backend pid) { session := s }
      (line ++ [newline]) (.after s (s.takeLine backend pid (line ++ [newline]))) := by
  have hpiece : firstPiece newline pieceSize [] (line ++ [newline]) =
      some (line ++ [newline], []) := firstPiece_line [] hline (by simpa using hlen)
  exact .cons rfl hpiece (.nil _)

theorem after_continues {str : List UInt8} (hsent : s'.sent = s.sent ++ str) :
    Listener.after s (.continues s') = { session := s', out := str } := by
  rw [Listener.after, hsent, List.drop_left]

theorem after_stops {str : List UInt8} (how : SessionEnd) (hsent : s'.sent = s.sent ++ str) :
    Listener.after s (.stops s' how) = { session := s', out := str, how := some how } := by
  rw [Listener.after, hsent, List.drop_left]

/-- A stream whose first piece is the whole of it. -/
theorem firstPiece_of_cut {str : List UInt8} {rest : List (List UInt8)}
    (h : (cut newline pieceSize [] str).1 = str :: rest) :
    firstPiece newline pieceSize [] str = some (str, []) := by
  cases hpiece : firstPiece newline pieceSize [] str with
  | none =>
    rw [cut_of_firstPiece_none hpiece] at h
    cases h
  | some pr =>
    obtain ⟨p, r⟩ := pr
    rw [cut_of_firstPiece_some hpiece] at h
    have heq := firstPiece_eq hpiece
    rw [(List.cons.inj h).1] at heq ⊢
    have hnil : r = [] := by simpa using heq
    rw [hnil]

/-- A line of the protocol that the connector answers, or takes without an answer. -/
theorem gets_continues {line str : List UInt8} (hline : newline ∉ line)
    (hlen : line.length < pieceSize)
    (hturn : s.takeLine backend pid (line ++ [newline]) = .continues s')
    (hsent : s'.sent = s.sent ++ str) :
    Gets (firstPiece newline pieceSize []) (Listener.act backend pid) { session := s }
      (line ++ [newline]) { session := s', out := str } := by
  have hgets := @gets_line backend pid s line hline hlen
  rwa [hturn, after_continues hsent] at hgets

theorem puts_out (s : Session) (str : List UInt8) (how : Option SessionEnd) :
    Puts (Listener.act backend pid) { session := s, out := str, how := how } str
      { session := s, how := how } := by
  induction str with
  | nil => exact .nil _
  | cons b str ih => exact .cons rfl ih

/-- A setting. -/
theorem gets_option (hmode : s.connector.receiveSql = false) {setting : Setting}
    {value : List UInt8} (hline : newline ∉ value) (h : IsOption (setting, value)) :
    Gets (firstPiece newline pieceSize []) (Listener.act backend pid) { session := s }
      (setString setting.option value)
      { session := s.takeOption (setting, value), out := ascii ":OK\n" } := by
  obtain ⟨hname, hnul, hlen⟩ := h
  have hpiece : firstPiece newline pieceSize [] (setString setting.option value) =
      some (setString setting.option value, []) := by
    have hcut := cut_setString setting hline hlen []
    rw [List.append_nil] at hcut
    exact firstPiece_of_cut hcut
  refine .cons rfl hpiece ?_
  have hturn := s.takeLine_setString backend pid hname hmode hnul
  show Gets _ _ (Listener.after s (s.takeLine backend pid (setString setting.option value))) [] _
  rw [hturn, after_continues rfl]
  exact .nil _

/-- The lines of an SQL body. -/
theorem gets_body (s : Session) {body text : List UInt8}
    (hlines : ∀ p ∈ (cut newline pieceSize [] text).1, ¬ ascii ":SQL END" <+: p)
    (hwhole : (cut newline pieceSize [] text).2 = []) :
    Gets (firstPiece newline pieceSize []) (Listener.act backend pid)
      { session := s.collecting body } text { session := s.collecting (body ++ text) } := by
  induction hn : text.length using Nat.strong_induction_on generalizing body text with
  | _ n ih =>
    cases hpiece : firstPiece newline pieceSize [] text with
    | none =>
      rw [cut_of_firstPiece_none hpiece] at hwhole
      have hnil : text = [] := by simpa using hwhole
      rw [hnil, List.append_nil]
      exact .nil _
    | some pr =>
      obtain ⟨p, r⟩ := pr
      rw [cut_of_firstPiece_some hpiece] at hlines hwhole
      have htext : text = p ++ r := by
        have heq := firstPiece_eq hpiece
        simpa using heq
      refine .cons rfl hpiece ?_
      have hturn := @Session.takeLine_body s backend pid body p (hlines p List.mem_cons_self)
      have hafter : Listener.after (s.collecting body)
          ((s.collecting body).takeLine backend pid p) =
          { session := s.collecting (body ++ p) } := by
        rw [hturn]
        exact after_continues (List.append_nil _).symm
      show Gets _ _ (Listener.after _ ((s.collecting body).takeLine backend pid p)) r _
      rw [hafter, htext, ← List.append_assoc]
      exact ih r.length (by rw [← hn]; exact firstPiece_length hpiece)
        (fun q hq => hlines q (List.mem_cons_of_mem p hq)) hwhole rfl

/-- The SQL of a request. -/
theorem gets_sql (hmode : s.connector.receiveSql = false) {request : Request}
    (hbody : ∀ p ∈ request.bodyPieces, ¬ ascii ":SQL END" <+: p) :
    Gets (firstPiece newline pieceSize []) (Listener.act backend pid) { session := s }
      (ascii ":SQL BEGIN\n" ++ (request.body ++ ascii ":SQL END\n"))
      { session := s.beginSql.endSql request.body, out := ascii ":OK\n" } := by
  have hbegin : ascii ":SQL BEGIN\n" = ascii ":SQL BEGIN" ++ [newline] := by decide
  have hend : ascii ":SQL END\n" = ascii ":SQL END" ++ [newline] := by decide
  have hfirst : Gets (firstPiece newline pieceSize []) (Listener.act backend pid) { session := s }
      (ascii ":SQL BEGIN\n") { session := s.beginSql.collecting [] } := by
    rw [hbegin]
    refine gets_continues (by decide) (by decide) ?_ (List.append_nil _).symm
    rw [← hbegin]
    exact s.takeLine_sqlBegin backend pid hmode
  have hlast : Gets (firstPiece newline pieceSize []) (Listener.act backend pid)
      { session := s.beginSql.collecting request.body } (ascii ":SQL END\n")
      { session := s.beginSql.endSql request.body, out := ascii ":OK\n" } := by
    rw [hend]
    refine gets_continues (by decide) (by decide) ?_ rfl
    rw [← hend]
    exact s.beginSql.takeLine_sqlEnd backend pid request.body
  have hwhole : (cut newline pieceSize [] request.body).2 = [] := cut_snd_delim _ _
  exact hfirst.append reader_firstPiece
    ((gets_body s.beginSql hbody hwhole).append reader_firstPiece hlast)

end Connector

/-! ## What the worker sends and takes -/

section Worker

theorem puts_sending (str : List UInt8) (next : Caller) :
    Puts Caller.act (.sending str next) str (.sending [] next) := by
  induction str with
  | nil => exact .nil _
  | cons b str ih => exact .cons rfl ih

/-- Strings one after the other.  What comes then does not depend on how they were cut. -/
theorem puts_sendAll (strs : List (List UInt8)) (next : Caller) :
    ∀ s, s.act = (Caller.sendAll strs next).act →
    ∃ s', Puts Caller.act s strs.flatten s' ∧ s'.act = next.act := by
  induction strs with
  | nil => exact fun s hs => ⟨s, .nil s, hs⟩
  | cons str strs ih =>
    intro s hs
    cases str with
    | nil => exact ih s hs
    | cons b str =>
      have hmore := puts_sending str (Caller.sendAll strs next)
      obtain ⟨s', hrest, hact⟩ := ih (.sending [] (Caller.sendAll strs next)) rfl
      exact ⟨s', .cons hs (hmore.append hrest), hact⟩

/-- A line that the worker takes in one receive. -/
theorem gets_answer {line : List UInt8} (hline : newline ∉ line) (hlen : line.length < pieceSize)
    {s : Caller} {next : List UInt8 → Caller} (hact : s.act = .get next) :
    Gets (firstPiece newline pieceSize []) Caller.act s (line ++ [newline])
      (next (line ++ [newline])) :=
  .cons hact (firstPiece_line [] hline (by simpa using hlen)) (.nil _)

theorem gets_ok {s next : Caller} (hact : s.act = .get fun _ => next) :
    Gets (firstPiece newline pieceSize []) Caller.act s (ascii ":OK\n") next := by
  have hok : ascii ":OK\n" = ascii ":OK" ++ [newline] := by decide
  rw [hok]
  exact gets_answer (by decide) (by decide) hact

/-- The reply, when its last line is the one that ends the loop. -/
theorem gets_reply (pid : Int) {bytes : List UInt8} {final : Reply} {r : Reply}
    (hlines : r.takeLines (cut newline pieceSize [] bytes).1 = some final)
    (hrest : r.restLines (cut newline pieceSize [] bytes).1 = [])
    (hwhole : (cut newline pieceSize [] bytes).2 = []) :
    Gets (firstPiece newline pieceSize []) Caller.act (.reply pid r) bytes
      (.close pid final) := by
  induction hn : bytes.length using Nat.strong_induction_on generalizing r bytes with
  | _ n ih =>
    cases hpiece : firstPiece newline pieceSize [] bytes with
    | none =>
      rw [cut_of_firstPiece_none hpiece] at hlines
      cases hlines
    | some pr =>
      obtain ⟨p, rest⟩ := pr
      rw [cut_of_firstPiece_some hpiece] at hlines hrest hwhole
      rw [Reply.takeLines] at hlines
      rw [Reply.restLines] at hrest
      refine .cons rfl hpiece ?_
      show Gets _ _ ((r.takeLine p).elim (Caller.close pid r) (Caller.reply pid)) rest _
      cases htake : r.takeLine p with
      | none =>
        rw [htake] at hlines hrest
        obtain rfl := Option.some.inj hlines
        have hflat := @cut_flatten _ _ newline pieceSize [] rest
        simp only at hrest hwhole
        rw [hrest, hwhole] at hflat
        have hnil : rest = [] := by simpa using hflat.symm
        rw [hnil]
        exact .nil _
      | some r' =>
        rw [htake] at hlines hrest
        exact ih rest.length (by rw [← hn]; exact firstPiece_length hpiece) hlines hrest hwhole
          rfl

/-- The line with the process id. -/
def pidLine (pid : Nat) : List UInt8 := ascii ":PID " ++ decimal pid

theorem newline_not_mem_pidLine (pid : Nat) : newline ∉ pidLine pid := by
  rw [pidLine, List.mem_append, not_or]
  refine ⟨by decide, fun hmem => ?_⟩
  exact absurd (isDigit_of_mem_decimal hmem) (by decide)

theorem length_pidLine {pid : Nat} (hpid : pid < 2 ^ 31) : (pidLine pid).length < pieceSize := by
  have hdigits : (decimal pid).length ≤ 10 :=
    (length_decimal_le_iff (by decide)).2 (lt_trans hpid (by decide))
  have hcommand : (ascii ":PID ").length = 5 := by decide
  rw [pidLine, List.length_append, hcommand]
  unfold pieceSize socketBufsize
  omega

/-- The process id crosses. -/
theorem initializePid_decimal {pid : Nat} (hpid : pid < 2 ^ 31) :
    initializePid (pidLine pid ++ [newline]) = some (pid : Int) := by
  have htake : (pidLine pid ++ [newline]).take 5 = ascii ":PID " := by
    rw [pidLine, List.append_assoc]
    exact List.take_left' (by decide)
  have hnot : ∀ b ∈ pidLine pid, ¬ decide (b = newline) = true := by
    intro b hmem hb
    rw [decide_eq_true_eq] at hb
    exact newline_not_mem_pidLine pid (hb ▸ hmem)
  have htrim : (pidLine pid ++ [newline]).rdropWhile (fun b => decide (b = newline)) =
      pidLine pid := by
    rw [List.rdropWhile_concat_pos _ _ _ (by decide), List.rdropWhile_eq_self_iff]
    exact fun hne => hnot _ (List.getLast_mem hne)
  have hdrop : (pidLine pid).drop 5 = decimalInt pid := by
    rw [decimalInt_natCast, pidLine]
    exact List.drop_left' (by decide)
  have hatoi : atoi (decimalInt pid) = pid := atoi_decimalInt (by omega)
  rw [initializePid, if_pos htake]
  simp only
  rw [htrim, hdrop, hatoi, if_neg (by omega)]

end Worker

/-! ## Outcomes that cross -/

/-- The texts that cross as they are: results on one line that end with a bracket, and
errors on one line that is not a part of the protocol. -/
def RunOutcome.Crosses : RunOutcome → Prop
  | .results text => 0 ∉ text ∧ newline ∉ text ∧ text.getLast? = some 93
  | .failed error =>
    0 ∉ error ∧ newline ∉ error ∧ error.length < pieceSize ∧ error ∉ endingLines

/-- What the worker gets for an outcome. -/
def RunOutcome.received : RunOutcome → Reply
  | .results text => { text := text }
  | .failed error => { text := error, error := 1 }

theorem Reply.takeLine_eq_none {reply : Reply} {line : List UInt8} :
    reply.takeLine line = none ↔ lastLine (trimLine line) = true := by
  rw [Reply.takeLine]
  simp only
  split
  · rename_i h
    exact ⟨fun _ => h, fun _ => rfl⟩
  · rename_i h
    split <;> exact ⟨fun heq => (Option.some_ne_none _ heq).elim, fun hlast => absurd hlast h⟩

/-- A reply whose last line is the only one that ends the loop. -/
theorem Reply.restLines_last (reply : Reply) {lines : List (List UInt8)} {last : List UInt8}
    (hlines : ∀ line ∈ lines, ¬ lastLine (trimLine line) = true)
    (hlast : lastLine (trimLine last) = true) : reply.restLines (lines ++ [last]) = [] := by
  induction lines generalizing reply with
  | nil =>
    rw [List.nil_append, Reply.restLines, Reply.takeLine_eq_none.2 hlast]
  | cons line lines ih =>
    rw [List.cons_append, Reply.restLines]
    cases htake : reply.takeLine line with
    | none =>
      exact absurd (Reply.takeLine_eq_none.1 htake) (hlines line List.mem_cons_self)
    | some reply' => exact ih reply' fun l hl => hlines l (List.mem_cons_of_mem _ hl)

theorem resultsReply_eq (result : List UInt8) :
    runReply (.results result) = ascii ":RESULTS BEGIN" ++ newline ::
      (result ++ [newline] ++ (ascii ":RESULTS END" ++ newline ::
        (ascii ":OK" ++ newline :: []))) := by
  have hbegin : ascii ":RESULTS BEGIN\n" = ascii ":RESULTS BEGIN" ++ [newline] := by decide
  have hend : ascii ":RESULTS END\n" = ascii ":RESULTS END" ++ [newline] := by decide
  have hok : ascii ":OK\n" = ascii ":OK" ++ [newline] := by decide
  have hnewline : ascii "\n" = [newline] := by decide
  rw [runReply, hbegin, hend, hok, hnewline]
  simp only [List.append_assoc, List.cons_append, List.nil_append]

/-- The pieces of a reply with results are its lines. -/
theorem cut_resultsReply (result : List UInt8) :
    cut newline pieceSize [] (runReply (.results result)) =
      (ascii ":RESULTS BEGIN\n" :: ((cut newline pieceSize [] (result ++ [newline])).1 ++
        [ascii ":RESULTS END\n"]) ++ [ascii ":OK\n"], []) := by
  have hbegin : ascii ":RESULTS BEGIN" ∈ controlLines := by decide
  have hend : ascii ":RESULTS END" ∈ controlLines := by decide
  have hok : ascii ":OK" ∈ controlLines := by decide
  refine Prod.ext ?_ ?_
  · rw [resultsReply_eq, cut_controlLine hbegin, cut_delim_append, cut_controlLine hend,
      cut_controlLine hok, List.cons_append, List.append_assoc]
    rfl
  · have hlast : runReply (.results result) = ascii ":RESULTS BEGIN\n" ++ result ++
        ascii "\n" ++ ascii ":RESULTS END\n" ++ ascii ":OK" ++ [newline] := by
      have hok : ascii ":OK\n" = ascii ":OK" ++ [newline] := by decide
      rw [runReply, hok]
      simp only [List.append_assoc]
    rw [hlast, cut_snd_delim]

theorem restLines_results {result : List UInt8} (hline : newline ∉ result)
    (hend : result.getLast? = some 93) :
    ({} : Reply).restLines (cut newline pieceSize [] (runReply (.results result))).1 = [] := by
  have hcontrol := (pieces_of_result hline hend).1
  have hnotLast : ∀ line : List UInt8, line ∉ controlLines → ¬ lastLine line = true := by
    intro line hnot hlast
    apply hnot
    simp only [lastLine, decide_eq_true_eq] at hlast
    simp only [controlLines, List.mem_cons]
    tauto
  rw [cut_resultsReply]
  refine Reply.restLines_last {} (fun line hmem => ?_) (by decide)
  rw [List.mem_cons, List.mem_append, List.mem_singleton] at hmem
  rcases hmem with rfl | hmem | rfl
  · decide
  · exact hnotLast _ (hcontrol line hmem)
  · decide

/-- The worker takes the whole reply to a run. -/
theorem gets_outcome (pid : Int) {outcome : RunOutcome} (h : outcome.Crosses) :
    Gets (firstPiece newline pieceSize []) Caller.act (.reply pid {}) (runReply outcome)
      (.close pid outcome.received) := by
  cases outcome with
  | results text =>
    obtain ⟨-, hline, hend⟩ := h
    refine gets_reply pid (takeLines_results hline hend) (restLines_results hline hend) ?_
    rw [cut_resultsReply]
  | failed error =>
    obtain ⟨-, hline, hlen, hending⟩ := h
    obtain ⟨htake, hrest⟩ := takeLines_oneLine hending
    have hcut := cut_oneLine hline hlen
    refine gets_reply pid ?_ ?_ ?_
    · rw [hcut]
      exact htake
    · rw [hcut]
      exact hrest
    · rw [hcut]

theorem runReply_ne_nil (outcome : RunOutcome) : runReply outcome ≠ [] := by
  cases outcome with
  | results text => exact List.cons_ne_nil _ _
  | failed error => exact List.cons_ne_nil _ _

/-! ## The turns -/

section Turns

variable {backend : Backend} {pid : Nat} {a' : Caller} {b' : Listener}

/-- The turns that are left between a caller and a listener. -/
def Serves (backend : Backend) (pid : Nat) (a : Caller) (b : Listener) (n : Nat) (a' : Caller)
    (b' : Listener) : Prop :=
  Script (firstPiece newline pieceSize []) Caller.act (Listener.act backend pid) a b n a' b'

/-- The setting of options, each with its answer. -/
theorem script_options {helper : Int} {next : Caller}
    {options : List (Setting × List UInt8)} {s : Session} (hmode : s.connector.receiveSql = false)
    (hopts : ∀ o ∈ options, newline ∉ o.2 ∧ IsOption o)
    (hvalues : ∀ o ∈ options, optionValue o.1 o.2 = some o.2) {n : Nat}
    (hrest : Serves backend pid next { session := options.foldl Session.takeOption s } n a' b') :
    ∃ m, Serves backend pid (.setOptions helper options next) { session := s } m a' b' := by
  induction options generalizing s with
  | nil => exact ⟨n, hrest⟩
  | cons option options ih =>
    obtain ⟨setting, value⟩ := option
    obtain ⟨hline, hoption⟩ := hopts _ List.mem_cons_self
    have hvalue : optionValue setting value = some value := hvalues _ List.mem_cons_self
    obtain ⟨m, hm⟩ := ih (s := s.takeOption (setting, value))
      ((s.connector.put_receiveSql _).trans hmode)
      (fun o ho => hopts o (List.mem_cons_of_mem _ ho))
      (fun o ho => hvalues o (List.mem_cons_of_mem _ ho)) hrest
    have hcaller : Caller.setOptions helper ((setting, value) :: options) next =
        .sending (setString setting.option value)
          (.awaitAnswer (.setOptions helper options next)) := by
      rw [Caller.setOptions, List.foldr_cons, hvalue]
      rfl
    rw [hcaller]
    exact ⟨_, .cons (puts_sending _ _) (gets_option hmode hline hoption)
      (puts_out _ _ none) (gets_ok rfl) (List.cons_ne_nil _ _) (by decide) hm⟩

/-- The SQL, with the answer to its end. -/
theorem script_sql {s : Session} (hmode : s.connector.receiveSql = false) {request : Request}
    (hbody : ∀ p ∈ request.bodyPieces, ¬ ascii ":SQL END" <+: p) {helper : Int} {n : Nat}
    (hrest : Serves backend pid (.sending (ascii ":RUN\n") (.reply helper {}))
      { session := s.beginSql.endSql request.body } n a' b') :
    ∃ m, Serves backend pid (.sendSql helper request) { session := s } m a' b' := by
  have hstream : (request.sqlStrings.map Prod.snd).flatten =
      ascii ":SQL BEGIN\n" ++ (request.body ++ ascii ":SQL END\n") := by
    have hnewline : ascii "\n" = [newline] := rfl
    simp only [Request.sqlStrings, Request.body, List.map_cons, List.map_nil,
      List.flatten_cons, List.flatten_nil, List.append_nil, List.append_assoc, hnewline]
  obtain ⟨s', hask, hact⟩ := puts_sendAll (request.sqlStrings.map Prod.snd)
    (.awaitAnswer (.sending (ascii ":RUN\n") (.reply helper {}))) (.sendSql helper request) rfl
  rw [hstream] at hask
  exact ⟨_, .cons hask (gets_sql hmode hbody) (puts_out _ _ none) (gets_ok hact)
    (List.cons_ne_nil _ _) (by decide) hrest⟩

/-- `:RUN`, with the reply. -/
theorem script_run {s s' : Session} (hmode : s.connector.receiveSql = false)
    {outcome : RunOutcome} (hrun : (s.record .run).run backend = .continues s')
    (hsent : s'.sent = s.sent ++ runReply outcome) (hcrosses : outcome.Crosses) {helper : Int}
    {n : Nat} (hrest : Serves backend pid (.close helper outcome.received) { session := s' } n
      a' b') :
    ∃ m, Serves backend pid (.sending (ascii ":RUN\n") (.reply helper {})) { session := s } m
      a' b' := by
  have hline : ascii ":RUN\n" = ascii ":RUN" ++ [newline] := by decide
  have hheard : Gets (firstPiece newline pieceSize []) (Listener.act backend pid)
      { session := s } (ascii ":RUN\n") { session := s', out := runReply outcome } := by
    rw [hline]
    refine gets_continues (by decide) (by decide) ?_ hsent
    rw [← hline, s.takeLine_run backend pid hmode]
    exact hrun
  have hact : Caller.act (.sending [] (.reply helper {})) = Caller.act (.reply helper {}) := rfl
  have hread : Gets (firstPiece newline pieceSize []) Caller.act (.sending [] (.reply helper {}))
      (runReply outcome) (.close helper outcome.received) :=
    .congr hact (runReply_ne_nil outcome) (gets_outcome helper hcrosses)
  exact ⟨_, .cons (puts_sending _ _) hheard (puts_out _ _ none) hread (by decide)
    (runReply_ne_nil outcome) hrest⟩

/-- `:QUIT`, with the answer to it. -/
theorem script_quit {s : Session} (hmode : s.connector.receiveSql = false) (helper : Int)
    (reply : Reply) :
    ∃ m, Serves backend pid (.close helper reply) { session := s } m
      (.finished helper reply.text reply.error)
      { session := s.closing, how := some .disconnected } := by
  have hline : ascii ":QUIT\n" = ascii ":QUIT" ++ [newline] := by decide
  have hbye : ascii ":BYE\n" = ascii ":BYE" ++ [newline] := by decide
  have hheard : Gets (firstPiece newline pieceSize []) (Listener.act backend pid)
      { session := s } (ascii ":QUIT\n")
      { session := s.closing, out := ascii ":BYE\n", how := some .disconnected } := by
    have hgets := @gets_line backend pid s (ascii ":QUIT") (by decide) (by decide)
    rwa [← hline, s.takeLine_quit backend pid hmode, after_stops .disconnected rfl] at hgets
  have hread : Gets (firstPiece newline pieceSize []) Caller.act
      (.sending [] (.awaitBye helper reply.text reply.error)) (ascii ":BYE\n")
      (.finished helper reply.text reply.error) := by
    have hgets := @gets_answer (ascii ":BYE") (by decide) (by decide)
      (.sending [] (.awaitBye helper reply.text reply.error)) _ rfl
    rwa [← hbye] at hgets
  exact ⟨_, .cons (puts_sending _ _) hheard (puts_out _ _ (some .disconnected)) hread
    (by decide) (by decide) (.nil rfl rfl)⟩

/-- `:HELO`, with the process id. -/
theorem script_helo {s : Session} (hmode : s.connector.receiveSql = false)
    (hpid : pid < 2 ^ 31) {request : Request} {n : Nat}
    (hrest : Serves backend pid (.sendRequest pid request) { session := s.greeted pid } n
      a' b') :
    ∃ m, Serves backend pid (.start request) { session := s } m a' b' := by
  have hline : ascii ":HELO\n" = ascii ":HELO" ++ [newline] := by decide
  have hanswer : ascii ":PID " ++ decimal pid ++ ascii "\n" = pidLine pid ++ [newline] := rfl
  have hheard : Gets (firstPiece newline pieceSize []) (Listener.act backend pid)
      { session := s } (ascii ":HELO\n")
      { session := s.greeted pid, out := pidLine pid ++ [newline] } := by
    rw [hline]
    refine gets_continues (by decide) (by decide) ?_ rfl
    rw [← hline]
    exact s.takeLine_helo backend pid hmode
  have hread : Gets (firstPiece newline pieceSize []) Caller.act
      (.sending [] (.awaitPid request)) (pidLine pid ++ [newline])
      (.sendRequest pid request) := by
    have hgets := gets_answer (newline_not_mem_pidLine pid) (length_pidLine hpid)
      (s := .sending [] (.awaitPid request)) rfl
    rwa [initializePid_decimal hpid] at hgets
  exact ⟨_, .cons (puts_sending _ _) hheard (puts_out _ _ none) hread (by decide)
    (by simp) hrest⟩

/-- The outcome of the run that a session has for a request. -/
def Connector.outcome (c : Connector) (backend : Backend) (pid : Nat) (request : Request) :
    RunOutcome :=
  let s := (c.newSession.greeted pid).atRun request
  backend.exec s.trace.length s.connector.request

theorem foldl_takeOption_connected (s : Session) (options : List (Setting × List UInt8)) :
    (options.foldl Session.takeOption s).connector.connected = s.connector.connected := by
  induction options generalizing s with
  | nil => rfl
  | cons option options ih =>
    rw [List.foldl_cons, ih]
    show (s.connector.put option).connected = s.connector.connected
    rw [Connector.put]
    cases hstore : s.connector.store (some option.2) option.1 with
    | none => rfl
    | some result => exact Connector.store_connected hstore

/-- The connector has a login, or it gets one. -/
theorem run_answers (c : Connector) (request : Request)
    (hlogin : c.connected = true ∨ backend.login = none) :
    ∃ s', ((c.newSession.greeted pid).atRun request).run backend = .continues s' ∧
      s'.connector.receiveSql = false ∧
      s'.sent = ((c.newSession.greeted pid).atRun request).sent ++
        runReply (c.outcome backend pid request) := by
  have hconnected : ((c.newSession.greeted pid).atRun request).connector.connected =
      c.connected := foldl_takeOption_connected _ _
  have hnone : (if c.connected = true then none else backend.login) = none := by
    rcases hlogin with hlogin | hlogin
    · exact if_pos hlogin
    · rw [hlogin, ite_self]
  rw [Session.run, hconnected, hnone]
  exact ⟨_, rfl, rfl, rfl⟩

/-- All turns of a named query. -/
theorem script_serves (c : Connector) {request : Request} (hfit : request.NumbersFit)
    (h : WellDelimited request) (hpid : pid < 2 ^ 31)
    (hlogin : c.connected = true ∨ backend.login = none)
    (hcrosses : (c.outcome backend pid request).Crosses) :
    ∃ n final, (∀ events, Delivers events (sessionStream request) →
        serve backend pid c.newSession {} events = (final, .disconnected)) ∧
      Serves backend pid (.start request) { session := c.newSession } n
        (.finished pid (c.outcome backend pid request).received.text
          (c.outcome backend pid request).received.error)
        { session := final, how := some .disconnected } := by
  obtain ⟨s', hrun, hmode, hsent⟩ := @run_answers backend pid c request hlogin
  have hoptions : ∀ o ∈ request.options,
      newline ∉ o.2 ∧ IsOption o := fun o ho => ⟨h.values o ho, request.isOption o ho⟩
  have hsql : (request.options.foldl Session.takeOption
      (c.newSession.greeted pid)).connector.receiveSql = false := receiveSql_foldl _
  obtain ⟨_, hquit⟩ := @script_quit backend pid s' hmode pid
    (c.outcome backend pid request).received
  obtain ⟨_, hrest⟩ := script_run rfl hrun hsent hcrosses hquit
  obtain ⟨_, hrest⟩ := script_sql hsql h.body hrest
  obtain ⟨_, hrest⟩ := script_options rfl hoptions hfit.optionValue hrest
  obtain ⟨n, hscript⟩ := script_helo rfl hpid hrest
  refine ⟨n, s'.closing, fun events hev => ?_, hscript⟩
  have hserve := serve_session pid c ⟨request, backend, true, events, hev⟩ h
  rwa [hrun] at hserve

end Turns

/-! ## All runs -/

/-- Whatever the order of the steps of the two processes and the way in which their streams
are cut, a named query that is well delimited and whose numbers fit `tmp` ends.  The worker
has the process id and what the run came to, and the connector is where it is after the same
stream without a partner.  Whenever the worker sends, it has taken all that the connector
sent. -/
theorem conversation_serves (backend : Backend) {pid : Nat} (hpid : pid < 2 ^ 31)
    (c : Connector) (hlogin : c.connected = true ∨ backend.login = none) {request : Request}
    (hfit : request.NumbersFit) (h : WellDelimited request)
    (hcrosses : (c.outcome backend pid request).Crosses) :
    ∃ bound final, (∀ events, Delivers events (sessionStream request) →
        serve backend pid c.newSession {} events = (final, .disconnected)) ∧
      ∀ es l, StepSystem.run (conversation backend pid)
          { a := Caller.start request, b := { session := c.newSession } } es = some l →
        es.length ≤ bound ∧
        ((∀ e, conversation backend pid l e = none) →
          l = {
            a := .finished pid (c.outcome backend pid request).received.text
              (c.outcome backend pid request).received.error
            b := { session := final, how := some .disconnected } }) ∧
        ∀ b next, l.a.act = .put b next → l.toA = [] ∧ l.atA = [] := by
  obtain ⟨n, final, hserve, hscript⟩ := script_serves c hfit h hpid hlogin hcrosses
  refine ⟨3 * n, final, hserve, fun es l hrun => ⟨?_, ?_, ?_⟩⟩
  · exact run_length_le reader_firstPiece hscript hrun
  · exact run_final reader_firstPiece hscript hrun
  · exact fun b next hact => run_quiet reader_firstPiece hscript hrun hact

/-- A query with a password, to a database that answers `[]`. -/
theorem conversation_serves_secret :
    ∃ bound, ∀ es l, StepSystem.run (conversation emptyBackend 4711)
        { a := Caller.start secretSession.request
          b := { session := ({} : Connector).newSession } } es = some l →
      es.length ≤ bound ∧ ((∀ e, conversation emptyBackend 4711 l e = none) →
        l.a = .finished 4711 (ascii "[]") 0) := by
  have hcrosses : (({} : Connector).outcome emptyBackend 4711 secretSession.request).Crosses := by
    show 0 ∉ ascii "[]" ∧ newline ∉ ascii "[]" ∧ (ascii "[]").getLast? = some 93
    decide
  obtain ⟨bound, final, -, hruns⟩ :=
    @conversation_serves emptyBackend 4711 (by decide) {} (.inr rfl)
    _ (by decide) wellDelimited_samples.1 hcrosses
  refine ⟨bound, fun es l hrun => ?_⟩
  obtain ⟨hlength, hfinal, -⟩ := hruns es l hrun
  exact ⟨hlength, fun hstuck => by rw [hfinal hstuck]; rfl⟩

end DbRelay
