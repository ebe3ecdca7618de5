import DbRelay.Wire.Results

/-!
# Broken sessions

A call of `dbrelay_conn_send_request` logs how its calls of the socket
functions end.  A session is `Broken` when one of them fails, or finds the
socket closed.  It is `Reported` when it went wrong at a point where the code
sets `*error`.

* `connSendRequest_end`: `*error` is set exactly in the reported sessions, and
  a call that writes past `tmp` has a number that does not fit.
* `connSendRequest_isSome`: a call returns when the socket stays closed.
* `errorOnBroken_iff`: when a broken session returns an error.
-/

namespace DbRelay

/-! ## What goes wrong, and what is reported -/

/-- The call failed, or found the socket closed. -/
def Call.breaks : Call → Bool
  | .send _ ok => !ok
  | .recv _ (.line _) => false
  | .recv _ .closed => true
  | .recv _ .failed => true

def Broken (calls : List Call) : Prop := calls.any Call.breaks = true

/-- The code sets `*error` after this call: a failed send other than that of
`:RUN`, a failed receive of the reply, and the line that begins an error. -/
def Call.reported : Call → Bool
  | .send .run _ => false
  | .send _ ok => !ok
  | .recv .run .failed => true
  | .recv .run (.line line) => decide (trimLine line = ascii ":ERROR BEGIN")
  | .recv _ _ => false

def Reported (calls : List Call) : Prop := calls.any Call.reported = true

instance (calls : List Call) : Decidable (Broken calls) :=
  inferInstanceAs (Decidable (_ = true))

instance (calls : List Call) : Decidable (Reported calls) :=
  inferInstanceAs (Decidable (_ = true))

theorem reported_append (calls : List Call) (call : Call) :
    Reported (calls ++ [call]) ↔ Reported calls ∨ call.reported = true := by
  rw [Reported, Reported, List.any_append, Bool.or_eq_true, List.any_cons, List.any_nil,
    Bool.or_false]

/-! ## The error is the report -/

/-- The loop sets `error` at the line that begins an error. -/
theorem Reply.takeLine_error {reply reply' : Reply} {line : List UInt8}
    (h : reply.takeLine line = some reply') :
    reply'.error ≠ 0 ↔ reply.error ≠ 0 ∨ trimLine line = ascii ":ERROR BEGIN" := by
  unfold Reply.takeLine at h
  simp only at h
  split at h
  · cases h
  · split at h
    · rename_i hbegin
      rw [← Option.some.inj h]
      simp [hbegin]
    · rename_i hbegin
      rw [← Option.some.inj h]
      simp [hbegin]

/-- The line that ends the loop begins no error. -/
theorem Reply.takeLine_none {reply : Reply} {line : List UInt8}
    (h : reply.takeLine line = none) : trimLine line ≠ ascii ":ERROR BEGIN" := by
  unfold Reply.takeLine at h
  simp only at h
  split at h
  · rename_i hlast
    intro hbegin
    rw [hbegin] at hlast
    exact absurd hlast (by decide)
  · split at h <;> cases h

theorem receiveReply_error {net net' : Net} {reply : Reply} {inBuf : InBuf}
    {text : List UInt8} {error : Nat}
    (h : receiveReply net reply inBuf = some ((text, error), net'))
    (hreply : reply.error ≠ 0 ↔ Reported net.calls) :
    error ≠ 0 ↔ Reported net'.calls := by
  induction hn : recvWeight inBuf net.recvs using Nat.strong_induction_on
    generalizing net reply inBuf with
  | _ n ih =>
    rw [receiveReply_eq] at h
    cases hrecv : recvString inBuf net.recvs with
    | waiting =>
      rw [hrecv] at h
      cases h
    | returned received inBuf' events =>
      rw [hrecv] at h
      cases received with
      | failed =>
        obtain ⟨⟨-, rfl⟩, rfl⟩ := Prod.mk.inj (Option.some.inj h) |>.imp_left Prod.mk.inj
        rw [Net.afterRecv, reported_append]
        simp [Call.reported]
      | closed =>
        obtain ⟨⟨-, rfl⟩, rfl⟩ := Prod.mk.inj (Option.some.inj h) |>.imp_left Prod.mk.inj
        rw [Net.afterRecv, reported_append, hreply]
        simp [Call.reported]
      | line line =>
        simp only at h
        cases htake : reply.takeLine line with
        | none =>
          rw [htake] at h
          obtain ⟨⟨-, rfl⟩, rfl⟩ := Prod.mk.inj (Option.some.inj h) |>.imp_left Prod.mk.inj
          rw [Net.afterRecv, reported_append, hreply]
          simp [Call.reported, Reply.takeLine_none htake]
        | some reply' =>
          rw [htake] at h
          refine ih _ (hn ▸ recvString_weight hrecv) h ?_ rfl
          rw [Net.afterRecv, reported_append, Reply.takeLine_error htake, hreply]
          simp [Call.reported]

theorem Net.send_reported (net : Net) {point : Point} (str : List UInt8)
    (hpoint : point ≠ .run) :
    Reported (net.send point str).2.calls ↔
      Reported net.calls ∨ (net.send point str).1 = false := by
  rw [Net.send, reported_append]
  cases point with
  | run => exact absurd rfl hpoint
  | _ => simp [Call.reported]

/-- The option phase reports the send that fails.  It sends all options only if every number
fits `tmp`. -/
theorem setOptions_reported {net net' : Net} {options : List (Setting × List UInt8)}
    {ending : OptionsEnd} (h : setOptions net options = some (ending, net')) :
    (Reported net'.calls ↔ Reported net.calls ∨ ending = .failed) ∧
      (ending = .sent → ∀ o ∈ options, optionValue o.1 o.2 ≠ none) ∧
      (ending = .overflow → ∃ o ∈ options, optionValue o.1 o.2 = none) := by
  induction options generalizing net with
  | nil =>
    obtain ⟨rfl, rfl⟩ := Prod.mk.inj (Option.some.inj h)
    simp
  | cons option options ih =>
    obtain ⟨setting, value⟩ := option
    rw [setOptions] at h
    cases hvalue : optionValue setting value with
    | none =>
      rw [hvalue] at h
      obtain ⟨rfl, rfl⟩ := Prod.mk.inj (Option.some.inj h)
      simp [hvalue]
    | some str =>
      rw [hvalue] at h
      simp only [connSetOption] at h
      have hsend := net.send_reported (setString setting.option str)
        (show Point.option setting ≠ .run by simp)
      cases hresult : net.send (.option setting) (setString setting.option str) with
      | mk sent next =>
        rw [hresult] at h hsend
        simp only at hsend
        cases sent with
        | false =>
          obtain ⟨rfl, rfl⟩ := Prod.mk.inj (Option.some.inj h)
          simpa using hsend
        | true =>
          simp only at h
          cases hrecv : recvString {} next.recvs with
          | waiting =>
            rw [hrecv] at h
            cases h
          | returned received inBuf' events =>
            rw [hrecv] at h
            obtain ⟨hreported, hsent, hoverflow⟩ := ih h
            refine ⟨?_, fun hend => ?_, fun hend => ?_⟩
            · rw [hreported, Net.afterRecv, reported_append, hsend]
              cases received <;> simp [Call.reported]
            · intro o hmem
              rcases List.mem_cons.1 hmem with rfl | hmem
              · simp [hvalue]
              · exact hsent hend o hmem
            · obtain ⟨o, hmem, hnone⟩ := hoverflow hend
              exact ⟨o, List.mem_cons_of_mem _ hmem, hnone⟩

/-- The SQL phase reports the send that fails. -/
theorem sendStrings_reported {net net' : Net} {strings : List (Point × List UInt8)} {ok : Bool}
    (hpoints : ∀ string ∈ strings, string.1 ≠ .run)
    (h : sendStrings net strings = (ok, net')) :
    (Reported net'.calls ↔ Reported net.calls ∨ ok = false) ∧ net'.recvs = net.recvs := by
  induction strings generalizing net with
  | nil =>
    obtain ⟨rfl, rfl⟩ := Prod.mk.inj h
    simp
  | cons string strings ih =>
    obtain ⟨point, str⟩ := string
    have hsend := net.send_reported str (hpoints (point, str) List.mem_cons_self)
    have hrecvs : (net.send point str).2.recvs = net.recvs := rfl
    rw [sendStrings] at h
    cases hresult : net.send point str with
    | mk sent next =>
      rw [hresult] at h hsend hrecvs
      cases sent with
      | false =>
        obtain ⟨rfl, rfl⟩ := Prod.mk.inj h
        exact ⟨hsend, hrecvs⟩
      | true =>
        obtain ⟨hrest, hrecvs'⟩ :=
          ih (fun s hs => hpoints s (List.mem_cons_of_mem _ hs)) h
        refine ⟨?_, hrecvs'.trans hrecvs⟩
        rw [hrest, hsend]
        simp

theorem runAndReceive_error {net net' : Net} {text : List UInt8} {error : Nat}
    (h : runAndReceive net = some ((text, error), net')) (hnet : ¬ Reported net.calls) :
    error ≠ 0 ↔ Reported net'.calls := by
  unfold runAndReceive at h
  cases hrecv : recvString {} net.recvs with
  | waiting =>
    rw [hrecv] at h
    cases h
  | returned received inBuf events =>
    rw [hrecv] at h
    simp only at h
    have hafter : ¬ Reported
        ((net.afterRecv .sqlEnd received events).send .run (ascii ":RUN\n")).2.calls := by
      rw [Net.send, reported_append, Net.afterRecv, reported_append]
      cases received <;> simp [Call.reported, hnet]
    cases hresult : (net.afterRecv .sqlEnd received events).send .run (ascii ":RUN\n") with
    | mk sent next =>
      rw [hresult] at h hafter
      cases sent with
      | false =>
        obtain ⟨⟨-, rfl⟩, rfl⟩ := Prod.mk.inj (Option.some.inj h) |>.imp_left Prod.mk.inj
        simpa using hafter
      | true =>
        apply receiveReply_error h
        simpa using hafter

/-- `*error` is set exactly in the reported sessions.  A session that was not reported ends
within `tmp` exactly if the numbers fit. -/
theorem connSendRequest_end {request : Request} {net net' : Net} {ending : RequestEnd}
    (hnet : net.calls = []) (h : connSendRequest request net = some (ending, net')) :
    (∀ text error, ending = .returned text error →
      (error ≠ 0 ↔ Reported net'.calls) ∧ (request.NumbersFit ∨ Reported net'.calls)) ∧
    (ending = .overflow → ¬ Reported net'.calls ∧ ¬ request.NumbersFit) := by
  have hstart : ¬ Reported net.calls := by
    rw [hnet]
    decide
  unfold connSendRequest at h
  cases hoptions : setOptions net request.options with
  | none =>
    rw [hoptions] at h
    cases h
  | some result =>
    obtain ⟨how, net₁⟩ := result
    obtain ⟨hreported, hsent, hoverflow⟩ := setOptions_reported hoptions
    rw [hoptions] at h
    cases how with
    | overflow =>
      obtain ⟨rfl, rfl⟩ := Prod.mk.inj (Option.some.inj h)
      refine ⟨fun text error heq => (by cases heq), fun _ => ⟨?_, fun hfit => ?_⟩⟩
      · rw [hreported]
        simpa using hstart
      · obtain ⟨o, hmem, hnone⟩ := hoverflow rfl
        rw [hfit.optionValue o hmem] at hnone
        cases hnone
    | failed =>
      obtain ⟨rfl, rfl⟩ := Prod.mk.inj (Option.some.inj h)
      refine ⟨fun text error heq => ?_, fun heq => (by cases heq)⟩
      obtain ⟨rfl, rfl⟩ := RequestEnd.returned.inj heq
      simp [hreported]
    | sent =>
      have hfit : request.NumbersFit := by
        by_contra hfit
        obtain ⟨o, hmem, hnone⟩ := Request.overflow_of_not_fits hfit
        exact hsent rfl o hmem hnone
      simp only at h
      have hpoints : ∀ string ∈ request.sqlStrings, string.1 ≠ .run := by
        simp [Request.sqlStrings]
      cases hstrings : sendStrings net₁ request.sqlStrings with
      | mk ok net₂ =>
        obtain ⟨hreported', -⟩ := sendStrings_reported hpoints hstrings
        rw [hstrings] at h
        cases ok with
        | false =>
          obtain ⟨rfl, rfl⟩ := Prod.mk.inj (Option.some.inj h)
          refine ⟨fun text error heq => ?_, fun heq => (by cases heq)⟩
          obtain ⟨rfl, rfl⟩ := RequestEnd.returned.inj heq
          simp [hreported']
        | true =>
          obtain ⟨⟨⟨text, error⟩, net₃⟩, hrun, heq⟩ := Option.map_eq_some_iff.1 h
          obtain ⟨rfl, rfl⟩ := Prod.mk.inj heq
          refine ⟨fun text' error' heq => ?_, fun heq => (by cases heq)⟩
          obtain ⟨rfl, rfl⟩ := RequestEnd.returned.inj heq
          refine ⟨runAndReceive_error hrun ?_, .inl hfit⟩
          rw [hreported', hreported]
          simpa using hstart

/-! ## A call returns -/

/-- The events with which a receive returns 0 or -1. -/
def RecvEvent.endsCall : RecvEvent → Bool
  | .data _ | .interrupted => false
  | .closed | .failed | .waitFailed => true

/-- How often a receive can still return 0 or -1. -/
def endings (events : List RecvEvent) : Nat := events.countP RecvEvent.endsCall

/-- The call returned a line, and used up no ending, or it used up one. -/
def ReturnsWithin (result : RecvResult) (count : Nat) : Prop :=
  ∃ received inBuf events, result = .returned received inBuf events ∧
    count ≤ endings events + 1 ∧ (∀ line, received = .line line → count ≤ endings events)

theorem recvFetch_returns {events : List RecvEvent} (h : 0 < endings events)
    (buf : CharBuf socketBufsize) (out : List UInt8) :
    ReturnsWithin (recvFetch buf out events) (endings events) := by
  induction events generalizing buf out with
  | nil => cases h
  | cons event events ih =>
    cases event with
    | closed | failed | waitFailed =>
      refine ⟨_, _, _, rfl, ?_, fun line hline => by cases hline⟩
      exact le_of_eq (List.countP_cons_of_pos rfl)
    | interrupted =>
      have hskip : endings (.interrupted :: events) = endings events :=
        List.countP_cons_of_neg (by decide)
      rw [hskip] at h ⊢
      exact ih h buf out
    | data fragment =>
      have hskip : endings (.data fragment :: events) = endings events :=
        List.countP_cons_of_neg (by simp [RecvEvent.endsCall])
      rw [hskip] at h ⊢
      simp only [recvFetch]
      split
      · exact ⟨_, _, _, rfl, Nat.le_succ _, fun _ _ => le_rfl⟩
      · exact ih h _ _

/-- A receive returns as long as an ending is left. -/
theorem recvString_returns {events : List RecvEvent} (h : 0 < endings events)
    (inBuf : InBuf) : ReturnsWithin (recvString inBuf events) (endings events) := by
  unfold recvString
  split
  · exact recvFetch_returns h _ _
  · split
    · exact recvFetch_returns h _ _
    · split
      · exact ⟨_, _, _, rfl, Nat.le_succ _, fun _ _ => le_rfl⟩
      · exact recvFetch_returns h _ _

theorem receiveReply_isSome {net : Net} (h : 0 < endings net.recvs) (reply : Reply)
    (inBuf : InBuf) : (receiveReply net reply inBuf).isSome = true := by
  induction hn : recvWeight inBuf net.recvs using Nat.strong_induction_on
    generalizing net reply inBuf with
  | _ n ih =>
    obtain ⟨received, inBuf', events, hrecv, -, hline⟩ := recvString_returns h inBuf
    rw [receiveReply_eq, hrecv]
    cases received with
    | failed | closed => rfl
    | line line =>
      simp only
      cases reply.takeLine line with
      | none => rfl
      | some reply' =>
        exact ih _ (hn ▸ recvString_weight hrecv) (h.trans_le (hline line rfl)) reply' inBuf' rfl

/-- The option phase uses up at most one ending for each option. -/
theorem setOptions_isSome {options : List (Setting × List UInt8)} {net : Net} {count : Nat}
    (h : options.length + count + 1 ≤ endings net.recvs) :
    ∃ ending net', setOptions net options = some (ending, net') ∧
      count + 1 ≤ endings net'.recvs := by
  induction options generalizing net with
  | nil => exact ⟨.sent, net, rfl, by simpa using h⟩
  | cons option options ih =>
    obtain ⟨setting, value⟩ := option
    rw [List.length_cons] at h
    rw [setOptions]
    cases optionValue setting value with
    | none => exact ⟨.overflow, net, rfl, by omega⟩
    | some str =>
      simp only [connSetOption]
      have hrecvs : (net.send (.option setting) (setString setting.option str)).2.recvs =
          net.recvs := rfl
      cases hresult : net.send (.option setting) (setString setting.option str) with
      | mk sent next =>
        rw [hresult] at hrecvs
        cases sent with
        | false =>
          refine ⟨.failed, next, rfl, ?_⟩
          rw [hrecvs]
          omega
        | true =>
          obtain ⟨received, inBuf, events, hrecv, hcount, -⟩ :=
            recvString_returns (by omega : 0 < endings net.recvs) {}
          simp only at hrecvs ⊢
          rw [hrecvs, hrecv]
          refine @ih (next.afterRecv (.option setting) received events) ?_
          show options.length + count + 1 ≤ endings events
          omega

/-- A call returns when the receives can fail often enough: once for each
option, after `:SQL END`, and in the reply. -/
theorem connSendRequest_isSome {request : Request} {net : Net}
    (h : request.options.length + 2 ≤ endings net.recvs) :
    (connSendRequest request net).isSome = true := by
  obtain ⟨ending, net₁, hoptions, hcount⟩ := @setOptions_isSome request.options net 1 h
  have hpoints : ∀ string ∈ request.sqlStrings, string.1 ≠ .run := by
    simp [Request.sqlStrings]
  rw [connSendRequest, hoptions]
  cases ending with
  | failed | overflow => rfl
  | sent =>
    simp only
    cases hstrings : sendStrings net₁ request.sqlStrings with
    | mk ok net₂ =>
      obtain ⟨-, hrecvs⟩ := sendStrings_reported hpoints hstrings
      cases ok with
      | false => rfl
      | true =>
        obtain ⟨received, inBuf, events, hrecv, hcount', -⟩ :=
          recvString_returns (by omega : 0 < endings net₁.recvs) {}
        simp only [Option.isSome_map]
        rw [runAndReceive, hrecvs, hrecv]
        simp only
        cases hresult : (net₂.afterRecv .sqlEnd received events).send .run
            (ascii ":RUN\n") with
        | mk sent next =>
          cases sent with
          | false => rfl
          | true =>
            apply receiveReply_isSome
            have hnext : next.recvs = events :=
              (congrArg (fun result => result.2.recvs) hresult).symm
            rw [hnext]
            omega

/-! ## Errors of broken sessions -/

/-- A broken session ends with an error, and its text is no data.  A call that writes past
`tmp` has no such end. -/
def ErrorOnBroken (calls : List Call) : RequestEnd → Prop
  | .returned text error => Broken calls → error ≠ 0 ∧ replyData text error = none
  | .overflow => False

/-- A call ends if the receives can fail often enough.  A broken session ends with an error
if and only if it was reported, or was not broken and the numbers fit. -/
theorem errorOnBroken_iff (request : Request) (recvs : List RecvEvent)
    (sends : List SendEvent) :
    (request.options.length + 2 ≤ endings recvs →
      (connSendRequest request ⟨recvs, sends, [], []⟩).isSome = true) ∧
    ∀ ending net',
      connSendRequest request ⟨recvs, sends, [], []⟩ = some (ending, net') →
      (ErrorOnBroken net'.calls ending ↔
        Reported net'.calls ∨ ¬ Broken net'.calls ∧ request.NumbersFit) := by
  refine ⟨fun h => @connSendRequest_isSome request ⟨recvs, sends, [], []⟩ h,
    fun ending net' h => ?_⟩
  obtain ⟨hreturned, hoverflow⟩ := connSendRequest_end rfl h
  cases ending with
  | overflow =>
    obtain ⟨hreported, hfit⟩ := hoverflow rfl
    exact iff_of_false not_false fun hor => hor.elim hreported fun hboth => hfit hboth.2
  | returned text error =>
    obtain ⟨herror, hfit⟩ := hreturned text error rfl
    constructor
    · intro hbroken
      by_cases hcalls : Broken net'.calls
      · exact .inl (herror.1 (hbroken hcalls).1)
      · exact hfit.symm.imp_right fun hfits => ⟨hcalls, hfits⟩
    · intro hor hcalls
      have hne := herror.2 (hor.resolve_right fun hboth => hboth.1 hcalls)
      exact ⟨hne, if_pos hne⟩

/-- The first send fails, and the call reports it. -/
theorem errorOnBroken_firstSend :
    ErrorOnBroken [.send (.option .server) false] (.returned socketErrorText 2) :=
  ((errorOnBroken_iff (namedRequest (.ofBytes (ascii "select 1"))) [] [.failed]).2 _
    ⟨[], [], [], [.send (.option .server) false]⟩ rfl).2 (by decide)

/-- The send of `:RUN` fails after ten that did not, and the text of the
internal error becomes query data. -/
theorem not_errorOnBroken_runFailed :
    ¬ ∀ (request : Request) (recvs : List RecvEvent) (sends : List SendEvent)
      (ending : RequestEnd) (net' : Net),
      connSendRequest request ⟨recvs, sends, [], []⟩ = some (ending, net') →
      ErrorOnBroken net'.calls ending := by
  intro h
  have hrun : ((connSendRequest (namedRequest (.ofBytes (ascii "select 1")))
      ⟨(List.replicate 7 okEvents).flatten, List.replicate 10 (.sent 4095) ++ [.failed],
        [], []⟩).map fun result => (result.1, result.2.calls.getLast?)) =
      some (.returned socketErrorText 0, some (.send .run false)) := by decide +kernel
  obtain ⟨⟨ending, net'⟩, hresult, heq⟩ := Option.map_eq_some_iff.1 hrun
  obtain ⟨rfl, hlast⟩ := Prod.mk.inj heq
  have hbroken : Broken net'.calls :=
    List.any_eq_true.2 ⟨_, List.mem_of_getLast? hlast, rfl⟩
  exact (h _ _ _ _ _ hresult hbroken).1 rfl

end DbRelay
