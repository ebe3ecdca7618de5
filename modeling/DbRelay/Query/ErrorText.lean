import DbRelay.Wire.Results
import DbRelay.Query.RunQuery

/-!
# Error texts cross the socket

The error text of a failed query is part of the response.  For an unnamed connection
`dbrelay_db_run_query` takes it from `api->error`.  For a named one the connector sends it
between `":ERROR BEGIN"` and `":ERROR END"`, and the client appends its lines.

* `ErrorCrosses` says that both ways end in the same text, and that the client stops at the
  end of the reply.
* `endingLines` are the texts that the client takes for the lines of the protocol.
* `errorCrosses_iff`: a text crosses exactly if it is one line, and not one of these, and the
  numbers of the request fit `tmp`.
-/

namespace DbRelay

open Framing

/-! ## The two ways -/

/-- The client gets one line for each command before `:RUN`, and then the connector's reply
to a query that failed. -/
structure ErrorExchange (request : Request) (error : List UInt8) where
  answers : List (List RecvEvent)
  answers_line : ∀ events ∈ answers, DeliversLine events
  answers_length : answers.length = request.options.length + 1
  reply : List RecvEvent
  reply_delivers : Delivers reply (runReply (.failed error))
  /-- What the connector sends later. -/
  more : List RecvEvent
  sends : List SendEvent
  sends_ok : AllSent sends

def ErrorExchange.net {request : Request} {error : List UInt8} (x : ErrorExchange request error) :
    Net :=
  { recvs := x.answers.flatten ++ (x.reply ++ x.more), sends := x.sends }

/-- `error_string` of a named request after `dbrelay_conn_send_request`. -/
def namedErrorString (request : Request) (text : CString) (haveError : Nat)
    (json : JsonWriter) : Option (List UInt8) :=
  (runNamed request { connection := true, reply := some (text, haveError) } json).map Prod.snd

/-- `error_string` of an unnamed request whose query failed. -/
def unnamedErrorString (request : Request) (error : CString) (json : JsonWriter) :
    Option (List UInt8) :=
  (runUnnamed request { connection := true, connected := true, error := some error } json).map
    Prod.snd

/-- A query of this request that fails with this text has it in the response either way, and
the client receives the reply up to its end. -/
def ErrorCrosses (request : Request) (error : CString) : Prop :=
  ∀ (json : JsonWriter) (x : ErrorExchange request error.bytes),
    ∃ text haveError net' idle,
      connSendRequest request x.net = some (.returned text haveError, net') ∧
      haveError ≠ 0 ∧
      unnamedErrorString request error json = some error.bytes ∧
      namedErrorString request (.ofBytes text) haveError json = some error.bytes ∧
      net'.recvs = idle ++ x.more ∧ Delivers idle []

/-! ## Lines and texts -/

/-- Without a newline in it a line stays one. -/
theorem newline_not_mem_trimLine {p : List UInt8} (h : newline ∉ p.dropLast) :
    newline ∉ trimLine p := by
  rw [trimLine]
  split
  · exact h
  · rename_i hlast
    intro hmem
    cases p using List.reverseRec with
    | nil => cases hmem
    | append_singleton p b _ =>
      rw [List.dropLast_concat] at h
      rcases List.mem_append.1 hmem with hmem | hmem
      · exact h hmem
      · rw [List.mem_singleton.1 hmem] at hlast
        exact hlast (by simp)

/-- The text of a reply has no newline. -/
theorem Reply.newline_not_mem_takeLine {reply reply' : Reply} {line : List UInt8}
    (htext : newline ∉ reply.text) (hline : newline ∉ trimLine line)
    (h : reply.takeLine line = some reply') : newline ∉ reply'.text := by
  have hnext : reply'.text = reply.text ∨ reply'.text = reply.text ++ trimLine line := by
    rw [Reply.takeLine] at h
    simp only at h
    split at h
    · cases h
    · split at h <;> obtain rfl := Option.some.inj h <;> simp only <;> split <;> simp
  rcases hnext with heq | heq
  · rw [heq]
    exact htext
  · rw [heq, List.mem_append, not_or]
    exact ⟨htext, hline⟩

theorem Reply.newline_not_mem_takeLines {reply final : Reply} {lines : List (List UInt8)}
    (htext : newline ∉ reply.text) (hlines : ∀ line ∈ lines, newline ∉ trimLine line)
    (h : reply.takeLines lines = some final) : newline ∉ final.text := by
  induction lines generalizing reply with
  | nil => cases h
  | cons line lines ih =>
    rw [Reply.takeLines] at h
    cases htake : reply.takeLine line with
    | none =>
      rw [htake] at h
      obtain rfl := Option.some.inj h
      exact htext
    | some reply' =>
      rw [htake] at h
      exact ih (Reply.newline_not_mem_takeLine htext (hlines line List.mem_cons_self) htake)
        (fun l hl => hlines l (List.mem_cons_of_mem _ hl)) h

/-- A last line ends the loop. -/
theorem Reply.takeLines_isSome (reply : Reply) (lines : List (List UInt8)) :
    (reply.takeLines (lines ++ [ascii ":OK\n"])).isSome = true := by
  induction lines generalizing reply with
  | nil => rfl
  | cons line lines ih =>
    rw [List.cons_append, Reply.takeLines]
    cases reply.takeLine line with
    | none => rfl
    | some reply' => exact ih reply'

/-! ## The reply to a failed query -/

theorem failedReply_eq (error : List UInt8) :
    runReply (.failed error) = ascii ":ERROR BEGIN" ++ newline ::
      (error ++ [newline] ++ (ascii ":ERROR END" ++ newline ::
        (ascii ":OK" ++ newline :: []))) := by
  have hbegin : ascii ":ERROR BEGIN\n" = ascii ":ERROR BEGIN" ++ [newline] := by decide
  have herror : ascii ":ERROR END\n" = ascii ":ERROR END" ++ [newline] := by decide
  have hok : ascii ":OK\n" = ascii ":OK" ++ [newline] := by decide
  have hnewline : ascii "\n" = [newline] := by decide
  rw [runReply, hbegin, herror, hok, hnewline]
  simp only [List.append_assoc, List.cons_append, List.nil_append]

/-- The pieces of the reply are its lines. -/
theorem cut_failedReply (error : List UInt8) :
    cut newline pieceSize [] (runReply (.failed error)) =
      (ascii ":ERROR BEGIN\n" :: ((cut newline pieceSize [] (error ++ [newline])).1 ++
        [ascii ":ERROR END\n"] ++ [ascii ":OK\n"]), []) := by
  have hbegin : ascii ":ERROR BEGIN" ∈ controlLines := by decide
  have hend : ascii ":ERROR END" ∈ controlLines := by decide
  have hok : ascii ":OK" ∈ controlLines := by decide
  refine Prod.ext ?_ ?_
  · rw [failedReply_eq, cut_controlLine hbegin, cut_delim_append, cut_controlLine hend,
      cut_controlLine hok, List.append_assoc]
    rfl
  · have hlast : runReply (.failed error) = ascii ":ERROR BEGIN\n" ++ error ++ ascii "\n" ++
        ascii ":ERROR END\n" ++ ascii ":OK" ++ [newline] := by
      have hok : ascii ":OK\n" = ascii ":OK" ++ [newline] := by decide
      rw [runReply, hok]
      simp only [List.append_assoc]
    rw [hlast, cut_snd_delim]

theorem newline_not_mem_pieces (error : List UInt8) :
    ∀ p ∈ (cut newline pieceSize [] (runReply (.failed error))).1, newline ∉ trimLine p :=
  fun _ hp => newline_not_mem_trimLine (delim_not_mem_dropLast List.not_mem_nil hp)

/-- The texts that the client does not take for a part of the message. -/
def endingLines : List (List UInt8) :=
  [ascii ":BYE", ascii ":OK", ascii ":ERR", ascii ":ERROR END", ascii ":RESULTS BEGIN"]

/-- The loop after `":ERROR BEGIN"`. -/
def Reply.failing (text : List UInt8) : Reply := { errors := true, error := 1, text := text }

theorem Reply.takeLine_failing {text line : List UInt8} (hline : trimLine line ∉ endingLines) :
    (Reply.failing text).takeLine line = some (Reply.failing (text ++ trimLine line)) := by
  simp only [endingLines, List.mem_cons, List.not_mem_nil, or_false, not_or] at hline
  obtain ⟨hbye, hok, herr, herrorEnd, hresults⟩ := hline
  have hlast : lastLine (trimLine line) = false := by
    simp only [lastLine, hbye, hok, herr, or_self, decide_false]
  simp only [Reply.takeLine, hlast, Reply.failing, herrorEnd, hresults, Bool.false_eq_true,
    if_false, ne_eq, not_false_eq_true, decide_true, Bool.and_true, Bool.false_and,
    Bool.false_or, decide_false, if_true, ite_self]

/-- The lines of a reply with one line of text. -/
def oneLineReply (error : List UInt8) : List (List UInt8) :=
  [ascii ":ERROR BEGIN\n", error ++ [newline], ascii ":ERROR END\n", ascii ":OK\n"]

theorem cut_oneLine {error : List UInt8} (hline : newline ∉ error)
    (hlen : error.length < pieceSize) :
    cut newline pieceSize [] (runReply (.failed error)) = (oneLineReply error, []) := by
  rw [cut_failedReply, cut_line [] hline hlen]
  rfl

/-- A line of text is taken as it is, and the loop ends with the last line. -/
theorem takeLines_oneLine {error : List UInt8} (hending : error ∉ endingLines) :
    ({} : Reply).takeLines (oneLineReply error) = some { error := 1, text := error } ∧
      ({} : Reply).restLines (oneLineReply error) = [] := by
  have htrim : trimLine (error ++ [newline]) = error := by
    rw [trimLine, if_pos (by simp), List.dropLast_concat]
  have hbegin : ({} : Reply).takeLine (ascii ":ERROR BEGIN\n") = some (Reply.failing []) := by
    decide
  have htext : (Reply.failing []).takeLine (error ++ [newline]) =
      some (Reply.failing error) := by
    have htaken := @Reply.takeLine_failing [] (error ++ [newline])
    rw [htrim, List.nil_append] at htaken
    exact htaken hending
  have hend : (Reply.failing error).takeLine (ascii ":ERROR END\n") =
      some { error := 1, text := error } := by
    have htrim : trimLine (ascii ":ERROR END\n") = ascii ":ERROR END" := by decide
    have hlast : lastLine (ascii ":ERROR END") = false := by decide
    have herror : ascii ":ERROR END" ≠ ascii ":ERROR BEGIN" := by decide
    have hresults : ascii ":ERROR END" ≠ ascii ":RESULTS BEGIN" := by decide
    simp [Reply.takeLine, Reply.failing, htrim, hlast, herror, hresults]
  have hok : ({ error := 1, text := error } : Reply).takeLine (ascii ":OK\n") = none := rfl
  unfold oneLineReply
  simp only [Reply.takeLines, Reply.restLines, hbegin, htext, hend, hok, and_self]

/-- What is left of a line that ends the message is another text. -/
theorem takeLines_ending {error : List UInt8} (hending : error ∈ endingLines) :
    ∃ final, ({} : Reply).takeLines (oneLineReply error) = some final ∧
      copyError (.ofBytes final.text) errorSz ≠ error := by
  have hall : ∀ e ∈ endingLines, (({} : Reply).takeLines (oneLineReply e)).any
      (fun final => decide (copyError (.ofBytes final.text) errorSz ≠ e)) = true := by decide
  obtain ⟨final, hfinal, hne⟩ := (Option.any_eq_true _ _).1 (hall error hending)
  exact ⟨final, hfinal, of_decide_eq_true hne⟩

/-! ## Crossing -/

theorem failedReply_noNul (error : CString) : 0 ∉ runReply (.failed error.bytes) := by
  have hbegin : 0 ∉ ascii ":ERROR BEGIN\n" := by decide
  have hend : 0 ∉ ascii "\n" ++ ascii ":ERROR END\n" ++ ascii ":OK\n" := by decide
  simp only [runReply, List.mem_append, not_or] at hend ⊢
  exact ⟨⟨⟨⟨hbegin, error.noNul⟩, hend.1.1⟩, hend.1.2⟩, hend.2⟩

/-- The unchecked copy. -/
theorem unnamedErrorString_eq (request : Request) (error : CString) (json : JsonWriter) :
    unnamedErrorString request error json =
      if error.bytes.length < errorSz then some error.bytes else none := by
  unfold unnamedErrorString runUnnamed
  by_cases h : error.bytes.length < errorSz <;> simp [h]

theorem namedErrorString_eq (request : Request) (text : CString) {haveError : Nat}
    (h : haveError ≠ 0) (json : JsonWriter) :
    namedErrorString request text haveError json = some (copyError text errorSz) := by
  unfold namedErrorString runNamed
  simp [h]

/-- The reply with an error fits into one fragment. -/
theorem runReply_failed_fits {error : List UInt8} (hlen : error.length < errorSz) :
    (runReply (.failed error)).length < socketBufsize := by
  have hbegin : (ascii ":ERROR BEGIN\n").length = 13 := by decide
  have hnewline : (ascii "\n").length = 1 := by decide
  have hend : (ascii ":ERROR END\n").length = 11 := by decide
  have hok : (ascii ":OK\n").length = 4 := by decide
  unfold errorSz at hlen
  simp only [runReply, List.length_append, hbegin, hnewline, hend, hok]
  unfold socketBufsize
  omega

theorem runReply_failed_ne_nil (error : List UInt8) : runReply (.failed error) ≠ [] :=
  List.append_ne_nil_of_right_ne_nil _ (by decide)

/-- An exchange with the reply in one fragment. -/
def ErrorExchange.oneFragment (request : Request) (error : CString)
    (hlen : error.bytes.length < errorSz) : ErrorExchange request error.bytes where
  answers := List.replicate (request.options.length + 1) okEvents
  answers_line _ hmem := List.eq_of_mem_replicate hmem ▸ okEvents_line
  answers_length := List.length_replicate
  reply := [.data
    { bytes := runReply (.failed error.bytes)
      nonempty := runReply_failed_ne_nil error.bytes
      fits := runReply_failed_fits hlen }]
  reply_delivers := delivers_fragment _
  more := []
  sends := []
  sends_ok := fun _ hmem => absurd hmem List.not_mem_nil

/-- What the call returns in an exchange. -/
theorem ErrorExchange.call {request : Request} (hfit : request.NumbersFit) {error : CString}
    (x : ErrorExchange request error.bytes) {final : Reply}
    (hlines : ({} : Reply).takeLines
      (cut newline pieceSize [] (runReply (.failed error.bytes))).1 = some final) :
    ∃ net' events' rest pending,
      connSendRequest request x.net = some (.returned final.text final.error, net') ∧
      net'.recvs = events' ++ x.more ∧ Delivers events' rest ∧
      pending ++ rest = (({} : Reply).restLines
        (cut newline pieceSize [] (runReply (.failed error.bytes))).1).flatten ++
          (cut newline pieceSize [] (runReply (.failed error.bytes))).2 :=
  connSendRequest_reply hfit (failedReply_noNul error) hlines x.answers_line x.answers_length
    x.reply_delivers rfl x.sends_ok

/-- A request whose error texts cross has numbers that fit `tmp`. -/
theorem ErrorCrosses.numbersFit {request : Request} {error : CString}
    (h : ErrorCrosses request error) (hlen : error.bytes.length < errorSz) :
    request.NumbersFit := by
  by_contra hfit
  let x := ErrorExchange.oneFragment request error hlen
  obtain ⟨text, haveError, net', idle, hcall, -⟩ := h (.new false) x
  obtain ⟨net'', hover⟩ :=
    @connSendRequest_overflow request hfit _ x.answers_line x.answers_length _ x.net rfl x.sends_ok
  rw [hcall] at hover
  cases hover

/-- A text that crosses is what the client's copy of its lines leaves. -/
theorem ErrorCrosses.text_eq {request : Request} {error : CString}
    (h : ErrorCrosses request error) (hlen : error.bytes.length < errorSz) {final : Reply}
    (hlines : ({} : Reply).takeLines
      (cut newline pieceSize [] (runReply (.failed error.bytes))).1 = some final) :
    error.bytes = copyError (.ofBytes final.text) errorSz := by
  obtain ⟨text, haveError, net', idle, hcall, herror, -, hsame, -, -⟩ :=
    h (.new false) (.oneFragment request error hlen)
  rw [namedErrorString_eq _ _ herror] at hsame
  obtain ⟨_, _, _, _, hcall', -⟩ :=
    (ErrorExchange.oneFragment request error hlen).call (h.numbersFit hlen) hlines
  rw [hcall] at hcall'
  obtain ⟨hend, -⟩ := Prod.mk.inj (Option.some.inj hcall')
  rw [← (RequestEnd.returned.inj hend).1]
  exact (Option.some.inj hsame).symm

theorem ErrorCrosses.newline_not_mem {request : Request} {error : CString}
    (h : ErrorCrosses request error) (hlen : error.bytes.length < errorSz) :
    newline ∉ error.bytes := by
  have hsome : (({} : Reply).takeLines
      (cut newline pieceSize [] (runReply (.failed error.bytes))).1).isSome = true := by
    rw [cut_failedReply]
    exact Reply.takeLines_isSome _ (_ :: _)
  obtain ⟨final, hfinal⟩ := Option.isSome_iff_exists.1 hsome
  have hstart : newline ∉ ({} : Reply).text := List.not_mem_nil
  have hno := Reply.newline_not_mem_takeLines hstart (newline_not_mem_pieces error.bytes) hfinal
  have hcopied : copyError (.ofBytes final.text) errorSz <+: final.text := by
    unfold copyError
    split
    · exact List.takeWhile_prefix _
    · exact (List.take_prefix _ _).trans (List.takeWhile_prefix _)
  rw [h.text_eq hlen hfinal]
  exact fun hmem => hno (hcopied.subset hmem)

/-- The pieces of a reply with one line of text. -/
theorem pieces_oneLine {error : List UInt8} (hline : newline ∉ error)
    (hlen : error.length < errorSz) :
    (cut newline pieceSize [] (runReply (.failed error))).1 = oneLineReply error ∧
      (cut newline pieceSize [] (runReply (.failed error))).2 = [] := by
  have hpiece : error.length < pieceSize := by
    unfold errorSz at hlen
    unfold pieceSize socketBufsize
    omega
  rw [cut_oneLine hline hpiece]
  exact ⟨rfl, rfl⟩

theorem ErrorCrosses.not_mem_endingLines {request : Request} {error : CString}
    (h : ErrorCrosses request error) (hlen : error.bytes.length < errorSz) :
    error.bytes ∉ endingLines := by
  intro hending
  obtain ⟨final, hfinal, hne⟩ := takeLines_ending hending
  rw [← (pieces_oneLine (h.newline_not_mem hlen) hlen).1] at hfinal
  exact hne (h.text_eq hlen hfinal).symm

/-- One line that does not end the message crosses. -/
theorem errorCrosses_of_oneLine {request : Request} (hfit : request.NumbersFit)
    {error : CString} (hlen : error.bytes.length < errorSz) (hline : newline ∉ error.bytes)
    (hending : error.bytes ∉ endingLines) : ErrorCrosses request error := by
  intro json x
  obtain ⟨hcut, htail⟩ := pieces_oneLine hline hlen
  obtain ⟨htaken, hrest⟩ := takeLines_oneLine hending
  rw [← hcut] at htaken hrest
  obtain ⟨net', idle, rest, pending, hcall, hrecvs, hidle, hleft⟩ := x.call hfit htaken
  rw [hrest, htail, List.flatten_nil, List.nil_append, List.append_eq_nil_iff] at hleft
  rw [hleft.2] at hidle
  refine ⟨error.bytes, 1, net', idle, hcall, Nat.one_ne_zero, ?_, ?_, hrecvs, hidle⟩
  · rw [unnamedErrorString_eq, if_pos hlen]
  · rw [namedErrorString_eq _ _ Nat.one_ne_zero, CString.ofBytes_bytes, copyError, if_pos hlen]

/-- A text crosses exactly if it is one line that does not end the message, and the numbers
of the request fit `tmp`. -/
theorem errorCrosses_iff (request : Request) {error : CString}
    (hlen : error.bytes.length < errorSz) :
    ErrorCrosses request error ↔
      request.NumbersFit ∧ newline ∉ error.bytes ∧ error.bytes ∉ endingLines := by
  constructor
  · intro h
    exact ⟨h.numbersFit hlen, h.newline_not_mem hlen, h.not_mem_endingLines hlen⟩
  · intro h
    obtain ⟨hfit, hline, hending⟩ := h
    exact errorCrosses_of_oneLine hfit hlen hline hending

theorem errorCrosses_denied :
    ErrorCrosses (namedRequest (.ofBytes (ascii "select 1"))) (.ofBytes (ascii "denied")) :=
  (errorCrosses_iff _ (by decide)).2 ⟨by decide, by decide, by decide⟩

/-- A message of the server has a newline before it, which does not come through. -/
theorem not_errorCrosses_message :
    ¬ErrorCrosses (namedRequest (.ofBytes (ascii "select 1"))) (.ofBytes (ascii "\ndenied")) :=
  fun h => h.newline_not_mem (by decide) (by decide)

end DbRelay
