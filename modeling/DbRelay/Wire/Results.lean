import DbRelay.Wire.Protocol

/-!
# Results cross the socket

The reply of a connector goes through the same function that receives control
lines.  This module shows that a result on one line that ends with a bracket
comes out as it went in.

* `receiveReply_delivers`: however the reply arrives, the loop of the client
  does what `Reply.takeLines` does with its pieces.
* `takeLines_results`: on the pieces of a reply with results.
* `connSendRequest_results`: the whole call, with the answers to the options
  before it, for the requests whose numbers fit `tmp`.
-/

namespace DbRelay

open Framing

/-! ## The loop over the pieces of a reply -/

/-- The loop over lines that are given, up to the line that ends it. -/
def Reply.takeLines (reply : Reply) : List (List UInt8) → Option Reply
  | [] => none
  | line :: lines =>
    match reply.takeLine line with
    | none => some reply
    | some reply => reply.takeLines lines

/-- The lines behind the one that ends the loop. -/
def Reply.restLines (reply : Reply) : List (List UInt8) → List (List UInt8)
  | [] => []
  | line :: lines =>
    match reply.takeLine line with
    | none => lines
    | some reply => reply.restLines lines

/-- However a reply arrives, the client takes it piece by piece.  What it has not received
is the end of what it has not taken. -/
theorem receiveReply_delivers {events : List RecvEvent} {bytes : List UInt8}
    (hev : Delivers events bytes) (hnul : 0 ∉ bytes) {more : List RecvEvent} {net : Net}
    (hnet : net.recvs = events ++ more) {reply final : Reply} {inBuf : InBuf}
    (hlines : reply.takeLines (cut newline pieceSize [] (inBuf.pending ++ bytes)).1 =
      some final) :
    ∃ net' events' rest pending,
      receiveReply net reply inBuf = some ((final.text, final.error), net') ∧
      net'.recvs = events' ++ more ∧ Delivers events' rest ∧
      pending ++ rest =
        (reply.restLines (cut newline pieceSize [] (inBuf.pending ++ bytes)).1).flatten ++
          (cut newline pieceSize [] (inBuf.pending ++ bytes)).2 := by
  induction hn : (inBuf.pending ++ bytes).length using Nat.strong_induction_on
    generalizing net reply inBuf events bytes with
  | _ n ih =>
    cases hpiece : firstPiece newline pieceSize [] (inBuf.pending ++ bytes) with
    | none =>
      rw [cut_of_firstPiece_none hpiece] at hlines
      cases hlines
    | some pr =>
      obtain ⟨p, r⟩ := pr
      obtain ⟨inBuf', events', rest, hrecv, hev', hnul', hrest⟩ :=
        recvString_line hev hnul more hpiece
      rw [cut_of_firstPiece_some hpiece] at hlines ⊢
      rw [Reply.takeLines] at hlines
      rw [receiveReply_eq, hnet, hrecv, Reply.restLines]
      simp only
      cases htake : reply.takeLine p with
      | none =>
        rw [htake] at hlines
        obtain rfl := Option.some.inj hlines
        exact ⟨_, events', rest, inBuf'.pending, rfl, rfl, hev',
          hrest.trans (cut_flatten [] r).symm⟩
      | some reply' =>
        rw [htake] at hlines
        have hlen := firstPiece_length hpiece
        rw [← hrest]
        refine ih _ (by rw [← hn, hrest]; exact hlen) hev' hnul' rfl ?_ rfl
        rwa [hrest]

/-! ## A reply with results -/

/-- The lines that the loop compares with. -/
def controlLines : List (List UInt8) :=
  [ascii ":BYE", ascii ":OK", ascii ":ERR", ascii ":RESULTS END", ascii ":ERROR END",
    ascii ":RESULTS BEGIN", ascii ":ERROR BEGIN"]

/-- The loop after `":RESULTS BEGIN"`. -/
def Reply.receiving (text : List UInt8) : Reply := { results := true, text := text }

/-- A line that is no control line is appended. -/
theorem Reply.takeLine_receiving {text line : List UInt8}
    (hline : trimLine line ∉ controlLines) :
    (Reply.receiving text).takeLine line = some (Reply.receiving (text ++ trimLine line)) := by
  simp only [controlLines, List.mem_cons, List.not_mem_nil, or_false, not_or] at hline
  obtain ⟨hbye, hok, herr, hresultsEnd, herrorEnd, hresults, herror⟩ := hline
  have hlast : lastLine (trimLine line) = false := by
    simp only [lastLine, hbye, hok, herr, or_self, decide_false]
  simp only [Reply.takeLine, hlast, Reply.receiving, hresultsEnd, herror, hresults,
    Bool.false_eq_true, ↓reduceIte, ne_eq, not_false_eq_true, decide_true, Bool.and_true,
    Bool.false_and, Bool.or_false, decide_false]

theorem takeLines_receiving {lines : List (List UInt8)}
    (hlines : ∀ line ∈ lines, trimLine line ∉ controlLines) (text : List UInt8)
    (rest : List (List UInt8)) :
    (Reply.receiving text).takeLines (lines ++ rest) =
      (Reply.receiving (text ++ (lines.map trimLine).flatten)).takeLines rest := by
  induction lines generalizing text with
  | nil => rw [List.nil_append, List.map_nil, List.flatten_nil, List.append_nil]
  | cons line lines ih =>
    rw [List.cons_append, Reply.takeLines,
      Reply.takeLine_receiving (hlines line List.mem_cons_self)]
    simp only
    rw [ih fun l hl => hlines l (List.mem_cons_of_mem _ hl), List.map_cons,
      List.flatten_cons, List.append_assoc]

/-- Control lines are short and do not end with a bracket. -/
theorem not_mem_controlLines {line : List UInt8}
    (h : line = [] ∨ line.getLast? = some 93 ∨ line.length = pieceSize) :
    line ∉ controlLines := by
  have hcontrol : ∀ l ∈ controlLines,
      l ≠ [] ∧ l.getLast? ≠ some 93 ∧ l.length ≠ pieceSize := by decide
  intro hmem
  obtain ⟨hnil, hlast, hlength⟩ := hcontrol line hmem
  rcases h with h | h | h
  · exact hnil h
  · exact hlast h
  · exact hlength h

/-- The pieces of a result are no control lines, and together they are the
result. -/
theorem pieces_of_result {result : List UInt8} (hline : newline ∉ result)
    (hend : result.getLast? = some 93) :
    (∀ p ∈ (cut newline pieceSize [] (result ++ [newline])).1, trimLine p ∉ controlLines) ∧
      ((cut newline pieceSize [] (result ++ [newline])).1.map trimLine).flatten = result := by
  have hfull : ∀ p ∈ (cut newline pieceSize [] result).1,
      p.length = pieceSize ∧ trimLine p = p := by
    intro p hp
    obtain ⟨hlength, hno⟩ := length_of_mem_cut List.not_mem_nil hline hp
    refine ⟨hlength, if_neg fun hlast => hno ?_⟩
    exact List.mem_of_getLast? hlast
  have hflatten := @cut_flatten _ _ newline pieceSize [] result
  rw [List.nil_append] at hflatten
  have htail : trimLine ((cut newline pieceSize [] result).2 ++ [newline]) =
      (cut newline pieceSize [] result).2 := by
    rw [trimLine, if_pos (by simp), List.dropLast_concat]
  rw [cut_delim]
  constructor
  · intro p hp
    rcases List.mem_append.1 hp with hp | hp
    · obtain ⟨hlength, htrim⟩ := hfull p hp
      rw [htrim]
      exact not_mem_controlLines (.inr (.inr hlength))
    · rw [List.mem_singleton.1 hp, htail]
      apply not_mem_controlLines
      by_cases hnil : (cut newline pieceSize [] result).2 = []
      · exact .inl hnil
      · have hlast := congrArg List.getLast? hflatten
        rw [List.getLast?_append_of_ne_nil _ hnil, hend] at hlast
        exact .inr (.inl hlast)
  · rw [List.map_append, List.flatten_append, List.map_singleton, htail, List.flatten_singleton,
      List.map_congr_left fun p hp => (hfull p hp).2, List.map_id', hflatten]

/-- A control line is one piece. -/
theorem cut_controlLine {line : List UInt8} (hmem : line ∈ controlLines) (t : List UInt8) :
    (cut newline pieceSize [] (line ++ newline :: t)).1 =
      (line ++ [newline]) :: (cut newline pieceSize [] t).1 := by
  have hshort : ∀ l ∈ controlLines, newline ∉ l ∧ l.length < pieceSize := by decide
  exact cut_line t (hshort line hmem).1 (hshort line hmem).2

/-- The pieces of a reply with a result leave the result. -/
theorem takeLines_results {result : List UInt8} (hline : newline ∉ result)
    (hend : result.getLast? = some 93) :
    ({} : Reply).takeLines (cut newline pieceSize [] (runReply (.results result))).1 =
      some { text := result } := by
  obtain ⟨hcontrol, hflatten⟩ := pieces_of_result hline hend
  have hreply : runReply (.results result) = ascii ":RESULTS BEGIN" ++ newline ::
      (result ++ [newline] ++ (ascii ":RESULTS END" ++ newline ::
        (ascii ":OK" ++ newline :: []))) := by
    have hbegin : ascii ":RESULTS BEGIN\n" = ascii ":RESULTS BEGIN" ++ [newline] := by decide
    have hresults : ascii ":RESULTS END\n" = ascii ":RESULTS END" ++ [newline] := by decide
    have hok : ascii ":OK\n" = ascii ":OK" ++ [newline] := by decide
    have hnewline : ascii "\n" = [newline] := by decide
    rw [runReply, hbegin, hresults, hok, hnewline]
    simp only [List.append_assoc, List.cons_append, List.nil_append]
  have hbegin : ({} : Reply).takeLine (ascii ":RESULTS BEGIN" ++ [newline]) =
      some (Reply.receiving []) := by decide
  have hresults : (Reply.receiving result).takeLine (ascii ":RESULTS END" ++ [newline]) =
      some { text := result } := by
    have htrim : trimLine (ascii ":RESULTS END" ++ [newline]) = ascii ":RESULTS END" := by
      decide
    have hlast : lastLine (ascii ":RESULTS END") = false := by decide
    have herror : ascii ":RESULTS END" ≠ ascii ":ERROR BEGIN" := by decide
    have hagain : ascii ":RESULTS END" ≠ ascii ":RESULTS BEGIN" := by decide
    simp [Reply.takeLine, Reply.receiving, htrim, hlast, herror, hagain]
  have hok : ({ text := result } : Reply).takeLine (ascii ":OK" ++ [newline]) = none := rfl
  have hbeginMem : ascii ":RESULTS BEGIN" ∈ controlLines := by decide
  have hendMem : ascii ":RESULTS END" ∈ controlLines := by decide
  have hokMem : ascii ":OK" ∈ controlLines := by decide
  rw [hreply, cut_controlLine hbeginMem, cut_delim_append, cut_controlLine hendMem,
    cut_controlLine hokMem, Reply.takeLines, hbegin]
  simp only
  rw [takeLines_receiving hcontrol, hflatten, List.nil_append, Reply.takeLines, hresults]
  simp only
  rw [Reply.takeLines, hok]

/-! ## The whole call -/

/-- The events deliver one line, as the answer to a command. -/
def DeliversLine (events : List RecvEvent) : Prop :=
  ∃ line, newline ∉ line ∧ 0 ∉ line ∧ line.length < pieceSize ∧
    Delivers events (line ++ [newline])

/-- A call with a new buffer takes the line that arrives next, and leaves
nothing in the buffer. -/
theorem recvString_deliversLine {idle events : List RecvEvent} (hidle : Delivers idle [])
    (h : DeliversLine events) (more : List RecvEvent) :
    ∃ line inBuf' idle', recvString {} (idle ++ events ++ more) =
        .returned (.line line) inBuf' (idle' ++ more) ∧
      Delivers idle' [] ∧ inBuf'.pending = [] := by
  obtain ⟨line, hline, hnul, hlen, hev⟩ := h
  have hnul' : 0 ∉ line ++ [newline] := by
    rw [List.mem_append, not_or]
    exact ⟨hnul, by decide⟩
  have hpiece : firstPiece newline pieceSize [] (InBuf.pending {} ++ (line ++ [newline])) =
      some (line ++ [newline], []) :=
    firstPiece_line [] hline (by simpa using hlen)
  obtain ⟨inBuf', idle', rest, hrecv, hidle', -, hrest⟩ :=
    recvString_line (hidle.append hev) hnul' more hpiece
  obtain ⟨hpending, rfl⟩ := List.append_eq_nil_iff.1 hrest
  exact ⟨_, inBuf', idle', hrecv, hidle', hpending⟩

/-- Sending alone does not fail, and receives nothing. -/
theorem Net.send_allSent {net : Net} (h : AllSent net.sends) (point : Point)
    (str : List UInt8) :
    ∃ net', net.send point str = (true, net') ∧ net'.recvs = net.recvs ∧
      AllSent net'.sends := by
  obtain ⟨hok, hsends⟩ := sendString_allSent str h
  refine ⟨_, Prod.ext hok rfl, rfl, hsends⟩

theorem sendStrings_allSent {net : Net} (h : AllSent net.sends)
    (strings : List (Point × List UInt8)) :
    ∃ net', sendStrings net strings = (true, net') ∧ net'.recvs = net.recvs ∧
      AllSent net'.sends := by
  induction strings generalizing net with
  | nil => exact ⟨net, rfl, rfl, h⟩
  | cons string strings ih =>
    obtain ⟨point, str⟩ := string
    obtain ⟨net', hsend, hrecvs, hsends⟩ := Net.send_allSent h point str
    obtain ⟨net'', hrest, hrecvs', hsends'⟩ := ih hsends
    refine ⟨net'', ?_, hrecvs'.trans hrecvs, hsends'⟩
    rw [sendStrings, hsend]
    exact hrest

/-- One option, with one line as its answer. -/
theorem connSetOption_deliversLine {answer : List RecvEvent} (hanswer : DeliversLine answer)
    {idle more : List RecvEvent} (hidle : Delivers idle []) {net : Net}
    (hrecvs : net.recvs = idle ++ answer ++ more) (hsends : AllSent net.sends)
    (setting : Setting) (value : List UInt8) :
    ∃ net' idle', connSetOption net setting value = some (true, net') ∧
      net'.recvs = idle' ++ more ∧ Delivers idle' [] ∧ AllSent net'.sends := by
  obtain ⟨net', hsend, hrecvs', hsends'⟩ :=
    Net.send_allSent hsends (.option setting) (setString setting.option value)
  obtain ⟨line, inBuf', idle', hrecv, hidle', -⟩ := recvString_deliversLine hidle hanswer more
  refine ⟨net'.afterRecv (.option setting) (.line line) (idle' ++ more), idle', ?_, rfl, hidle',
    hsends'⟩
  rw [connSetOption, hsend]
  simp only
  rw [hrecvs', hrecvs, hrecv]

/-- The option phase, with one line as the answer to each option. -/
theorem setOptions_deliversLine {options : List (Setting × List UInt8)}
    (hvalues : ∀ o ∈ options, optionValue o.1 o.2 = some o.2)
    {answers : List (List RecvEvent)} (hanswers : ∀ events ∈ answers, DeliversLine events)
    (hlength : answers.length = options.length) {idle more : List RecvEvent}
    (hidle : Delivers idle []) {net : Net} (hrecvs : net.recvs = idle ++ answers.flatten ++ more)
    (hsends : AllSent net.sends) :
    ∃ net' idle', setOptions net options = some (.sent, net') ∧
      net'.recvs = idle' ++ more ∧ Delivers idle' [] ∧ AllSent net'.sends := by
  induction options generalizing answers idle net with
  | nil =>
    obtain rfl := List.length_eq_zero_iff.1 hlength
    exact ⟨net, idle, rfl, by simpa using hrecvs, hidle, hsends⟩
  | cons option options ih =>
    obtain ⟨setting, value⟩ := option
    cases answers with
    | nil => cases hlength
    | cons answer answers =>
      rw [List.flatten_cons, ← List.append_assoc, List.append_assoc] at hrecvs
      obtain ⟨net', idle', hset, hrecvs', hidle', hsends'⟩ :=
        connSetOption_deliversLine (hanswers _ List.mem_cons_self) hidle hrecvs hsends setting value
      rw [setOptions, hvalues _ List.mem_cons_self]
      simp only
      rw [hset]
      exact ih (fun o ho => hvalues o (List.mem_cons_of_mem _ ho))
        (fun events hmem => hanswers events (List.mem_cons_of_mem _ hmem))
        (Nat.succ.inj hlength) hidle' (hrecvs'.trans (List.append_assoc _ _ _).symm) hsends'

/-- The option phase with a number that does not fit, and answers to what comes before it. -/
theorem setOptions_overflow {options : List (Setting × List UInt8)}
    (hvalues : ∃ o ∈ options, optionValue o.1 o.2 = none)
    {answers : List (List RecvEvent)} (hanswers : ∀ events ∈ answers, DeliversLine events)
    (hlength : answers.length = options.length) {idle more : List RecvEvent}
    (hidle : Delivers idle []) {net : Net} (hrecvs : net.recvs = idle ++ answers.flatten ++ more)
    (hsends : AllSent net.sends) :
    ∃ net', setOptions net options = some (.overflow, net') := by
  induction options generalizing answers idle net with
  | nil =>
    obtain ⟨o, hmem, -⟩ := hvalues
    cases hmem
  | cons option options ih =>
    obtain ⟨setting, value⟩ := option
    cases answers with
    | nil => cases hlength
    | cons answer answers =>
      rw [setOptions]
      cases hvalue : optionValue setting value with
      | none => exact ⟨net, rfl⟩
      | some str =>
        have hlater : ∃ o ∈ options, optionValue o.1 o.2 = none := by
          obtain ⟨o, hmem, hnone⟩ := hvalues
          rcases List.mem_cons.1 hmem with rfl | hmem
          · rw [hvalue] at hnone
            cases hnone
          · exact ⟨o, hmem, hnone⟩
        rw [List.flatten_cons, ← List.append_assoc, List.append_assoc] at hrecvs
        obtain ⟨net', idle', hset, hrecvs', hidle', hsends'⟩ :=
          connSetOption_deliversLine (hanswers _ List.mem_cons_self) hidle hrecvs hsends setting str
        simp only
        rw [hset]
        exact ih hlater (fun events hmem => hanswers events (List.mem_cons_of_mem _ hmem))
          (Nat.succ.inj hlength) hidle' (hrecvs'.trans (List.append_assoc _ _ _).symm) hsends'

/-- Whatever the fragments of the answers and of the reply, and however little each `send`
takes, the call returns what the lines of the reply leave.  A reply whose last line ends the
loop is received to its end. -/
theorem connSendRequest_reply {request : Request} (hfit : request.NumbersFit)
    {bytes : List UInt8} (hnul : 0 ∉ bytes) {final : Reply}
    (hlines : ({} : Reply).takeLines (cut newline pieceSize [] bytes).1 = some final)
    {answers : List (List RecvEvent)} (hanswers : ∀ events ∈ answers, DeliversLine events)
    (hlength : answers.length = request.options.length + 1) {reply more : List RecvEvent}
    (hreply : Delivers reply bytes) {net : Net}
    (hrecvs : net.recvs = answers.flatten ++ (reply ++ more)) (hsends : AllSent net.sends) :
    ∃ net' events' rest pending,
      connSendRequest request net = some (.returned final.text final.error, net') ∧
      net'.recvs = events' ++ more ∧ Delivers events' rest ∧
      pending ++ rest = (({} : Reply).restLines (cut newline pieceSize [] bytes).1).flatten ++
        (cut newline pieceSize [] bytes).2 := by
  rcases List.eq_nil_or_concat' answers with rfl | ⟨first, last, rfl⟩
  · cases hlength
  · rw [List.length_append, List.length_singleton, Nat.add_right_cancel_iff] at hlength
    have hfirst : ∀ events ∈ first, DeliversLine events := fun events hmem =>
      hanswers events (List.mem_append_left _ hmem)
    rw [List.flatten_append, List.flatten_singleton, List.append_assoc] at hrecvs
    -- The options, each with its answer.
    obtain ⟨net₁, idle₁, hoptions, hrecvs₁, hidle₁, hsends₁⟩ :=
      @setOptions_deliversLine request.options hfit.optionValue first hfirst hlength [] _ rfl net
        hrecvs hsends
    -- The SQL, with the answer to its end.
    obtain ⟨net₂, hstrings, hrecvs₂, hsends₂⟩ := sendStrings_allSent hsends₁ request.sqlStrings
    obtain ⟨line, inBuf, idle₂, hrecv, hidle₂, hpending⟩ :=
      recvString_deliversLine hidle₁ (hanswers last (by simp)) (reply ++ more)
    rw [List.append_assoc, ← hrecvs₁, ← hrecvs₂] at hrecv
    -- `:RUN`, with the reply.
    obtain ⟨net₃, hrun, hrecvs₃, -⟩ :=
      @Net.send_allSent (net₂.afterRecv .sqlEnd (.line line) (idle₂ ++ (reply ++ more)))
        hsends₂ .run (ascii ":RUN\n")
    have hpieces : inBuf.pending ++ bytes = bytes := by
      rw [hpending, List.nil_append]
    have hlines' : ({} : Reply).takeLines (cut newline pieceSize []
        (inBuf.pending ++ bytes)).1 = some final := by
      rw [hpieces]
      exact hlines
    obtain ⟨net₄, events', rest, pending, hreceive, hleft⟩ :=
      receiveReply_delivers (hidle₂.append hreply) hnul
        (hrecvs₃.trans (List.append_assoc _ _ _).symm) hlines'
    rw [List.nil_append, hpieces] at hleft
    refine ⟨net₄, events', rest, pending, ?_, hleft⟩
    rw [connSendRequest, hoptions]
    simp only
    rw [hstrings]
    simp only
    rw [runAndReceive, hrecv]
    simp only
    rw [hrun]
    simp only
    rw [hreceive]
    rfl

/-- With a number that does not fit, the call writes past `tmp`. -/
theorem connSendRequest_overflow {request : Request} (hfit : ¬ request.NumbersFit)
    {answers : List (List RecvEvent)} (hanswers : ∀ events ∈ answers, DeliversLine events)
    (hlength : answers.length = request.options.length + 1) {more : List RecvEvent} {net : Net}
    (hrecvs : net.recvs = answers.flatten ++ more) (hsends : AllSent net.sends) :
    ∃ net', connSendRequest request net = some (.overflow, net') := by
  rcases List.eq_nil_or_concat' answers with rfl | ⟨first, last, rfl⟩
  · cases hlength
  · rw [List.length_append, List.length_singleton, Nat.add_right_cancel_iff] at hlength
    rw [List.flatten_append, List.append_assoc] at hrecvs
    obtain ⟨net', hoptions⟩ :=
      @setOptions_overflow request.options (Request.overflow_of_not_fits hfit) first
        (fun events hmem => hanswers events (List.mem_append_left _ hmem)) hlength [] _ rfl net
        hrecvs hsends
    refine ⟨net', ?_⟩
    rw [connSendRequest, hoptions]

/-- Results cross the socket as they are, whatever the fragments of the answers and of the
reply, and however little each `send` takes: the call returns the result and no error exactly
if the numbers of the request fit `tmp`. -/
theorem connSendRequest_results (request : Request) {result : List UInt8}
    (hnul : 0 ∉ result) (hline : newline ∉ result) (hend : result.getLast? = some 93)
    {answers : List (List RecvEvent)} (hanswers : ∀ events ∈ answers, DeliversLine events)
    (hlength : answers.length = request.options.length + 1) {reply more : List RecvEvent}
    (hreply : Delivers reply (runReply (.results result))) {net : Net}
    (hrecvs : net.recvs = answers.flatten ++ (reply ++ more)) (hsends : AllSent net.sends) :
    (∃ net', connSendRequest request net = some (.returned result 0, net')) ↔
      request.NumbersFit := by
  constructor
  · intro hreturned
    obtain ⟨net', hcall⟩ := hreturned
    by_contra hfit
    obtain ⟨net'', hover⟩ := connSendRequest_overflow hfit hanswers hlength hrecvs hsends
    rw [hcall] at hover
    cases hover
  · intro hfit
    have hreplyNul : 0 ∉ runReply (.results result) := by
      have hbegin : 0 ∉ ascii ":RESULTS BEGIN\n" := by decide
      have hend : 0 ∉ ascii "\n" ++ ascii ":RESULTS END\n" ++ ascii ":OK\n" := by decide
      simp only [runReply, List.mem_append, not_or] at hend ⊢
      exact ⟨⟨⟨⟨hbegin, hnul⟩, hend.1.1⟩, hend.1.2⟩, hend.2⟩
    obtain ⟨net', -, -, -, hcall, -⟩ :=
      connSendRequest_reply hfit hreplyNul (takeLines_results hline hend) hanswers hlength
        hreply hrecvs hsends
    exact ⟨net', hcall⟩

/-- `":OK\n"` in one fragment. -/
def okEvents : List RecvEvent := [.data ⟨ascii ":OK\n", by decide, by decide⟩]

theorem okEvents_line : DeliversLine okEvents :=
  ⟨ascii ":OK", by decide, by decide, by decide, delivers_fragment _⟩

/-- The answers to six options and to the end of the SQL body, and an empty result, with one
partial send. -/
def emptyResultNet : Net where
  recvs := (List.replicate 7 okEvents).flatten ++
    ([.data ⟨runReply (.results (ascii "[]")), by decide, by decide⟩] ++ [])
  sends := [.sent 2]

theorem emptyResultNet_allSent : AllSent emptyResultNet.sends :=
  fun _ hmem => ⟨2, List.mem_singleton.1 hmem⟩

theorem connSendRequest_emptyResult :
    (∃ net', connSendRequest (namedRequest (.ofBytes (ascii "select 1"))) emptyResultNet =
      some (.returned (ascii "[]") 0, net')) ↔
      (namedRequest (.ofBytes (ascii "select 1"))).NumbersFit := by
  refine connSendRequest_results _ (by decide) (by decide) (by decide) (fun events hmem => ?_)
    rfl (delivers_fragment _) rfl emptyResultNet_allSent
  rw [List.eq_of_mem_replicate hmem]
  exact okEvents_line

/-- A request with the least `long` for its timeout. -/
def minTimeoutRequest : Request :=
  { namedRequest (.ofBytes (ascii "select 1")) with connectionTimeout := Int64.minValue }

/-- Its text does not fit `tmp`, and the empty result is not returned. -/
theorem not_connSendRequest_results :
    ¬ ∀ (request : Request) (result : List UInt8) (answers : List (List RecvEvent))
      (reply more : List RecvEvent) (net : Net),
      0 ∉ result → newline ∉ result → result.getLast? = some 93 →
      (∀ events ∈ answers, DeliversLine events) →
      answers.length = request.options.length + 1 →
      Delivers reply (runReply (.results result)) →
      net.recvs = answers.flatten ++ (reply ++ more) → AllSent net.sends →
      ∃ net', connSendRequest request net = some (.returned result 0, net') := by
  intro h
  have hanswers : ∀ events ∈ List.replicate 7 okEvents, DeliversLine events := by
    intro events hmem
    rw [List.eq_of_mem_replicate hmem]
    exact okEvents_line
  obtain ⟨net', hreturned⟩ := h minTimeoutRequest (ascii "[]") (List.replicate 7 okEvents) _ []
    emptyResultNet (by decide) (by decide) (by decide) hanswers rfl (delivers_fragment _) rfl
    emptyResultNet_allSent
  have hfit : ¬ minTimeoutRequest.NumbersFit := by decide
  obtain ⟨net'', hover⟩ := @connSendRequest_overflow minTimeoutRequest hfit _ hanswers rfl
    _ emptyResultNet rfl emptyResultNet_allSent
  rw [hreturned] at hover
  cases hover

end DbRelay
