import DbRelay.Query.ErrorText
import DbRelay.Lib.CArray

/-!
# The buffers of error texts

The messages of a server go into `request->error_message`, one behind the other.  The text
of an error then goes into `error_string` of `dbrelay_db_run_query`, on three paths.

* `msgHandler` is `dbrelay_mssql_msg_handler` on the array; `deliver` takes all messages.
* `messageText` is the text that they make.  `deliver_spec`: it fits or the array is left.
* `buffersHold_iff`: when both buffers hold every text.
-/

namespace DbRelay

/-- The size of `error_message`. -/
def errorMessageSz : Nat := 4000

/-- What `dbrelay_mssql_msg_handler` reads of its arguments. -/
structure ServerMessage where
  /-- There is a `dbproc`, and its user data is the request.  The messages of a login have no
  request, and go to `login_error`. -/
  toRequest : Bool := true
  msgno : Int
  text : CString

/-- The changes of the database, the language and the character set are no messages. -/
def ServerMessage.dropped (m : ServerMessage) : Bool :=
  decide (m.msgno = 5701 ∨ m.msgno = 5703 ∨ m.msgno = 5704)

/-- `dbrelay_mssql_msg_handler`, on `request->error_message`.  `none` is a write behind its
end. -/
def msgHandler (errorMessage : CArray errorMessageSz) (m : ServerMessage) :
    Option (CArray errorMessageSz) :=
  if !m.toRequest || m.dropped then some errorMessage
  else
    (if m.text.isSet then errorMessage.strcat (ascii "\n") else some errorMessage).bind
      fun errorMessage => errorMessage.strcat m.text.bytes

/-- The messages of one request. -/
def deliver (errorMessage : CArray errorMessageSz) :
    List ServerMessage → Option (CArray errorMessageSz)
  | [] => some errorMessage
  | m :: messages => (msgHandler errorMessage m).bind fun buf => deliver buf messages

/-! ## The text of the messages -/

/-- What a message adds. -/
def ServerMessage.added (m : ServerMessage) : List UInt8 :=
  if !m.toRequest || m.dropped then []
  else if m.text.isSet then newline :: m.text.bytes
  else []

def messageText (messages : List ServerMessage) : List UInt8 :=
  messages.flatMap ServerMessage.added

theorem ServerMessage.noNul_added (m : ServerMessage) : 0 ∉ m.added := by
  unfold added
  split
  · exact List.not_mem_nil
  · split
    · rw [List.mem_cons, not_or]
      exact ⟨by decide, m.text.noNul⟩
    · exact List.not_mem_nil

theorem noNul_messageText (messages : List ServerMessage) : 0 ∉ messageText messages := by
  intro h
  obtain ⟨m, -, hm⟩ := List.mem_flatMap.1 h
  exact m.noNul_added hm

/-- A text that is not empty starts with a newline. -/
theorem messageText_eq_nil_or (messages : List ServerMessage) :
    messageText messages = [] ∨ newline ∈ messageText messages := by
  by_cases hall : ∀ m ∈ messages, m.added = []
  · exact .inl (List.flatMap_eq_nil_iff.2 hall)
  · right
    rw [not_forall] at hall
    obtain ⟨m, hm⟩ := hall
    rw [Classical.not_imp] at hm
    refine List.mem_flatMap.2 ⟨m, hm.1, ?_⟩
    have hne := hm.2
    unfold ServerMessage.added at hne ⊢
    split_ifs at hne ⊢
    · exact absurd rfl hne
    · exact List.mem_cons_self
    · exact absurd rfl hne

/-- Of the texts of the server's messages only the empty one crosses the socket. -/
theorem errorCrosses_messageText_iff {request : Request} (hfit : request.NumbersFit)
    {messages : List ServerMessage} (hlen : (messageText messages).length < errorSz) :
    ErrorCrosses request ⟨messageText messages, noNul_messageText messages⟩ ↔
      messageText messages = [] := by
  constructor
  · intro h
    exact (messageText_eq_nil_or messages).resolve_right (h.newline_not_mem hlen)
  · intro h
    refine errorCrosses_of_oneLine hfit hlen ?_ ?_
    · show newline ∉ messageText messages
      rw [h]
      exact List.not_mem_nil
    · show messageText messages ∉ endingLines
      rw [h]
      decide

/-! ## The array -/

/-- One message is appended exactly if it fits. -/
theorem msgHandler_spec {a : CArray errorMessageSz} {s : List UInt8} (hs : 0 ∉ s)
    (h : s ++ [0] <+: a.toList) (m : ServerMessage) :
    ((msgHandler a m).isSome = true ↔ s.length + m.added.length < errorMessageSz) ∧
      ∀ a', msgHandler a m = some a' → (s ++ m.added) ++ [0] <+: a'.toList := by
  have hlt : s.length < errorMessageSz := by
    have hlen := h.length_le
    rw [List.length_append, List.length_singleton, Vector.length_toList] at hlen
    exact hlen
  unfold msgHandler ServerMessage.added
  split
  · refine ⟨iff_of_true rfl hlt, fun a' heq => ?_⟩
    obtain rfl := Option.some.inj heq
    rwa [List.append_nil]
  · by_cases hset : m.text.isSet = true
    · have hnewline : ascii "\n" = [newline] := by decide
      rw [if_pos hset, if_pos hset, hnewline]
      have hsNewline : 0 ∉ s ++ [newline] := by
        rw [List.mem_append, not_or]
        exact ⟨hs, by decide⟩
      have hadded : ∀ t, s ++ newline :: t = s ++ [newline] ++ t := fun t => by simp
      cases hcat : a.strcat [newline] with
      | none =>
        have hfull := (CArray.strcat_isSome_iff hs h [newline]).not.1 (by rw [hcat]; simp)
        rw [List.length_singleton] at hfull
        refine ⟨iff_of_false (by simp) ?_, fun a' heq => by cases heq⟩
        rw [List.length_cons]
        omega
      | some a₁ =>
        have hnext := CArray.strcat_prefix hs h hcat
        have hlength : (s ++ [newline]).length = s.length + 1 := by simp
        rw [Option.bind_some, CArray.strcat_isSome_iff hsNewline hnext, hlength, List.length_cons]
        refine ⟨by omega, fun a' heq => ?_⟩
        rw [hadded]
        exact CArray.strcat_prefix hsNewline hnext heq
    · have hnil : m.text.bytes = [] := by simpa [CString.isSet] using hset
      rw [if_neg hset, if_neg hset, hnil, Option.bind_some, CArray.strcat_isSome_iff hs h]
      refine ⟨Iff.rfl, fun a' heq => ?_⟩
      exact CArray.strcat_prefix hs h heq

/-- The messages are appended exactly if their text fits. -/
theorem deliver_spec {a : CArray errorMessageSz} {s : List UInt8} (hs : 0 ∉ s)
    (h : s ++ [0] <+: a.toList) (messages : List ServerMessage) :
    ((deliver a messages).isSome = true ↔
        s.length + (messageText messages).length < errorMessageSz) ∧
      ∀ a', deliver a messages = some a' → (s ++ messageText messages) ++ [0] <+: a'.toList := by
  induction messages generalizing a s with
  | nil =>
    have hlen := h.length_le
    rw [List.length_append, List.length_singleton, Vector.length_toList] at hlen
    refine ⟨iff_of_true rfl hlen, fun a' heq => ?_⟩
    obtain rfl := Option.some.inj heq
    rwa [messageText, List.flatMap_nil, List.append_nil]
  | cons m messages ih =>
    obtain ⟨hfits, hstart⟩ := msgHandler_spec hs h m
    have htext : messageText (m :: messages) = m.added ++ messageText messages :=
      List.flatMap_cons
    rw [deliver, htext, List.length_append]
    cases hm : msgHandler a m with
    | none =>
      rw [hm] at hfits
      have hfull := hfits.not.1 (by simp)
      refine ⟨iff_of_false (by simp) (by omega), fun a' heq => by cases heq⟩
    | some a₁ =>
      have hsAdded : 0 ∉ s ++ m.added := by
        rw [List.mem_append, not_or]
        exact ⟨hs, m.noNul_added⟩
      obtain ⟨hrest, hrestPrefix⟩ := ih hsAdded (hstart a₁ hm)
      rw [Option.bind_some, hrest, List.length_append, Nat.add_assoc, ← List.append_assoc]
      exact ⟨Iff.rfl, hrestPrefix⟩

/-! ## The paths of an error -/

/-- How `dbrelay_db_run_query` comes to an error text. -/
inductive ErrorPath
  /-- `dbrelay_conn_send_request` returned a text and an error. -/
  | connector (ret : CString) (haveError : Nat)
  /-- `api->connected` is false.  `api->error` is the text of the login. -/
  | login (error : CString)
  /-- `dbrelay_exec_query` returned `NULL`.  `api->error` is `error_message`. -/
  | query

/-- `error_string` at the end of a path.  `none` is a write behind its end. -/
def ErrorPath.errorString (path : ErrorPath) (request : Request) (errorMessage : CString)
    (json : JsonWriter) : Option (List UInt8) :=
  match path with
  | .connector ret haveError =>
    namedErrorString request ret haveError json
  | .login error =>
    (runUnnamed request { connection := true, error := some error } json).map Prod.snd
  | .query => unnamedErrorString request errorMessage json

/-- `error_message` takes all messages, and `error_string` the text of the path. -/
def BuffersHold (errorMessage : CArray errorMessageSz) (messages : List ServerMessage)
    (path : ErrorPath) (request : Request) (json : JsonWriter) : Prop :=
  ∃ buf text, deliver errorMessage messages = some buf ∧
    path.errorString request (.ofBytes buf.string) json = some text ∧ text.length < errorSz

theorem length_copyError_lt (src : CString) (room : Nat) (h : 0 < room) :
    (copyError src room).length < room := by
  unfold copyError
  split
  · assumption
  · rw [List.length_take]
    omega

/-- The checked copies fit. -/
theorem errorString_checked {path : ErrorPath} (hpath : path ≠ .query) (request : Request)
    (errorMessage : CString) (json : JsonWriter) :
    ∃ text, path.errorString request errorMessage json = some text ∧ text.length < errorSz := by
  have hsize : 0 < errorSz := by decide
  cases path with
  | connector ret haveError =>
    refine ⟨_, rfl, ?_⟩
    simp only
    split
    · exact length_copyError_lt _ _ hsize
    · split <;> exact hsize
  | login error =>
    refine ⟨_, rfl, ?_⟩
    show (loginError request _).length < errorSz
    unfold loginError
    split
    · have hmessage : (ascii "Login failed and no password was set, please check.\n").length =
          52 := by decide
      have hcopied := length_copyError_lt error (errorSz - 52) (by decide)
      simp only [List.length_append, hmessage]
      omega
    · split
      · decide
      · exact length_copyError_lt _ _ hsize
  | query => exact absurd rfl hpath

/-- The unchecked copy of the messages. -/
theorem errorString_query {errorMessage buf : CArray errorMessageSz}
    (hempty : [0] <+: errorMessage.toList) {messages : List ServerMessage}
    (hbuf : deliver errorMessage messages = some buf) (request : Request) (json : JsonWriter) :
    ErrorPath.query.errorString request (.ofBytes buf.string) json =
      if (messageText messages).length < errorSz then some (messageText messages) else none := by
  have hnil : (0 : UInt8) ∉ ([] : List UInt8) := List.not_mem_nil
  have hstring : buf.string = messageText messages :=
    CArray.string_of_prefix (noNul_messageText messages)
      ((deliver_spec hnil hempty messages).2 buf hbuf)
  have hsource : (CString.ofBytes (messageText messages)).bytes = messageText messages :=
    CString.ofBytes_bytes_eq_iff.2 (noNul_messageText messages)
  rw [ErrorPath.errorString, hstring, unnamedErrorString_eq, hsource]

/-- Both buffers hold their texts exactly if the messages make fewer than 4000 bytes, and
fewer than 500 if the query failed. -/
theorem buffersHold_iff {errorMessage : CArray errorMessageSz}
    (hempty : [0] <+: errorMessage.toList) (messages : List ServerMessage) (path : ErrorPath)
    (request : Request) (json : JsonWriter) :
    BuffersHold errorMessage messages path request json ↔
      (messageText messages).length < errorMessageSz ∧
        (path = .query → (messageText messages).length < errorSz) := by
  have hnil : (0 : UInt8) ∉ ([] : List UInt8) := List.not_mem_nil
  have hfits := (deliver_spec hnil hempty messages).1
  rw [List.length_nil, Nat.zero_add] at hfits
  constructor
  · intro h
    obtain ⟨buf, text, hbuf, htext, -⟩ := h
    refine ⟨hfits.1 (by rw [hbuf]; rfl), fun hpath => ?_⟩
    by_contra hlong
    rw [hpath, errorString_query hempty hbuf, if_neg hlong] at htext
    cases htext
  · intro h
    obtain ⟨buf, hbuf⟩ := Option.isSome_iff_exists.1 (hfits.2 h.1)
    by_cases hpath : path = .query
    · refine ⟨buf, messageText messages, hbuf, ?_, h.2 hpath⟩
      rw [hpath, errorString_query hempty hbuf, if_pos (h.2 hpath)]
    · obtain ⟨text, htext, hlen⟩ := errorString_checked hpath request (.ofBytes buf.string) json
      exact ⟨buf, text, hbuf, htext, hlen⟩

/-- `error_message` after a request was allocated. -/
def zeroedMessage : CArray errorMessageSz := .replicate errorMessageSz 0

theorem zeroedMessage_empty : [0] <+: zeroedMessage.toList := by
  rw [zeroedMessage, Vector.toList_replicate]
  exact ⟨List.replicate 3999 0, rfl⟩

def deniedMessage (length : Nat) : ServerMessage where
  msgno := 229
  text := .ofBytes (List.replicate length 120)

theorem buffersHold_twoMessages :
    BuffersHold zeroedMessage [deniedMessage 100, deniedMessage 100] .query {} (.new false) :=
  (buffersHold_iff zeroedMessage_empty _ _ _ _).2
    ⟨by decide +kernel, fun _ => by decide +kernel⟩

/-- A message of 600 bytes is copied into 500. -/
theorem not_buffersHold_longMessage :
    ¬BuffersHold zeroedMessage [deniedMessage 600] .query {} (.new false) := by
  intro h
  obtain ⟨buf, text, hbuf, htext, -⟩ := h
  have hlong : ¬(messageText [deniedMessage 600]).length < errorSz := by decide +kernel
  rw [errorString_query zeroedMessage_empty hbuf, if_neg hlong] at htext
  cases htext

end DbRelay
