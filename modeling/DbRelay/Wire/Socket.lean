import DbRelay.Types
import DbRelay.Lib.Framing

/-!
# Lines over a socket

`dbrelay_socket_recv_string` and `dbrelay_socket_send_string`.  What the
operating system answers is data: a list of `RecvEvent`s says what the calls of
`select` and `recv` return, one after the other, and a list of `SendEvent`s
does the same for `select` and `send`.

A caller of `recvString` keeps `in_buf` and `in_ptr` between its calls.  They
are an `InBuf`, whose `pending` bytes were received but not yet handed out.
`recvString_line` is the specification: a call returns the first piece of
`Framing.cut` on the pending bytes and the ones still to come.

* Receiving: `scanBuffer` is one pass of the loop after the fetch, `recvFetch`
  the loop with `in_ptr == -1`, and `recvString` the function.
* Sending: `sendString`.
-/

namespace DbRelay

open Framing

/-- `'\n'`. -/
def newline : UInt8 := 10

/-- The longest piece that `dbrelay_socket_recv_string` returns. -/
abbrev pieceSize : Nat := socketBufsize - 1

/-! ## Receiving -/

/-- What one successful `recv` of up to `DBRELAY_SOCKET_BUFSIZE - 1` bytes
returns. -/
structure Fragment where
  bytes : List UInt8
  nonempty : bytes ≠ []
  fits : bytes.length < socketBufsize
  deriving DecidableEq

/-- What happens when a call waits for bytes and receives them. -/
inductive RecvEvent
  | data (fragment : Fragment)
  /-- `recv` returns -1 with `EINTR`. -/
  | interrupted
  /-- `recv` returns 0. -/
  | closed
  /-- `recv` returns -1 with any other `errno`. -/
  | failed
  /-- `dbrelay_socket_wait` returns -1. -/
  | waitFailed
  deriving DecidableEq

/-- `in_buf` and `in_ptr`, where `none` is -1. -/
structure InBuf where
  buf : CharBuf socketBufsize := .empty
  ptr : Option Nat := none
  deriving DecidableEq

/-- The bytes that were received and not yet handed out. -/
def InBuf.pending (inBuf : InBuf) : List UInt8 :=
  match inBuf.ptr with
  | none => []
  | some ptr => inBuf.buf.bytes.drop ptr

/-- `in_buf` after a `recv`, up to its first zero byte. -/
def Fragment.received (fragment : Fragment) : CharBuf socketBufsize :=
  ⟨(CString.ofBytes fragment.bytes).bytes, (CString.ofBytes fragment.bytes).noNul,
    lt_of_le_of_lt (List.takeWhile_sublist _).length_le fragment.fits⟩

/-- One pass of the loop over the buffer: it returns a line and `in_ptr`, or
it has used up the buffer and goes on. -/
inductive Scan
  | returned (line : List UInt8) (ptr : Option Nat)
  | more (out : List UInt8)
  deriving DecidableEq

/-- The loop body of `dbrelay_socket_recv_string` after the fetch.  `out` is
`out_buf` up to `out_ptr`. -/
def scanBuffer (buf : List UInt8) (ptr : Nat) (out : List UInt8) : Scan :=
  let available := (buf.drop ptr).takeWhile fun b => decide (b ≠ newline)
  let haveSpace := socketBufsize - out.length - 1
  if available.length < haveSpace then
    let out := out ++ available
    let ptr := ptr + available.length
    if ptr < buf.length then
      -- The scan stopped before `len`, so it stopped at a newline.
      let ptr := ptr + 1
      .returned (out ++ [newline]) (if buf.length ≤ ptr then none else some ptr)
    else .more out
  else
    let ptr := ptr + haveSpace
    .returned (out ++ available.take haveSpace)
      (if socketBufsize - 1 ≤ ptr then none else some ptr)

/-- What a call returns: a line with 1, or 0, or -1. -/
inductive Received
  | line (bytes : List UInt8)
  | closed
  | failed
  deriving DecidableEq

/-- The end of a call.  A call that is still waiting has used up the events. -/
inductive RecvResult
  | returned (received : Received) (inBuf : InBuf) (events : List RecvEvent)
  | waiting
  deriving DecidableEq

/-- The loop of `dbrelay_socket_recv_string` with `in_ptr == -1`. -/
def recvFetch (buf : CharBuf socketBufsize) (out : List UInt8) :
    List RecvEvent → RecvResult
  | [] => .waiting
  | .waitFailed :: events => .returned .failed ⟨buf, none⟩ events
  | .closed :: events => .returned .closed ⟨buf, none⟩ events
  | .failed :: events => .returned .failed ⟨buf, none⟩ events
  | .interrupted :: events => recvFetch buf out events
  | .data fragment :: events =>
    let buf := fragment.received
    match scanBuffer buf.bytes 0 out with
    | .returned line ptr => .returned (.line line) ⟨buf, ptr⟩ events
    | .more out => recvFetch buf out events

/-- `dbrelay_socket_recv_string`. -/
def recvString (inBuf : InBuf) (events : List RecvEvent) : RecvResult :=
  match inBuf.ptr with
  | none => recvFetch inBuf.buf [] events
  | some ptr =>
    if socketBufsize - 1 ≤ ptr then recvFetch inBuf.buf [] events
    else
      match scanBuffer inBuf.buf.bytes ptr [] with
      | .returned line ptr => .returned (.line line) ⟨inBuf.buf, ptr⟩ events
      | .more out => recvFetch inBuf.buf out events

/-! ## Sending -/

/-- What happens when a call waits to send and sends. -/
inductive SendEvent
  /-- `send` takes this many bytes: at least one, and no more than it is given. -/
  | sent (count : Nat)
  | failed
  | waitFailed
  deriving DecidableEq

/-- The end of a call: whether it returned 0, and the bytes that were taken. -/
structure SendResult where
  ok : Bool
  taken : List UInt8
  events : List SendEvent
  deriving DecidableEq

/-- `dbrelay_socket_send_string`.  When the events are used up, `send` takes
all that it is given. -/
def sendString (str : List UInt8) : List SendEvent → SendResult
  | [] => ⟨true, str, []⟩
  | event :: events =>
    if str.length = 0 then ⟨true, [], event :: events⟩
    else
      match event with
      | .waitFailed => ⟨false, [], events⟩
      | .failed => ⟨false, [], events⟩
      | .sent count =>
        let bytesSent := max 1 (min count str.length)
        let rest := sendString (str.drop bytesSent) events
        { rest with taken := str.take bytesSent ++ rest.taken }

/-! ## What a scan does -/

/-- The bytes of a buffer from a position on, with `none` for the end. -/
def bytesFrom (buf : List UInt8) : Option Nat → List UInt8
  | none => []
  | some ptr => buf.drop ptr

/-- The rest of a buffer: what comes before the next newline, and that newline
with what follows, if there is one. -/
theorem drop_split (buf : List UInt8) (ptr : Nat) :
    ∃ available rest, buf.drop ptr = available ++ rest ∧ newline ∉ available ∧
      (buf.drop ptr).takeWhile (fun b => decide (b ≠ newline)) = available ∧
      (rest = [] ∨ ∃ t, rest = newline :: t) := by
  refine ⟨_, (buf.drop ptr).dropWhile fun b => decide (b ≠ newline),
    List.takeWhile_append_dropWhile.symm, ?_, rfl, ?_⟩
  · intro h
    simpa using List.mem_takeWhile_imp h
  · cases hrest : (buf.drop ptr).dropWhile fun b => decide (b ≠ newline) with
    | nil => exact .inl rfl
    | cons b t =>
      have hb := List.head_dropWhile_not (fun b => decide (b ≠ newline))
        (by rw [hrest]; exact List.cons_ne_nil b t)
      simp only [hrest, List.head_cons] at hb
      exact .inr ⟨t, by rw [show b = newline by simpa using hb]⟩

/-- The three ways a scan can end. -/
theorem scanBuffer_cases {buf out : List UInt8} (ptr : Nat)
    (hbuf : buf.length ≤ pieceSize) (hout : out.length < pieceSize) :
    (∃ p r ptr', firstPiece newline pieceSize out (buf.drop ptr) = some (p, r) ∧
      scanBuffer buf ptr out = .returned p ptr' ∧ bytesFrom buf ptr' = r) ∨
    firstPiece newline pieceSize out (buf.drop ptr) = none ∧
      scanBuffer buf ptr out = .more (out ++ buf.drop ptr) := by
  obtain ⟨available, rest, hsplit, hno, htake, hrest⟩ := drop_split buf ptr
  have hlen : available.length + rest.length = buf.length - ptr := by
    rw [← List.length_append, ← hsplit, List.length_drop]
  unfold scanBuffer
  rw [htake, hsplit]
  by_cases hspace : available.length < socketBufsize - out.length - 1
  · rw [if_pos hspace]
    have hroom : out.length + available.length < pieceSize := by
      unfold pieceSize
      omega
    rcases hrest with rfl | ⟨t, rfl⟩
    · -- No newline: the whole buffer fits.
      right
      have hend : ¬ ptr + available.length < buf.length := by
        simp only [List.length_nil] at hlen
        omega
      rw [if_neg hend, List.append_nil]
      exact ⟨firstPiece_none hno hroom, rfl⟩
    · -- A newline within the space.
      left
      have hend : ptr + available.length < buf.length := by
        simp only [List.length_cons] at hlen
        omega
      rw [if_pos hend]
      refine ⟨_, _, _, firstPiece_line t hno hroom, rfl, ?_⟩
      have hdrop : buf.drop (ptr + available.length + 1) = t := by
        rw [Nat.add_assoc, ← List.drop_drop, hsplit, ← List.drop_drop, List.drop_left]
        rfl
      split
      · rename_i hle
        rw [bytesFrom, ← hdrop, List.drop_of_length_le hle]
      · exact hdrop
  · -- The space is used up before a newline.
    rw [if_neg hspace]
    left
    obtain ⟨space, hspaceEq⟩ : ∃ space, socketBufsize - out.length - 1 = space + 1 :=
      ⟨socketBufsize - out.length - 2, by unfold pieceSize at hout; omega⟩
    rw [hspaceEq] at hspace ⊢
    have hlt : space < available.length := by omega
    have havail : available =
        available.take space ++ available[space] :: available.drop (space + 1) := by
      rw [List.getElem_cons_drop, List.take_append_drop]
    have hpiece : firstPiece newline pieceSize out (available ++ rest) =
        some (out ++ available.take (space + 1), available.drop (space + 1) ++ rest) := by
      have hno' : newline ∉ available.take space := fun h => hno (List.mem_of_mem_take h)
      have hfill : out.length + (available.take space).length + 1 = pieceSize := by
        rw [List.length_take, min_eq_left (by omega)]
        unfold pieceSize
        omega
      have hfull : firstPiece newline pieceSize out
          (available.take space ++ available[space] :: (available.drop (space + 1) ++ rest)) =
          some (out ++ available.take space ++ [available[space]],
            available.drop (space + 1) ++ rest) := firstPiece_full _ hno' hfill
      rwa [← List.cons_append, ← List.append_assoc, ← havail, List.append_assoc,
        List.take_append_getElem] at hfull
    refine ⟨_, _, _, hpiece, rfl, ?_⟩
    have hdrop : buf.drop (ptr + (space + 1)) = available.drop (space + 1) ++ rest := by
      rw [← List.drop_drop, hsplit, List.drop_append_of_le_length (by omega)]
    split
    · rename_i hle
      rw [bytesFrom, ← hdrop, List.drop_of_length_le (by unfold pieceSize at hbuf; omega)]
    · exact hdrop

/-! ## What a call does -/

/-- The events deliver exactly these bytes: receives that succeed, in order,
and any number of interrupted ones. -/
def Delivers : List RecvEvent → List UInt8 → Prop
  | [], bytes => bytes = []
  | .data fragment :: events, bytes =>
    ∃ rest, bytes = fragment.bytes ++ rest ∧ Delivers events rest
  | .interrupted :: events, bytes => Delivers events bytes
  | _ :: _, _ => False

/-- The buffer in a state between two calls. -/
theorem InBuf.pending_eq (buf : CharBuf socketBufsize) (ptr : Option Nat) :
    InBuf.pending ⟨buf, ptr⟩ = bytesFrom buf.bytes ptr := by
  cases ptr <;> rfl

theorem Fragment.received_bytes {fragment : Fragment} (h : 0 ∉ fragment.bytes) :
    fragment.received.bytes = fragment.bytes :=
  CString.ofBytes_bytes_eq_iff.2 h

/-- The loop with `in_ptr == -1`, on events that deliver a NUL-free stream. -/
theorem recvFetch_delivers {events : List RecvEvent} {bytes : List UInt8}
    (hev : Delivers events bytes) (hnul : 0 ∉ bytes) (more : List RecvEvent) :
    ∀ {buf : CharBuf socketBufsize} {out : List UInt8}, out.length < pieceSize →
      (∀ p r, firstPiece newline pieceSize out bytes = some (p, r) →
        ∃ inBuf events' rest, recvFetch buf out (events ++ more) =
            .returned (.line p) inBuf (events' ++ more) ∧
          Delivers events' rest ∧ inBuf.pending ++ rest = r) ∧
      (firstPiece newline pieceSize out bytes = none →
        ∃ buf', recvFetch buf out (events ++ more) =
          recvFetch buf' (out ++ bytes) more) := by
  induction events generalizing bytes with
  | nil =>
    intro buf out _
    obtain rfl : bytes = [] := hev
    refine ⟨fun p r h => ?_, fun _ => ⟨buf, ?_⟩⟩
    · cases h
    · rw [List.append_nil, List.nil_append]
  | cons event events ih =>
    intro buf out hout
    cases event with
    | interrupted => exact ih hev hnul hout
    | closed | failed | waitFailed => exact hev.elim
    | data fragment =>
      obtain ⟨rest, rfl, hrest⟩ := hev
      have hnulf : 0 ∉ fragment.bytes := fun h => hnul (List.mem_append_left _ h)
      have hnulr : 0 ∉ rest := fun h => hnul (List.mem_append_right _ h)
      have hbytes := Fragment.received_bytes hnulf
      have hfits : fragment.received.bytes.length ≤ pieceSize :=
        Nat.le_sub_one_of_lt fragment.received.fits
      simp only [List.cons_append, recvFetch]
      rcases scanBuffer_cases 0 hfits hout with
        ⟨p, r, ptr', hpiece, hscan, hfrom⟩ | ⟨hnone, hscan⟩
      · rw [List.drop_zero, hbytes] at hpiece
        rw [hscan]
        have happend := firstPiece_append_some rest hpiece
        refine ⟨fun p' r' h => ?_, fun h => ?_⟩
        · rw [happend] at h
          obtain ⟨rfl, rfl⟩ := Prod.mk.inj (Option.some.inj h)
          exact ⟨_, _, _, rfl, hrest, by rw [InBuf.pending_eq, hfrom]⟩
        · rw [happend] at h
          cases h
      · rw [List.drop_zero, hbytes] at hnone
        rw [hscan, List.drop_zero, hbytes]
        have hshort := length_lt_of_firstPiece_none hout hnone
        rw [firstPiece_append_none hnone, ← List.append_assoc]
        exact ih hrest hnulr hshort

theorem InBuf.pending_noNul (inBuf : InBuf) : 0 ∉ inBuf.pending := by
  unfold InBuf.pending
  split
  · exact List.not_mem_nil
  · exact fun h => inBuf.buf.noNul (List.mem_of_mem_drop h)

/-- A call returns the first piece of the pending bytes and those to come. -/
theorem recvString_line {inBuf : InBuf} {events : List RecvEvent} {bytes p r : List UInt8}
    (hev : Delivers events bytes) (hnul : 0 ∉ bytes) (more : List RecvEvent)
    (h : firstPiece newline pieceSize [] (inBuf.pending ++ bytes) = some (p, r)) :
    ∃ inBuf' events' rest, recvString inBuf (events ++ more) =
        .returned (.line p) inBuf' (events' ++ more) ∧
      Delivers events' rest ∧ 0 ∉ rest ∧ inBuf'.pending ++ rest = r := by
  have hrest : ∀ {inBuf' rest}, InBuf.pending inBuf' ++ rest = r → 0 ∉ rest := by
    intro inBuf' rest hr hmem
    have hall : 0 ∈ inBuf.pending ++ bytes := by
      rw [← List.nil_append (inBuf.pending ++ bytes), firstPiece_eq h, ← hr]
      exact List.mem_append_right _ (List.mem_append_right _ hmem)
    rcases List.mem_append.1 hall with hmem | hmem
    · exact inBuf.pending_noNul hmem
    · exact hnul hmem
  suffices hline : ∃ inBuf' events' rest, recvString inBuf (events ++ more) =
      .returned (.line p) inBuf' (events' ++ more) ∧
        Delivers events' rest ∧ inBuf'.pending ++ rest = r by
    obtain ⟨inBuf', events', rest, hrecv, hev', hr⟩ := hline
    exact ⟨inBuf', events', rest, hrecv, hev', hrest hr, hr⟩
  clear hrest
  have hzero : ([] : List UInt8).length < pieceSize := by decide
  obtain ⟨buf, ptr⟩ := inBuf
  cases ptr with
  | none => exact (recvFetch_delivers hev hnul more hzero).1 p r h
  | some ptr =>
    have hfits : buf.bytes.length ≤ pieceSize := Nat.le_sub_one_of_lt buf.fits
    simp only [recvString]
    split
    · rename_i hend
      have hpending : InBuf.pending ⟨buf, some ptr⟩ = [] :=
        List.drop_of_length_le (hfits.trans hend)
      rw [hpending] at h
      exact (recvFetch_delivers hev hnul more hzero).1 p r h
    · rw [InBuf.pending_eq, bytesFrom] at h
      rcases scanBuffer_cases ptr hfits hzero with
        ⟨p', r', ptr', hpiece, hscan, hfrom⟩ | ⟨hnone, hscan⟩
      · rw [firstPiece_append_some bytes hpiece] at h
        obtain ⟨rfl, rfl⟩ := Prod.mk.inj (Option.some.inj h)
        rw [hscan]
        exact ⟨_, _, _, rfl, hev, by rw [InBuf.pending_eq, hfrom]⟩
      · rw [firstPiece_append_none hnone] at h
        rw [hscan]
        exact (recvFetch_delivers hev hnul more
          (length_lt_of_firstPiece_none hzero hnone)).1 p r h

/-- A call that finds no piece has read all bytes, and goes on with the events
that follow. -/
theorem recvString_none {inBuf : InBuf} {events : List RecvEvent} {bytes : List UInt8}
    (hev : Delivers events bytes) (hnul : 0 ∉ bytes) (more : List RecvEvent)
    (h : firstPiece newline pieceSize [] (inBuf.pending ++ bytes) = none) :
    ∃ buf, recvString inBuf (events ++ more) =
      recvFetch buf (inBuf.pending ++ bytes) more := by
  have hzero : ([] : List UInt8).length < pieceSize := by decide
  obtain ⟨buf, ptr⟩ := inBuf
  cases ptr with
  | none => exact (recvFetch_delivers hev hnul more hzero).2 h
  | some ptr =>
    have hfits : buf.bytes.length ≤ pieceSize := Nat.le_sub_one_of_lt buf.fits
    simp only [recvString]
    split
    · rename_i hend
      have hpending : InBuf.pending ⟨buf, some ptr⟩ = [] :=
        List.drop_of_length_le (hfits.trans hend)
      rw [hpending] at h ⊢
      exact (recvFetch_delivers hev hnul more hzero).2 h
    · rw [InBuf.pending_eq, bytesFrom] at h ⊢
      rcases scanBuffer_cases ptr hfits hzero with
        ⟨p', r', ptr', hpiece, -, -⟩ | ⟨hnone, hscan⟩
      · rw [firstPiece_append_some bytes hpiece] at h
        cases h
      · rw [firstPiece_append_none hnone] at h
        rw [hscan]
        exact (recvFetch_delivers hev hnul more
          (length_lt_of_firstPiece_none hzero hnone)).2 h

theorem Delivers.append {events events' : List RecvEvent} {bytes bytes' : List UInt8}
    (h : Delivers events bytes) (h' : Delivers events' bytes') :
    Delivers (events ++ events') (bytes ++ bytes') := by
  induction events generalizing bytes with
  | nil =>
    obtain rfl : bytes = [] := h
    exact h'
  | cons event events ih =>
    cases event with
    | interrupted => exact ih h
    | closed | failed | waitFailed => exact h.elim
    | data fragment =>
      obtain ⟨rest, rfl, hrest⟩ := h
      exact ⟨rest ++ bytes', List.append_assoc _ _ _, ih hrest⟩

/-- A stream may arrive at once. -/
theorem delivers_fragment (fragment : Fragment) :
    Delivers [.data fragment] fragment.bytes :=
  ⟨[], (List.append_nil _).symm, rfl⟩

/-! ## Every line uses up something -/

/-- The events and bytes that calls can still use up. -/
def RecvEvent.weight : RecvEvent → Nat
  | .data fragment => fragment.bytes.length + 1
  | _ => 1

def recvWeight (inBuf : InBuf) (events : List RecvEvent) : Nat :=
  inBuf.pending.length + (events.map RecvEvent.weight).sum

theorem recvFetch_weight {buf : CharBuf socketBufsize} {out line : List UInt8}
    {events events' : List RecvEvent} {inBuf' : InBuf}
    (h : recvFetch buf out events = .returned (.line line) inBuf' events') :
    recvWeight inBuf' events' < (events.map RecvEvent.weight).sum := by
  induction events generalizing buf out with
  | nil => cases h
  | cons event events ih =>
    simp only [List.map_cons, List.sum_cons]
    cases event with
    | interrupted =>
      have := ih h
      omega
    | closed | failed | waitFailed => cases h
    | data fragment =>
      simp only [recvFetch] at h
      split at h
      · rename_i ptr hscan
        obtain ⟨-, rfl, rfl⟩ := RecvResult.returned.inj h
        have hreceived : fragment.received.bytes.length ≤ fragment.bytes.length :=
          (List.takeWhile_sublist _).length_le
        have hpending : (InBuf.pending ⟨fragment.received, ptr⟩).length ≤
            fragment.received.bytes.length := by
          rw [InBuf.pending_eq]
          cases ptr with
          | none => exact Nat.zero_le _
          | some ptr => exact (List.drop_sublist _ _).length_le
        simp only [recvWeight, RecvEvent.weight]
        omega
      · have := ih h
        omega

/-- A call that returns a line uses up bytes or events. -/
theorem recvString_weight {inBuf inBuf' : InBuf} {events events' : List RecvEvent}
    {line : List UInt8} (h : recvString inBuf events = .returned (.line line) inBuf' events') :
    recvWeight inBuf' events' < recvWeight inBuf events := by
  obtain ⟨buf, ptr⟩ := inBuf
  have hfits : buf.bytes.length ≤ pieceSize := Nat.le_sub_one_of_lt buf.fits
  have hle : (events.map RecvEvent.weight).sum ≤ recvWeight ⟨buf, ptr⟩ events :=
    Nat.le_add_left _ _
  cases ptr with
  | none => exact lt_of_lt_of_le (recvFetch_weight h) hle
  | some ptr =>
    simp only [recvString] at h
    split at h
    · exact lt_of_lt_of_le (recvFetch_weight h) hle
    · split at h
      · rename_i line' ptr' hscan
        obtain ⟨-, rfl, rfl⟩ := RecvResult.returned.inj h
        have hzero : ([] : List UInt8).length < pieceSize := by decide
        rcases scanBuffer_cases ptr hfits hzero with
          ⟨p, r, ptr'', hpiece, hscan', hfrom⟩ | ⟨-, hscan'⟩
        · rw [hscan'] at hscan
          obtain ⟨-, rfl⟩ := Scan.returned.inj hscan
          have hlt := firstPiece_length hpiece
          simp only [recvWeight, InBuf.pending_eq, hfrom]
          exact Nat.add_lt_add_right hlt _
        · rw [hscan'] at hscan
          cases hscan
      · exact lt_of_lt_of_le (recvFetch_weight h) hle

/-! ## What is sent -/

/-- What was taken is a beginning of the string, and all of it on success. -/
theorem sendString_taken (str : List UInt8) (events : List SendEvent) :
    (sendString str events).taken <+: str ∧
      ((sendString str events).ok = true → (sendString str events).taken = str) := by
  induction events generalizing str with
  | nil => exact ⟨List.prefix_rfl, fun _ => rfl⟩
  | cons event events ih =>
    unfold sendString
    by_cases hstr : str.length = 0
    · rw [if_pos hstr]
      exact ⟨List.nil_prefix, fun _ => (List.length_eq_zero_iff.1 hstr).symm⟩
    · rw [if_neg hstr]
      cases event with
      | waitFailed | failed => exact ⟨List.nil_prefix, fun h => by cases h⟩
      | sent count =>
        obtain ⟨hpre, hall⟩ := ih (str.drop (max 1 (min count str.length)))
        refine ⟨?_, fun hok => ?_⟩
        · have hcat := List.take_append_drop (max 1 (min count str.length)) str
          obtain ⟨rest, hrest⟩ := hpre
          refine ⟨rest, ?_⟩
          rw [List.append_assoc, hrest, hcat]
        · show str.take _ ++ (sendString _ events).taken = str
          rw [hall hok, List.take_append_drop]

/-- Every `send` takes some bytes. -/
def AllSent (events : List SendEvent) : Prop :=
  ∀ event ∈ events, ∃ count, event = .sent count

/-- Partial sends alone do not fail. -/
theorem sendString_allSent (str : List UInt8) {events : List SendEvent}
    (h : AllSent events) :
    (sendString str events).ok = true ∧ AllSent (sendString str events).events := by
  induction events generalizing str with
  | nil => exact ⟨rfl, fun _ hmem => by cases hmem⟩
  | cons event events ih =>
    unfold sendString
    by_cases hstr : str.length = 0
    · rw [if_pos hstr]
      exact ⟨rfl, h⟩
    · rw [if_neg hstr]
      obtain ⟨count, rfl⟩ := h event (List.mem_cons_self)
      exact ih _ fun e he => h e (List.mem_cons_of_mem _ he)

end DbRelay
