import DbRelay.Wire.Socket
import DbRelay.Lib.CArray

/-!
# The buffers of a receive

`dbrelay_socket_recv_string` on its arrays.  Here `in_buf` and `out_buf` are `CArray`s, and
the cursors are the ones of the source.  `none` is an access outside of an array.

* `recvCall` is the function, and `recvCalls` a sequence of calls on one `in_buf` and
  `in_ptr`.
* `recvCall_refines`: a call does what `recvString` says, and never leaves the arrays.
* `recvCalls_cut`: what all calls return is the cut of the stream.
-/

namespace DbRelay

open Framing

/-! ## The function -/

/-- `in_buf` and `in_ptr`, where `none` is -1. -/
structure RecvState where
  inBuf : CArray socketBufsize
  inPtr : Option Nat

/-- The index where the scan for a newline ends: at one, or at `len`. -/
def scanNewline (inBuf : CArray socketBufsize) (len i : Nat) : Option Nat :=
  inBuf[i]?.bind fun b =>
    if b ≠ newline ∧ i < len then scanNewline inBuf len (i + 1) else some i
termination_by len - i

/-- The end of the loop body: it returns 1, or the loop goes on. -/
inductive Pass
  | returned (inPtr : Option Nat) (outBuf : CArray socketBufsize)
  | again (inPtr : Option Nat) (outBuf : CArray socketBufsize) (outPtr : Nat)

/-- The loop body after the fetch. -/
def copyLine (inBuf : CArray socketBufsize) (inPtr : Nat) (outBuf : CArray socketBufsize)
    (outPtr : Nat) : Option Pass := do
  let len ← inBuf.strlen
  let i ← scanNewline inBuf len inPtr
  let haveAvailable := i - inPtr
  let haveSpace := socketBufsize - outPtr - 1
  if haveAvailable < haveSpace then
    let outBuf ← outBuf.write outPtr (← inBuf.strncpySource inPtr haveAvailable)
    let outBuf ← outBuf.store (outPtr + haveAvailable) 0
    let outPtr := outPtr + haveAvailable
    let inPtr := inPtr + haveAvailable
    if inPtr < len ∧ inBuf[inPtr]? = some newline then
      let outBuf ← outBuf.store outPtr newline
      let outBuf ← outBuf.store (outPtr + 1) 0
      let inPtr := inPtr + 1
      return .returned (if len ≤ inPtr then none else some inPtr) outBuf
    else return .again (if len ≤ inPtr then none else some inPtr) outBuf outPtr
  else
    let outBuf ← outBuf.write outPtr (← inBuf.strncpySource inPtr haveSpace)
    let outBuf ← outBuf.store (socketBufsize - 1) 0
    let inPtr := inPtr + haveSpace
    return .returned (if socketBufsize - 1 ≤ inPtr then none else some inPtr) outBuf

/-- The end of a call: the number that it returns, with what it leaves, or it is still
waiting. -/
inductive CallEnd
  | returned (t : Int) (state : RecvState) (outBuf : CArray socketBufsize)
      (events : List RecvEvent)
  | waiting

/-- The loop.  Its fuel counts the passes. -/
def recvLoop : Nat → RecvState → CArray socketBufsize → Nat → List RecvEvent → Option CallEnd
  | 0, _, _, _, _ => none
  | fuel + 1, state, outBuf, outPtr, events =>
    let copy (inBuf : CArray socketBufsize) (inPtr : Nat) (events : List RecvEvent) :=
      (copyLine inBuf inPtr outBuf outPtr).bind fun
        | .returned inPtr outBuf => some (.returned 1 ⟨inBuf, inPtr⟩ outBuf events)
        | .again inPtr outBuf outPtr => recvLoop fuel ⟨inBuf, inPtr⟩ outBuf outPtr events
    match state.inPtr.filter fun inPtr => decide (inPtr < socketBufsize - 1) with
    | some inPtr => copy state.inBuf inPtr events
    | none =>
      match events with
      | [] => some .waiting
      | .waitFailed :: events => some (.returned (-1) ⟨state.inBuf, none⟩ outBuf events)
      | .closed :: events => some (.returned 0 ⟨state.inBuf, none⟩ outBuf events)
      | .failed :: events => some (.returned (-1) ⟨state.inBuf, none⟩ outBuf events)
      | .interrupted :: events => recvLoop fuel ⟨state.inBuf, none⟩ outBuf outPtr events
      | .data fragment :: events =>
        (state.inBuf.write 0 (fragment.bytes ++ [0])).bind fun inBuf => copy inBuf 0 events

/-- `dbrelay_socket_recv_string`.  A pass uses up an event, or leaves `in_ptr` at -1. -/
def recvCall (state : RecvState) (outBuf : CArray socketBufsize) (events : List RecvEvent) :
    Option CallEnd :=
  recvLoop (events.length + 2) state outBuf 0 events

/-- Calls one after the other, each with an `out_buf` of any content. -/
def recvCalls : List (CArray socketBufsize) → RecvState → List RecvEvent →
    List (Option CallEnd)
  | [], _, _ => []
  | outBuf :: outBufs, state, events =>
    match recvCall state outBuf events with
    | some (.returned t state outBuf events) =>
      some (.returned t state outBuf events) :: recvCalls outBufs state events
    | stopped => [stopped]

/-- The string in `out_buf`, if the call returned 1. -/
def CallEnd.line? : CallEnd → Option (List UInt8)
  | .returned t _ outBuf _ => if t = 1 then some outBuf.string else none
  | .waiting => none

/-! ## The copy -/

theorem scanNewline_eq {inBuf : CArray socketBufsize} {s : List UInt8}
    (hs : s ++ [0] <+: inBuf.toList) {i : Nat} (hi : i < socketBufsize) :
    scanNewline inBuf s.length i =
      some (i + ((s.drop i).takeWhile fun b => decide (b ≠ newline)).length) := by
  induction hn : s.length - i generalizing i with
  | zero =>
    have hle : s.length ≤ i := by omega
    have hread : inBuf[i]? = some inBuf[i] := Vector.getElem?_eq_getElem hi
    rw [scanNewline, hread, Option.bind_some, if_neg (by omega), List.drop_of_length_le hle]
    rfl
  | succ n ih =>
    have hlt : i < s.length := by omega
    have hread : inBuf[i]? = some s[i] := by
      rw [CArray.getElem?_of_prefix ((List.prefix_append s [0]).trans hs) hlt,
        List.getElem?_eq_getElem hlt]
    rw [scanNewline, hread, Option.bind_some, List.drop_eq_getElem_cons hlt, List.takeWhile_cons]
    by_cases hb : s[i] = newline
    · rw [if_neg fun h => h.1 hb, if_neg (by simpa using hb)]
      rfl
    · have hlen := hs.length_le
      rw [List.length_append, Vector.length_toList, List.length_singleton] at hlen
      rw [if_pos ⟨hb, hlt⟩, ih (i := i + 1) (by omega) (by omega), if_pos (by simpa using hb),
        List.length_cons]
      exact congrArg some (by omega)

/-- What `copyLine` does, if `scanBuffer` does the other. -/
def Pass.Refines (pass : Option Pass) : Scan → Prop
  | .returned line inPtr => ∃ outBuf, pass = some (.returned inPtr outBuf) ∧ outBuf.string = line
  | .more out => ∃ outBuf, pass = some (.again none outBuf out.length) ∧ out <+: outBuf.toList

/-- Where the scan stops before the end of the string, it stops at a newline. -/
theorem newline_at {inBuf : CArray socketBufsize} {s available rest : List UInt8} {inPtr : Nat}
    (hstart : s <+: inBuf.toList) (hsplit : s.drop inPtr = available ++ rest)
    (hrest : rest = [] ∨ ∃ t, rest = newline :: t) (hend : inPtr + available.length < s.length) :
    inBuf[inPtr + available.length]? = some newline := by
  rcases hrest with rfl | ⟨t, rfl⟩
  · have hdrop := congrArg List.length hsplit
    rw [List.append_nil, List.length_drop] at hdrop
    omega
  · rw [CArray.getElem?_of_prefix hstart hend, ← List.getElem?_drop, hsplit,
      List.getElem?_append_right (Nat.le_refl _), Nat.sub_self]
    rfl

/-- The copy stays in the arrays and does what `scanBuffer` says. -/
theorem copyLine_refines {inBuf outBuf : CArray socketBufsize} {s out : List UInt8}
    (hs : s ++ [0] <+: inBuf.toList) (hsNul : 0 ∉ s) {inPtr : Nat} (hptr : inPtr < socketBufsize)
    (hout : out <+: outBuf.toList) (houtNul : 0 ∉ out) (hlen : out.length < pieceSize) :
    Pass.Refines (copyLine inBuf inPtr outBuf out.length) (scanBuffer s inPtr out) := by
  obtain ⟨available, rest, hsplit, hno, htake, hrest⟩ := drop_split s inPtr
  have hprefix : s <+: inBuf.toList := (List.prefix_append s [0]).trans hs
  have hcopied : available.length ≤ s.length - inPtr := by
    rw [← List.length_drop, hsplit, List.length_append]
    omega
  have havailNul : 0 ∉ available := by
    intro h
    have hmem : 0 ∈ s.drop inPtr := by
      rw [hsplit]
      exact List.mem_append_left _ h
    exact hsNul (List.mem_of_mem_drop hmem)
  have hsource : ∀ n ≤ available.length,
      inBuf.strncpySource inPtr n = some (available.take n) := by
    intro n hn
    rw [CArray.strncpySource_of_prefix hsNul hprefix (hn.trans hcopied), hsplit,
      List.take_append_of_le_length hn]
  unfold copyLine scanBuffer
  rw [CArray.strlen_of_prefix hsNul hs, htake]
  simp only [Option.bind_eq_bind, Option.bind_some, scanNewline_eq hs hptr, htake,
    Nat.add_sub_cancel_left]
  by_cases hspace : available.length < socketBufsize - out.length - 1
  · -- The line, or all that is left of the buffer, fits.
    rw [if_pos hspace, if_pos hspace, hsource _ (Nat.le_refl _), List.take_length]
    obtain ⟨out₁, out₂, hwrite, hstore, hpre₂⟩ :=
      CArray.writeString_append hout available (by omega)
    have hlen₁ : (out ++ available).length = out.length + available.length :=
      List.length_append
    have hpre : out ++ available <+: out₂.toList := (List.prefix_append _ [0]).trans hpre₂
    simp only [Option.bind_some, hwrite, hstore]
    by_cases hend : inPtr + available.length < s.length
    · have hnewline := newline_at hprefix hsplit hrest hend
      obtain ⟨out₃, out₄, hstore₃, hstore₄, hpre₄⟩ :=
        CArray.writeString_append hpre [newline] (by rw [hlen₁, List.length_singleton]; omega)
      rw [hlen₁, CArray.write_singleton] at hstore₃
      rw [hlen₁, List.length_singleton] at hstore₄
      simp only [if_pos hend, if_pos (And.intro hend hnewline), hstore₃, hstore₄,
        Option.bind_some]
      refine ⟨out₄, rfl, CArray.string_of_prefix ?_ hpre₄⟩
      simp only [List.mem_append, List.mem_singleton, not_or]
      exact ⟨⟨houtNul, havailNul⟩, by decide⟩
    · have hnot : ¬(inPtr + available.length < s.length ∧
          inBuf[inPtr + available.length]? = some newline) := fun h => hend h.1
      have hstop : s.length ≤ inPtr + available.length := Nat.le_of_not_lt hend
      simp only [if_neg hend, if_neg hnot, if_pos hstop, ← hlen₁]
      exact ⟨out₂, rfl, hpre⟩
  · -- `out_buf` is full before the line ends.
    rw [if_neg hspace, if_neg hspace]
    have hle : socketBufsize - out.length - 1 ≤ available.length := by omega
    have hfull : out.length + (available.take (socketBufsize - out.length - 1)).length =
        socketBufsize - 1 := by
      unfold pieceSize at hlen
      rw [List.length_take, min_eq_left hle]
      omega
    rw [hsource _ hle]
    obtain ⟨out₁, out₂, hwrite, hstore, hpre₂⟩ :=
      CArray.writeString_append hout (available.take (socketBufsize - out.length - 1))
        (by rw [hfull]; decide)
    rw [hfull] at hstore
    simp only [Option.bind_some, hwrite, hstore]
    refine ⟨out₂, rfl, CArray.string_of_prefix ?_ hpre₂⟩
    rw [List.mem_append, not_or]
    exact ⟨houtNul, fun h => havailNul (List.mem_of_mem_take h)⟩

/-! ## A call -/

/-- The arrays hold what the state of `recvString` says. -/
def RecvState.Holds (state : RecvState) (inBuf : InBuf) : Prop :=
  state.inPtr = inBuf.ptr ∧
    (inBuf.ptr ≠ none → inBuf.buf.bytes ++ [0] <+: state.inBuf.toList)

/-- The number that a call returns. -/
def Received.code : Received → Int
  | .line _ => 1
  | .closed => 0
  | .failed => -1

/-- What a call does, if `recvString` does the other. -/
def CallEnd.Refines (callEnd : Option CallEnd) : RecvResult → Prop
  | .waiting => callEnd = some .waiting
  | .returned received inBuf events =>
    ∃ state outBuf, callEnd = some (.returned received.code state outBuf events) ∧
      state.Holds inBuf ∧ ∀ line, received = .line line → outBuf.string = line

/-- A received fragment in `in_buf`. -/
theorem write_fragment (inBuf : CArray socketBufsize) (fragment : Fragment) :
    ∃ inBuf', inBuf.write 0 (fragment.bytes ++ [0]) = some inBuf' ∧
      fragment.received.bytes ++ [0] <+: inBuf'.toList := by
  have hfits : ([] : List UInt8).length + (fragment.bytes ++ [0]).length ≤ socketBufsize := by
    rw [List.length_append, List.length_singleton, List.length_nil, Nat.zero_add]
    exact fragment.fits
  rcases CArray.write_append List.nil_prefix _ hfits with ⟨inBuf', hwrite, hprefix⟩
  exact ⟨inBuf', hwrite, (CArray.takeWhile_prefix_zero fragment.bytes).trans hprefix⟩

/-- A pass of the loop with a position in `in_buf`. -/
theorem copy_refines {inBuf outBuf : CArray socketBufsize} {buf : CharBuf socketBufsize}
    (hs : buf.bytes ++ [0] <+: inBuf.toList) {inPtr : Nat} (hptr : inPtr < socketBufsize)
    {out : List UInt8} (hout : out <+: outBuf.toList) (houtNul : 0 ∉ out)
    (hlen : out.length < pieceSize) {events : List RecvEvent}
    {next : Option Nat → CArray socketBufsize → Nat → Option CallEnd}
    {again : List UInt8 → RecvResult}
    (hnext : ∀ out' outBuf', out' <+: outBuf'.toList → 0 ∉ out' → out'.length < pieceSize →
      CallEnd.Refines (next none outBuf' out'.length) (again out')) :
    CallEnd.Refines
      ((copyLine inBuf inPtr outBuf out.length).bind fun
        | .returned inPtr outBuf => some (.returned 1 ⟨inBuf, inPtr⟩ outBuf events)
        | .again inPtr outBuf outPtr => next inPtr outBuf outPtr)
      (match scanBuffer buf.bytes inPtr out with
        | .returned line ptr => .returned (.line line) ⟨buf, ptr⟩ events
        | .more out => again out) := by
  have hcopy := copyLine_refines hs buf.noNul hptr hout houtNul hlen
  have hfits : buf.bytes.length ≤ pieceSize := Nat.le_sub_one_of_lt buf.fits
  rcases scanBuffer_cases inPtr hfits hlen with ⟨p, r, ptr', -, hscan, -⟩ | ⟨hnone, hscan⟩
  · rw [hscan] at hcopy ⊢
    rcases hcopy with ⟨outBuf', hpass, hline⟩
    rw [hpass, Option.bind_some]
    refine ⟨_, _, rfl, ⟨rfl, fun _ => hs⟩, ?_⟩
    intro _ hgiven
    cases hgiven
    exact hline
  · rw [hscan] at hcopy ⊢
    rcases hcopy with ⟨outBuf', hpass, hprefix⟩
    rw [hpass, Option.bind_some]
    refine hnext _ _ hprefix ?_ (length_lt_of_firstPiece_none hlen hnone)
    rw [List.mem_append, not_or]
    exact ⟨houtNul, fun h => buf.noNul (List.mem_of_mem_drop h)⟩

/-- The loop with `in_ptr` at -1. -/
theorem recvLoop_refines {events : List RecvEvent} {fuel : Nat} (hfuel : events.length < fuel)
    {inBuf outBuf : CArray socketBufsize} (buf : CharBuf socketBufsize) {out : List UInt8}
    (hout : out <+: outBuf.toList) (houtNul : 0 ∉ out) (hlen : out.length < pieceSize) :
    CallEnd.Refines (recvLoop fuel ⟨inBuf, none⟩ outBuf out.length events)
      (recvFetch buf out events) := by
  induction events generalizing fuel inBuf outBuf buf out with
  | nil =>
    cases fuel with
    | zero => cases hfuel
    | succ fuel => exact rfl
  | cons event events ih =>
    cases fuel with
    | zero => cases hfuel
    | succ fuel =>
      have hfuel' : events.length < fuel := Nat.lt_of_succ_lt_succ hfuel
      cases event with
      | interrupted => exact ih hfuel' buf hout houtNul hlen
      | closed | failed | waitFailed =>
        exact ⟨_, _, rfl, ⟨rfl, fun h => absurd rfl h⟩, fun _ h => by cases h⟩
      | data fragment =>
        rcases write_fragment inBuf fragment with ⟨inBuf', hwrite, hs⟩
        simp only [recvLoop, Option.filter_none, hwrite, Option.bind_some, recvFetch]
        refine copy_refines hs (by decide) hout houtNul hlen
          fun out' outBuf' hout' hnul' hlen' => ?_
        exact ih hfuel' fragment.received hout' hnul' hlen'

/-- A call does what `recvString` says. -/
theorem recvCall_refines {state : RecvState} {inBuf : InBuf} (h : state.Holds inBuf)
    (outBuf : CArray socketBufsize) (events : List RecvEvent) :
    CallEnd.Refines (recvCall state outBuf events) (recvString inBuf events) := by
  obtain ⟨arr, ptr⟩ := state
  obtain ⟨buf, ptr'⟩ := inBuf
  obtain ⟨hptr, hs⟩ := h
  obtain rfl : ptr = ptr' := hptr
  have hzero : ([] : List UInt8).length < pieceSize := by decide
  have hnul : (0 : UInt8) ∉ ([] : List UInt8) := List.not_mem_nil
  have hfetch : ∀ fuel, events.length < fuel →
      CallEnd.Refines (recvLoop fuel ⟨arr, none⟩ outBuf 0 events) (recvFetch buf [] events) :=
    fun fuel hfuel => recvLoop_refines hfuel buf List.nil_prefix hnul hzero
  cases ptr with
  | none => exact hfetch _ (by omega)
  | some ptr =>
    by_cases hend : socketBufsize - 1 ≤ ptr
    · have hloop : recvLoop (events.length + 2) ⟨arr, some ptr⟩ outBuf 0 events =
          recvLoop (events.length + 2) ⟨arr, none⟩ outBuf 0 events := by
        have hnone : (some ptr).filter (fun p => decide (p < socketBufsize - 1)) = none := by
          rw [Option.filter_some, if_neg (by simpa using hend)]
        unfold recvLoop
        simp only [hnone, Option.filter_none]
      rw [recvCall, hloop, recvString]
      simp only [if_pos hend]
      exact hfetch _ (by omega)
    · have hlt : ptr < socketBufsize - 1 := Nat.lt_of_not_le hend
      have hsome : (some ptr).filter (fun p => decide (p < socketBufsize - 1)) = some ptr := by
        rw [Option.filter_some, if_pos (by simpa using hlt)]
      unfold recvCall recvLoop recvString
      simp only [hsome, if_neg hend]
      refine copy_refines (hs (by simp)) (Nat.lt_of_lt_of_le hlt (Nat.sub_le _ _))
        List.nil_prefix hnul hzero fun out' outBuf' hout' hnul' hlen' => ?_
      exact recvLoop_refines (by omega) buf hout' hnul' hlen'

/-! ## All calls -/

/-- No more bytes arrive. -/
def NoData (events : List RecvEvent) : Prop := ∀ event ∈ events, ∀ fragment, event ≠ .data fragment

/-- Without bytes no line is returned. -/
theorem recvFetch_noData {events : List RecvEvent} (h : NoData events)
    (buf : CharBuf socketBufsize) (out : List UInt8) :
    recvFetch buf out events = .waiting ∨
      ∃ received events', recvFetch buf out events = .returned received ⟨buf, none⟩ events' ∧
        (∀ line, received ≠ .line line) ∧ NoData events' := by
  induction events with
  | nil => exact .inl rfl
  | cons event events ih =>
    have hrest : NoData events := fun e he => h e (List.mem_cons_of_mem _ he)
    cases event with
    | data fragment => exact absurd rfl (h _ List.mem_cons_self fragment)
    | interrupted => exact ih hrest
    | closed | failed | waitFailed =>
      exact .inr ⟨_, _, rfl, fun _ => by simp, hrest⟩

/-- The lines that calls return. -/
def linesOf (calls : List (Option CallEnd)) : List (List UInt8) :=
  calls.filterMap fun callEnd => callEnd.bind CallEnd.line?

theorem recvCalls_returned {state state' : RecvState} {outBuf outBuf' : CArray socketBufsize}
    {events events' : List RecvEvent} {t : Int}
    (h : recvCall state outBuf events = some (.returned t state' outBuf' events'))
    (outBufs : List (CArray socketBufsize)) :
    recvCalls (outBuf :: outBufs) state events =
      some (.returned t state' outBuf' events') :: recvCalls outBufs state' events' := by
  rw [recvCalls, h]

/-- The calls from any state on: they return the pieces of what is pending and what is to
come. -/
theorem recvCalls_pending (outBufs : List (CArray socketBufsize)) {state : RecvState}
    {inBuf : InBuf} (h : state.Holds inBuf) {events ended : List RecvEvent} {bytes : List UInt8}
    (hev : Delivers events bytes) (hnul : 0 ∉ bytes) (hended : NoData ended) :
    (∀ callEnd ∈ recvCalls outBufs state (events ++ ended), callEnd ≠ none) ∧
      linesOf (recvCalls outBufs state (events ++ ended)) =
        (cut newline pieceSize [] (inBuf.pending ++ bytes)).1.take outBufs.length := by
  induction outBufs generalizing state inBuf events ended bytes with
  | nil => exact ⟨fun _ h => absurd h List.not_mem_nil, rfl⟩
  | cons outBuf outBufs ih =>
    have hcall := recvCall_refines h outBuf (events ++ ended)
    cases hpiece : firstPiece newline pieceSize [] (inBuf.pending ++ bytes) with
    | some piece =>
      obtain ⟨p, r⟩ := piece
      obtain ⟨inBuf', events', rest, hrecv, hev', hnul', hr⟩ :=
        recvString_line hev hnul ended hpiece
      rw [hrecv] at hcall
      obtain ⟨state', outBuf', hend, hholds, hline⟩ := hcall
      obtain ⟨hsome, hlines⟩ := ih hholds hev' hnul' hended
      rw [recvCalls_returned hend, cut_of_firstPiece_some hpiece, List.length_cons,
        List.take_succ_cons, ← hr, ← hlines]
      constructor
      · intro callEnd hmem
        rcases List.mem_cons.1 hmem with rfl | hmem
        · exact Option.some_ne_none _
        · exact hsome _ hmem
      · rw [linesOf, List.filterMap_cons_some]
        · rfl
        · rw [← hline p rfl]
          rfl
    | none =>
      obtain ⟨buf, hrecv⟩ := recvString_none hev hnul ended hpiece
      rw [cut_of_firstPiece_none hpiece, List.take_nil]
      rw [hrecv] at hcall
      rcases recvFetch_noData hended buf (inBuf.pending ++ bytes) with
        hwait | ⟨received, events', hfetch, hnoLine, hended'⟩
      · rw [hwait] at hcall
        have hend : recvCall state outBuf (events ++ ended) = some .waiting := hcall
        rw [recvCalls, hend]
        refine ⟨fun callEnd hmem => ?_, rfl⟩
        rw [List.mem_singleton.1 hmem]
        exact Option.some_ne_none _
      · rw [hfetch] at hcall
        obtain ⟨state', outBuf', hend, hholds, -⟩ := hcall
        have hnil : Delivers [] [] := rfl
        obtain ⟨hsome, hlines⟩ := ih hholds hnil List.not_mem_nil hended'
        rw [recvCalls_returned hend]
        constructor
        · intro callEnd hmem
          rcases List.mem_cons.1 hmem with rfl | hmem
          · exact Option.some_ne_none _
          · exact hsome _ hmem
        · rw [linesOf, List.filterMap_cons_none]
          · exact hlines.trans List.take_nil
          · cases received with
            | line line => exact absurd rfl (hnoLine line)
            | closed | failed => rfl

/-- Whatever the fragments, the calls return the pieces of the stream in order.  No byte is
lost or doubled, but for a tail that is no piece, and no access is outside of the arrays. -/
theorem recvCalls_cut (inBuf : CArray socketBufsize) (outBufs : List (CArray socketBufsize))
    {events ended : List RecvEvent} {stream : List UInt8} (hev : Delivers events stream)
    (hnul : 0 ∉ stream) (hended : NoData ended) :
    (∀ callEnd ∈ recvCalls outBufs ⟨inBuf, none⟩ (events ++ ended), callEnd ≠ none) ∧
      linesOf (recvCalls outBufs ⟨inBuf, none⟩ (events ++ ended)) =
        (cut newline pieceSize [] stream).1.take outBufs.length ∧
      (cut newline pieceSize [] stream).1.flatten ++ (cut newline pieceSize [] stream).2 =
        stream ∧
      (cut newline pieceSize [] stream).2.length < pieceSize ∧
      newline ∉ (cut newline pieceSize [] stream).2 := by
  have hholds : RecvState.Holds ⟨inBuf, none⟩ {} := ⟨rfl, fun h => absurd rfl h⟩
  obtain ⟨hsome, hlines⟩ := recvCalls_pending outBufs hholds hev hnul hended
  exact ⟨hsome, hlines, cut_flatten [] stream, cut_snd (by decide) List.not_mem_nil⟩

/-- Two receives of one line each way. -/
theorem recvCalls_cut_twoFragments :
    linesOf (recvCalls (List.replicate 2 (.replicate socketBufsize 1))
        ⟨.replicate socketBufsize 1, none⟩
        ([.data ⟨ascii "a\nb", by decide, by decide⟩, .interrupted,
          .data ⟨ascii "c\nd", by decide, by decide⟩] ++ [.closed])) =
      [ascii "a\n", ascii "bc\n"] := by
  have hev : Delivers [.data ⟨ascii "a\nb", by decide, by decide⟩, .interrupted,
      .data ⟨ascii "c\nd", by decide, by decide⟩] (ascii "a\nbc\nd") :=
    ⟨ascii "c\nd", rfl, [], rfl, rfl⟩
  have hended : NoData [.closed] := by
    intro event hmem fragment
    rw [List.mem_singleton.1 hmem]
    simp
  exact (recvCalls_cut _ _ hev (by decide) hended).2.1

end DbRelay
