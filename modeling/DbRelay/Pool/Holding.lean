import DbRelay.Pool.System

/-!
# What a request holds

A request names its slot by an index, and `in_use` counts the requests that
hold the slot.  `Consistent` says what should follow: a held slot is occupied
by the connection that the request acquired, its record matches the request,
and `in_use` is at least the number of its holders.

The operations of the table keep this only while no slot is freed under a
request that holds it.  The idle rule of the reaper looks at `in_use` before
it frees a slot.  The other three places that free one do not: the hard
timeout, the cleanup after a failed connect, and the kill command.
`undisturbed` is the guard on one step that excludes these cases, and two
more: `tmpnam` fails, so that the slot handed out is not marked as taken, and
`in_use` wraps.

`consistent_of_undisturbed` is the run lemma: `Consistent` holds in every
state of a run whose steps are all undisturbed.
-/

namespace DbRelay.Pool

open Function StepSystem

variable {W : Type}

/-! ## The invariant -/

/-- The slot is still occupied by the connection that was acquired. -/
def Occupied (s : State W) (held : Held) : Prop :=
  (s.connections held.slot).pid ≠ none ∧ s.serials held.slot = held.serial

/-- Worker `w` serves the request and holds the slot. -/
def Holding (s : State W) (w : W) (request : Request) (held : Held) : Prop :=
  (s.workers w).request = some request ∧ (s.workers w).held = some held

/-- What holds of a slot while worker `w` holds it for the request. -/
structure Backed (s : State W) (w : W) (request : Request) (held : Held) :
    Prop where
  occupied : Occupied s held
  key : dbMatch (s.connections held.slot) request = true
  owner : request.named = false → (s.connections held.slot).pid = some w

theorem holds_iff {phase : Phase W} {i : Slot} :
    phase.holds i = true ↔ ∃ held, phase.held = some held ∧ held.slot = i := by
  rw [Phase.holds]
  cases phase.held <;> simp

/-- A phase that holds a slot serves a request. -/
theorem exists_holding {s : State W} {w : W} {held : Held}
    (h : (s.workers w).held = some held) : ∃ request, Holding s w request held := by
  have hrequest : ∀ phase : Phase W, phase.held = some held →
      ∃ request, phase.request = some request := by
    intro phase
    cases phase <;> simp [Phase.held, Phase.request]
  obtain ⟨request, hr⟩ := hrequest _ h
  exact ⟨request, hr, h⟩

variable [Fintype W]

/-- The number of requests that hold slot `i`. -/
def holders (s : State W) (i : Slot) : Nat :=
  countOf s.workers (Phase.holds i)

structure Consistent (s : State W) : Prop where
  backed : ∀ w request held, Holding s w request held → Backed s w request held
  counted : ∀ i, (s.connections i).pid ≠ none →
    holders s i ≤ (s.connections i).inUse.toNat
  copied : ∀ w request held conn, Holding s w request held →
    (s.workers w).copied = some conn →
      dbMatch conn request = true ∧
        conn.sockPath = (s.connections held.slot).sockPath

/-- A free slot is held by nobody. -/
theorem Consistent.free_of_pid {s : State W} (hs : Consistent s) {i : Slot}
    (hi : (s.connections i).pid = none) (w : W) : (s.workers w).holds i = false := by
  by_contra hholds
  obtain ⟨held, hheld, rfl⟩ := holds_iff.1 (by simpa using hholds)
  obtain ⟨request, hholding⟩ := exists_holding hheld
  exact (hs.backed w request held hholding).occupied.1 hi

/-- The only holder of an unnamed slot is the worker that allocated it. -/
theorem Consistent.owner_of_unnamed {s : State W} (hs : Consistent s) {w v : W}
    {request : Request} {held : Held} (hw : Holding s w request held)
    (hunnamed : (s.connections held.slot).connectionName.isSet = false)
    (hv : (s.workers v).holds held.slot = true) : v = w := by
  have hown : ∀ u r h, Holding s u r h → h.slot = held.slot →
      (s.connections held.slot).pid = some u := by
    intro u r h hu hslot
    have hbacked := hs.backed u r h hu
    rw [← hslot]
    refine hbacked.owner ?_
    rw [← named_of_dbMatch hbacked.key, hslot]
    exact hunnamed
  obtain ⟨held', hheld', hslot⟩ := holds_iff.1 hv
  obtain ⟨request', hv'⟩ := exists_holding hheld'
  have h := (hown v request' held' hv' hslot).symm.trans (hown w request held hw rfl)
  exact Option.some.inj h

variable [DecidableEq W]

/-! ## The guard -/

/-- The largest `unsigned int`. -/
def maxInUse : UInt32 := 0xFFFFFFFF

/-- The step frees no slot that another request holds, takes a slot only when
it can mark it as taken, and does not wrap `in_use`. -/
def undisturbed (s : State W) : Event W → Bool
  | .find w =>
    match s.workers w with
    | .getConnection request =>
      match dbFindSlot s.connections request with
      | some i => decide ((s.connections i).inUse ≠ maxInUse)
      | none => true
    | _ => true
  | .alloc w tmpnam =>
    match s.workers w with
    | .allocate request _ =>
      !request.named || decide (newSockPath request tmpnam ≠ some none)
    | _ => true
  | .reap w =>
    match s.workers w with
    | .reap _ _ now =>
      decide (∀ v, ∀ held, (s.workers v).held = some held →
        hardExpired (s.connections held.slot) now = false)
    | _ => true
  | .cleanup w =>
    match s.workers w with
    | .cleanup _ held => decide (∀ v, v ≠ w → (s.workers v).holds held.slot = false)
    | _ => true
  | .adminClose w =>
    match s.workers w with
    | .adminClose i => decide (∀ v, (s.workers v).holds i = false)
    | _ => true
  | _ => true

/-- A step that does not mark the slot as taken is disturbed. -/
theorem not_undisturbed_alloc {s : State W} {w : W} {tmpnam : Option SockPath}
    {request : Request} {db : Option Handle} (hphase : s.workers w = .allocate request db)
    (hnamed : request.named = true) (hpath : newSockPath request tmpnam = some none) :
    undisturbed s (.alloc w tmpnam) ≠ true := by
  rw [undisturbed, hphase]
  simp only [hnamed, hpath]
  decide

/-! ## One step -/

/-- The frame rule.  Worker `w` moves to a new phase, and every slot that
another worker holds stays the same connection. -/
theorem Consistent.of_frame {s s' : State W} (hs : Consistent s) (w : W)
    {phase' : Phase W} (hworkers : s'.workers = update s.workers w phase')
    (hkeep : ∀ v, v ≠ w → ∀ held, (s.workers v).held = some held →
      Keeps (s.connections held.slot) (s'.connections held.slot) ∧
        s'.serials held.slot = s.serials held.slot)
    (hself : ∀ request held, phase'.request = some request →
      phase'.held = some held → Backed s' w request held)
    (hcopied : ∀ request held conn, phase'.request = some request →
      phase'.held = some held → phase'.copied = some conn →
        dbMatch conn request = true ∧
          conn.sockPath = (s'.connections held.slot).sockPath)
    (hcount : ∀ i, (s'.connections i).pid ≠ none →
      holders s' i ≤ (s'.connections i).inUse.toNat) : Consistent s' := by
  have hphase : ∀ v, v ≠ w → s'.workers v = s.workers v := fun v hv => by
    rw [hworkers, update_of_ne hv]
  have hphasew : s'.workers w = phase' := by rw [hworkers, update_self]
  refine ⟨fun v request held hv => ?_, hcount, fun v request held conn hv hc => ?_⟩
  · by_cases hvw : v = w
    · subst hvw
      rw [Holding, hphasew] at hv
      exact hself request held hv.1 hv.2
    · rw [Holding, hphase v hvw] at hv
      obtain ⟨hk, hserial⟩ := hkeep v hvw held hv.2
      have hb := hs.backed v request held hv
      refine ⟨⟨?_, ?_⟩, ?_, ?_⟩
      · rw [hk.pid]
        exact hb.occupied.1
      · rw [hserial]
        exact hb.occupied.2
      · rw [hk.key]
        exact hb.key
      · rw [hk.pid]
        exact hb.owner
  · by_cases hvw : v = w
    · subst hvw
      rw [Holding, hphasew] at hv
      rw [hphasew] at hc
      exact hcopied request held conn hv.1 hv.2 hc
    · rw [Holding, hphase v hvw] at hv
      rw [hphase v hvw] at hc
      obtain ⟨hk, -⟩ := hkeep v hvw held hv.2
      rw [hk.sockPath]
      exact hs.copied v request held conn hv hc

/-- A phase change of one worker, with the table as it was. -/
theorem Consistent.move {s : State W} (hs : Consistent s) (w : W)
    {phase' : Phase W}
    (hheld : phase'.held = none ∨
      phase'.held = (s.workers w).held ∧ phase'.request = (s.workers w).request)
    (hcopied : phase'.copied = none ∨
      phase'.copied = (s.workers w).copied ∧ phase'.held = (s.workers w).held ∧
        phase'.request = (s.workers w).request) :
    Consistent (s.setPhase w phase') := by
  refine hs.of_frame w rfl (fun v _ held _ => ⟨Keeps.refl _, rfl⟩) ?_ ?_ ?_
  · intro request held hr hh
    rcases hheld with hnone | ⟨heq, hrequest⟩
    · rw [hnone] at hh
      cases hh
    · have hb := hs.backed w request held ⟨hrequest ▸ hr, heq ▸ hh⟩
      exact ⟨hb.occupied, hb.key, hb.owner⟩
  · intro request held conn hr hh hc
    rcases hcopied with hnone | ⟨hconn, heq, hrequest⟩
    · rw [hnone] at hc
      cases hc
    · exact hs.copied w request held conn ⟨hrequest ▸ hr, heq ▸ hh⟩ (hconn ▸ hc)
  · intro i hi
    refine le_trans (countOf_update_le _ _ _ _ ?_) (hs.counted i hi)
    intro hholds
    obtain ⟨held, hh, hslot⟩ := holds_iff.1 hholds
    rcases hheld with hnone | ⟨heq, -⟩
    · rw [hnone] at hh
      cases hh
    · exact holds_iff.2 ⟨held, heq ▸ hh, hslot⟩

omit [DecidableEq W] in
/-- Writing back a record that keeps the connection and its `in_use`. -/
theorem Consistent.setConnection {s : State W} (hs : Consistent s) (i : Slot)
    {conn : Connection W} (hkeep : Keeps (s.connections i) conn)
    (hinUse : conn.inUse = (s.connections i).inUse) :
    Consistent (s.setConnection i conn) := by
  have hall : ∀ j, Keeps (s.connections j) (update s.connections i conn j) ∧
      (update s.connections i conn j).inUse = (s.connections j).inUse := by
    intro j
    by_cases hj : j = i
    · subst hj
      rw [update_self]
      exact ⟨hkeep, hinUse⟩
    · rw [update_of_ne hj]
      exact ⟨Keeps.refl _, rfl⟩
  refine ⟨fun w request held hw => ?_, fun j hj => ?_, fun w request held c hw hc => ?_⟩
  · have hb := hs.backed w request held hw
    have hk := (hall held.slot).1
    exact ⟨⟨by rw [State.setConnection, hk.pid]; exact hb.occupied.1, hb.occupied.2⟩,
      by rw [State.setConnection, hk.key]; exact hb.key,
      by rw [State.setConnection, hk.pid]; exact hb.owner⟩
  · rw [State.setConnection, (hall j).2]
    rw [State.setConnection, (hall j).1.pid] at hj
    exact hs.counted j hj
  · rw [State.setConnection, (hall held.slot).1.sockPath]
    exact hs.copied w request held c hw hc

/-- `dbrelay_db_find_connection` adds a holder and counts it. -/
theorem Consistent.find {s : State W} (hs : Consistent s) (w : W)
    {request : Request} {i : Slot}
    (hphase : s.workers w = .getConnection request) (hnamed : request.named = true)
    (hfind : dbFindSlot s.connections request = some i)
    (hinUse : (s.connections i).inUse ≠ maxInUse) :
    Consistent
      ((s.setConnection i (touchConnection (s.connections i) s.now)).setPhase w
        (.readClock request (some ⟨i, s.serials i⟩))) := by
  obtain ⟨hpid, hmatch⟩ := dbFindSlot_some hfind
  have hkeep : ∀ j, Keeps (s.connections j)
      (update s.connections i (touchConnection (s.connections i) s.now) j) := by
    intro j
    by_cases hj : j = i
    · subst hj
      rw [update_self]
      exact ⟨rfl, fun _ => rfl, rfl⟩
    · rw [update_of_ne hj]
      exact Keeps.refl _
  refine hs.of_frame w rfl (fun v _ held _ => ⟨hkeep held.slot, rfl⟩) ?_ ?_ ?_
  · rintro request' held' hr hh
    obtain rfl : request = request' := Option.some.inj hr
    obtain rfl : ⟨i, s.serials i⟩ = held' := Option.some.inj hh
    refine ⟨⟨?_, rfl⟩, ?_, fun h => ?_⟩
    · exact (hkeep i).pid ▸ hpid
    · exact ((hkeep i).key request).trans hmatch
    · rw [hnamed] at h
      cases h
  · intro _ _ _ _ _ hc
    cases hc
  · intro j hj
    have hmove := countOf_update s.workers (Phase.holds j) w
      (.readClock request (some ⟨i, s.serials i⟩))
    have hold : (s.workers w).holds j = false := by rw [hphase]; rfl
    rw [hold] at hmove
    by_cases hji : j = i
    · subst hji
      have hcount := hs.counted j hpid
      have hlt : (s.connections j).inUse.toNat + 1 < 2 ^ 32 := by
        have hle := (s.connections j).inUse.toNat_lt
        have hne : (s.connections j).inUse.toNat ≠ 2 ^ 32 - 1 := fun h =>
          hinUse (UInt32.toNat.inj h)
        omega
      have hnew : (update s.connections j
          (touchConnection (s.connections j) s.now) j).inUse.toNat =
          (s.connections j).inUse.toNat + 1 := by
        rw [update_self, touchConnection, UInt32.toNat_add]
        exact Nat.mod_eq_of_lt hlt
      simp only [holders, State.setPhase, State.setConnection] at hcount ⊢
      rw [hnew]
      have := Bool.toNat_le (Phase.holds j
        (.readClock request (some ⟨j, s.serials j⟩) : Phase W))
      omega
    · have hne : Phase.holds j
          (.readClock request (some ⟨i, s.serials i⟩) : Phase W) = false := by
        simp [Phase.holds, Phase.held, Ne.symm hji]
      rw [hne] at hmove
      simp only [State.setPhase, State.setConnection, update_of_ne hji] at hj ⊢
      have hcount := hs.counted j hj
      simp only [holders] at hcount ⊢
      simp only [Bool.toNat_false] at hmove
      omega

/-- A slot that nobody holds can be written freely. -/
theorem Consistent.of_unheld {s s' : State W} (hs : Consistent s) (i : Slot) (w : W)
    {phase' : Phase W} (hdrop : phase'.held = none)
    (hphase : s'.workers = update s.workers w phase')
    (hother : ∀ j, j ≠ i → s'.connections j = s.connections j)
    (hserials : s'.serials = s.serials)
    (hunheld : ∀ v, v ≠ w → (s.workers v).holds i = false) : Consistent s' := by
  have hholds : ∀ j, phase'.holds j = false := fun j => by rw [Phase.holds, hdrop]
  refine hs.of_frame w hphase (fun v hv held hheld => ⟨?_, by rw [hserials]⟩)
    (fun _ _ _ hh => by simp [hdrop] at hh) (fun _ _ _ _ hh => by simp [hdrop] at hh) ?_
  · have hne : held.slot ≠ i := by
      rintro rfl
      have := hunheld v hv
      rw [holds_iff.2 ⟨held, hheld, rfl⟩] at this
      cases this
    rw [hother _ hne]
    exact Keeps.refl _
  · intro j hj
    have hle : holders s' j ≤ holders s j := by
      rw [holders, hphase]
      exact countOf_update_le _ _ _ _ (by simp [hholds])
    by_cases hji : j = i
    · subst hji
      have hzero : holders s' j = 0 := by
        rw [holders, countOf, Finset.card_eq_zero, Finset.filter_eq_empty_iff]
        intro v _
        rw [hphase]
        by_cases hv : v = w
        · subst hv
          simp [update_self, hholds]
        · rw [update_of_ne hv, hunheld v hv]
          simp
      omega
    · rw [hother j hji] at hj ⊢
      exact hle.trans (hs.counted j hj)

/-- `dbrelay_db_alloc_connection` takes a free slot, which nobody holds, and
makes the worker its only holder. -/
theorem Consistent.alloc {s : State W} (hs : Consistent s) (w : W)
    {request : Request} {db : Option Handle} {path : Option SockPath} {i : Slot}
    (hphase : s.workers w = .allocate request db)
    (hfree : firstFree s.connections = some i)
    (hpath : request.named = true → path ≠ none) :
    Consistent ((s.populate w i request db path).setPhase w
      (.readClock (dbPopulateConnection request db path s.now w).1
        (some ⟨i, s.serials i + 1⟩))) := by
  have hpid := firstFree_some hfree
  obtain ⟨hpid', hinUse', -, -⟩ := dbPopulateConnection_taken request db path s.now w hpath
  have hne : ∀ v held, (s.workers v).held = some held → held.slot ≠ i := by
    rintro v held hheld rfl
    have := hs.free_of_pid hpid v
    rw [holds_iff.2 ⟨held, hheld, rfl⟩] at this
    cases this
  refine hs.of_frame w rfl (fun v _ held hheld => ?_) ?_ ?_ ?_
  · have hslot := hne v held hheld
    simp only [State.setPhase, State.populate, State.setConnection, update_of_ne hslot]
    exact ⟨Keeps.refl _, trivial⟩
  · rintro request' held' hr hh
    obtain rfl : (dbPopulateConnection request db path s.now w).1 = request' :=
      Option.some.inj hr
    obtain rfl : ⟨i, s.serials i + 1⟩ = held' := Option.some.inj hh
    have hmatch := dbMatch_populate request db path s.now w
    rw [← dbMatch_populate_request request db path s.now w] at hmatch
    refine ⟨⟨?_, ?_⟩, ?_, fun _ => ?_⟩
    · simp only [State.setPhase, State.populate, State.setConnection, update_self]
      rw [hpid']
      exact Option.some_ne_none w
    · simp only [State.setPhase, State.populate, update_self]
    · simp only [State.setPhase, State.populate, State.setConnection, update_self]
      exact hmatch
    · simp only [State.setPhase, State.populate, State.setConnection, update_self]
      exact hpid'
  · intro _ _ _ _ _ hc
    cases hc
  · intro j hj
    have hmove := countOf_update s.workers (Phase.holds j) w
      (.readClock (dbPopulateConnection request db path s.now w).1
        (some ⟨i, s.serials i + 1⟩))
    have hold : (s.workers w).holds j = false := by rw [hphase]; rfl
    rw [hold, Bool.toNat_false, Nat.add_zero] at hmove
    simp only [holders, State.setPhase, State.populate, State.setConnection] at hj ⊢
    rw [hmove]
    by_cases hji : j = i
    · subst hji
      have hzero : countOf s.workers (Phase.holds j) = 0 := by
        rw [countOf, Finset.card_eq_zero, Finset.filter_eq_empty_iff]
        intro v _
        rw [hs.free_of_pid hpid v]
        exact Bool.false_ne_true
      rw [update_self, hinUse', hzero, Nat.zero_add]
      exact Bool.toNat_le _
    · have hnot : Phase.holds j (.readClock
          (dbPopulateConnection request db path s.now w).1
          (some ⟨i, s.serials i + 1⟩) : Phase W) = false := by
        simp [Phase.holds, Phase.held, Ne.symm hji]
      rw [update_of_ne hji] at hj ⊢
      rw [hnot]
      exact hs.counted j hj

/-- The reaper leaves every held slot alone, as long as none of them has
passed the hard timeout. -/
theorem Consistent.reapConnection_held {s : State W} (hs : Consistent s) {now : Int}
    {v : W} {held : Held} (hheld : (s.workers v).held = some held)
    (hhard : hardExpired (s.connections held.slot) now = false) :
    reapConnection s.alive now (s.connections held.slot) =
      (s.connections held.slot, []) := by
  obtain ⟨request, hv⟩ := exists_holding hheld
  have hb := hs.backed v request held hv
  refine reapConnection_eq_self ?_ hhard ?_
  · cases hnamed : (s.connections held.slot).connectionName.isSet with
    | true =>
      rw [orphaned]
      split
      · rfl
      · rw [hnamed]
        rfl
    | false =>
      have halive : s.workers v ≠ .dead := by
        intro hdead
        rw [hdead] at hheld
        cases hheld
      rw [named_of_dbMatch hb.key] at hnamed
      rw [orphaned, hb.owner hnamed]
      simp [State.alive, halive]
  · intro hzero
    have hcount := hs.counted held.slot hb.occupied.1
    have hpos : 0 < holders s held.slot :=
      countOf_pos s.workers (Phase.holds held.slot) (holds_iff.2 ⟨held, hheld, rfl⟩)
    rw [hzero] at hcount
    exact absurd (lt_of_lt_of_le hpos hcount) (by decide)

/-- A reaping pass that finds no held slot past the hard timeout. -/
theorem Consistent.reapAll {s : State W} (hs : Consistent s) (w : W) {now : Int}
    (hhard : ∀ v held, (s.workers v).held = some held →
      hardExpired (s.connections held.slot) now = false) :
    Consistent (s.reapAll w now) := by
  have hsame : ∀ v request held, Holding s v request held →
      (s.reapAll w now).connections held.slot = s.connections held.slot := by
    intro v request held hv
    show (reapConnection s.alive now (s.connections held.slot)).1 = _
    rw [hs.reapConnection_held hv.2 (hhard v held hv.2)]
  refine ⟨fun v request held hv => ?_, fun i hi => ?_, fun v request held conn hv hc => ?_⟩
  · have hb := hs.backed v request held hv
    have heq := hsame v request held hv
    exact ⟨⟨by rw [heq]; exact hb.occupied.1, hb.occupied.2⟩,
      by rw [heq]; exact hb.key, by rw [heq]; exact hb.owner⟩
  · have heq : (s.reapAll w now).connections i = s.connections i := by
      show (reapConnection s.alive now (s.connections i)).1 = _
      rw [reapConnection_of_pid hi]
    rw [heq] at hi ⊢
    exact hs.counted i hi
  · rw [hsame v request held hv]
    exact hs.copied v request held conn hv hc

omit [DecidableEq W] in
/-- The clock is not part of the invariant. -/
theorem Consistent.tick {s : State W} (hs : Consistent s) (now : Int) :
    Consistent { s with now := now } :=
  ⟨fun w request held hw =>
    have hb := hs.backed w request held hw
    ⟨hb.occupied, hb.key, hb.owner⟩, hs.counted, hs.copied⟩

omit [DecidableEq W] in
/-- Neither are the processes and their handles. -/
theorem Consistent.logs {s : State W} (hs : Consistent s) (lives : W → Nat)
    (nextHandle : Handle) (opened closed : List (Handle × Process W)) :
    Consistent
      { s with
        lives := lives
        nextHandle := nextHandle
        opened := opened
        closed := closed } :=
  ⟨fun w request held hw =>
    have hb := hs.backed w request held hw
    ⟨hb.occupied, hb.key, hb.owner⟩, hs.counted, hs.copied⟩

/-- The record is copied into the request's own memory. -/
theorem Consistent.copy {s : State W} (hs : Consistent s) (w : W)
    {request : Request} {held : Held} {phase' : Phase W}
    (hphase : s.workers w = .copy request held)
    (hheld : phase'.held = some held) (hrequest : phase'.request = some request)
    (hcopied : phase'.copied =
      some { s.connections held.slot with slot := held.slot }) :
    Consistent (s.setPhase w phase') := by
  have hb := hs.backed w request held ⟨by rw [hphase]; rfl, by rw [hphase]; rfl⟩
  refine hs.of_frame w rfl (fun v _ held _ => ⟨Keeps.refl _, rfl⟩) ?_ ?_ ?_
  · intro request' held' hr hh
    obtain rfl := Option.some.inj (hrequest.symm.trans hr)
    obtain rfl := Option.some.inj (hheld.symm.trans hh)
    exact ⟨hb.occupied, hb.key, hb.owner⟩
  · intro request' held' conn hr hh hc
    obtain rfl := Option.some.inj (hrequest.symm.trans hr)
    obtain rfl := Option.some.inj (hheld.symm.trans hh)
    obtain rfl := Option.some.inj (hcopied.symm.trans hc)
    exact ⟨hb.key, rfl⟩
  · intro i hi
    refine le_trans (countOf_update_le _ _ _ _ fun _ => ?_) (hs.counted i hi)
    rename_i hholds
    obtain ⟨held', hh, hslot⟩ := holds_iff.1 hholds
    rw [hphase]
    exact holds_iff.2 ⟨held, rfl, by
      rw [← hslot, ← Option.some.inj (hheld.symm.trans hh)]⟩

/-- The final critical section of a named request: one holder less, and one
less in `in_use`. -/
theorem Consistent.release_named {s : State W} (hs : Consistent s) (w : W)
    {request : Request} {held : Held} {conn : Connection W}
    (hw : Holding s w request held) (hkeep : Keeps (s.connections held.slot) conn)
    (hinUse : conn.inUse = (s.connections held.slot).inUse - 1) :
    Consistent ((s.setConnection held.slot conn).setPhase w .idle) := by
  have hall : ∀ j, Keeps (s.connections j) (update s.connections held.slot conn j) := by
    intro j
    by_cases hj : j = held.slot
    · subst hj
      rw [update_self]
      exact hkeep
    · rw [update_of_ne hj]
      exact Keeps.refl _
  refine hs.of_frame w rfl (fun v _ held' _ => ⟨hall held'.slot, rfl⟩)
    (fun _ _ _ hh => by cases hh) (fun _ _ _ _ _ hc => by cases hc) ?_
  intro j hj
  have hmove := countOf_update s.workers (Phase.holds j) w .idle
  have hidle : Phase.holds j (.idle : Phase W) = false := rfl
  rw [hidle, Bool.toNat_false] at hmove
  rw [show ((s.setConnection held.slot conn).setPhase w .idle).connections j =
    update s.connections held.slot conn j from rfl] at hj ⊢
  rw [(hall j).pid] at hj
  have hcount := hs.counted j hj
  simp only [holders, State.setPhase, State.setConnection] at hcount ⊢
  by_cases hjs : j = held.slot
  · subst hjs
    have hholds : (s.workers w).holds held.slot = true :=
      holds_iff.2 ⟨held, hw.2, rfl⟩
    rw [hholds, Bool.toNat_true] at hmove
    have hpos := countOf_pos s.workers (Phase.holds held.slot) hholds
    rw [update_self, hinUse, UInt32.toNat_sub_of_le]
    · show _ ≤ _ - 1
      omega
    · rw [UInt32.le_iff_toNat_le]
      show 1 ≤ _
      omega
  · rw [update_of_ne hjs]
    omega

/-- The step lemma. -/
theorem consistent_step {s s' : State W} {e : Event W} (hs : Consistent s)
    (hguard : undisturbed s e = true) (h : step s e = some s') : Consistent s' := by
  cases stepRel_of_step h with
  | move w hcarries => exact hs.move w hcarries.held hcarries.copied
  | spawn w hphase => exact (hs.logs _ _ _ _).move w (.inl rfl) (.inl rfl)
  | tick seconds => exact hs.tick _
  | find w hphase hnamed hfind =>
    refine hs.find w hphase hnamed hfind ?_
    simpa [undisturbed, hphase, hfind] using hguard
  | openConnection w hphase hnamed =>
    exact (hs.logs _ _ _ _).move w (.inl rfl) (.inl rfl)
  | alloc w hphase hpath hfree =>
    refine hs.alloc w hphase hfree fun hnamed hnone => ?_
    rw [hnone] at hpath
    exact not_undisturbed_alloc hphase hnamed hpath hguard
  | exhausted w hphase hfree =>
    exact (hs.logs _ _ _ _).move w (.inl rfl) (.inl rfl)
  | reap w hphase hcarries =>
    refine (hs.reapAll w ?_).move w hcarries.held hcarries.copied
    simpa [undisturbed, hphase] using hguard
  | copy w hphase hheld hrequest hcopied hpending =>
    exact hs.copy w hphase hheld hrequest hcopied
  | cleanup w hphase =>
    refine hs.of_unheld _ w rfl rfl (fun j hj => update_of_ne hj _ _) rfl ?_
    simpa [undisturbed, hphase] using hguard
  | setHelper w hphase =>
    rename_i request held conn pid
    have hset : Consistent (s.setConnection held.slot
        { s.connections held.slot with helperPid := pid }) :=
      hs.setConnection _ ⟨rfl, fun _ => rfl, rfl⟩ rfl
    refine hset.move w (.inr ?_) (.inr ?_)
    · show _ = (s.workers w).held ∧ _ = (s.workers w).request
      rw [hphase]
      exact ⟨rfl, rfl⟩
    · show _ = (s.workers w).copied ∧ _ = (s.workers w).held ∧ _ = (s.workers w).request
      rw [hphase]
      exact ⟨rfl, rfl, rfl⟩
  | release w hphase =>
    rename_i request held
    have hw : Holding s w request held := ⟨by rw [hphase]; rfl, by rw [hphase]; rfl⟩
    cases hset : (s.connections held.slot).connectionName.isSet with
    | true =>
      obtain ⟨hkeep, hinUse⟩ := dbFreeConnection_named hset s.now
      exact (hs.release_named w hw hkeep hinUse).logs _ _ _ _
    | false =>
      refine hs.of_unheld held.slot w rfl rfl (fun j hj => update_of_ne hj _ _) rfl ?_
      intro v hv
      by_contra hholds
      exact hv (hs.owner_of_unnamed hw hset (by simpa using hholds))
  | adminClose w hphase =>
    refine hs.of_unheld _ w rfl rfl (fun j hj => update_of_ne hj _ _) rfl fun v _ => ?_
    have := hguard
    simp only [undisturbed, hphase, decide_eq_true_eq] at this
    exact this v

omit [DecidableEq W] in
theorem consistent_initial (now : Int) : Consistent (initial now : State W) := by
  refine ⟨fun w request held hw => ?_, fun i hi => ?_, fun w request held conn hw _ => ?_⟩
  · cases hw.2
  · exact absurd rfl hi
  · cases hw.2

/-- The run lemma. -/
theorem consistent_of_undisturbed (now : Int) {es : List (Event W)}
    (h : AllSteps step (fun s e => undisturbed s e = true) (initial now) es) :
    AllStates step Consistent (initial now) es :=
  allStates_of_step (fun _ _ _ hs hguard hstep => consistent_step hs hguard hstep)
    (consistent_initial now) h

end DbRelay.Pool
