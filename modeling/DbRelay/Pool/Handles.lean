import DbRelay.Pool.Isolation

/-!
# Who closes a database handle

An unnamed request opens a database handle in its own process and stores the
pointer in the shared table, where every process can see it.  `ClosedByOpener`
says that a handle is closed at most once, and by the process that opened it.

The proof follows a handle through its life.  It is with the worker that opened
it, then in one occupied slot, then closed, and never in two of these places.
`Tracked` is that invariant.  `ownHandles` is the guard on a step that it needs
besides `undisturbed`: no reaping pass closes the slot of a live worker, and no
kill command closes a slot with a handle.
-/

namespace DbRelay.Pool

open Function StepSystem

variable {W : Type}

/-! ## The property and the invariant -/

/-- A handle is closed at most once, and by the process that opened it. -/
def ClosedByOpener (s : State W) : Prop :=
  (∀ p ∈ s.closed, p ∈ s.opened) ∧ (s.closed.map Prod.fst).Nodup

/-- The handle at a place: with a worker, or in an occupied slot.  The `db`
that stays behind in a free slot does not count. -/
def handleAt (s : State W) : W ⊕ Slot → Option Handle
  | .inl w => (s.workers w).pending
  | .inr i => if (s.connections i).pid.isSome then (s.connections i).db else none

structure Tracked (s : State W) : Prop where
  fresh : ∀ p ∈ s.opened, p.1 < s.nextHandle
  closed : ∀ p ∈ s.closed, p ∈ s.opened
  once : (s.closed.map Prod.fst).Nodup
  live : ∀ l db, handleAt s l = some db →
    db < s.nextHandle ∧ db ∉ s.closed.map Prod.fst
  single : ∀ l l' db, handleAt s l = some db → handleAt s l' = some db → l = l'
  pending : ∀ w db, handleAt s (.inl w) = some db → (db, s.process w) ∈ s.opened
  unnamed : ∀ i db, handleAt s (.inr i) = some db →
    (s.connections i).connectionName.isSet = false ∧ (s.connections i).inUse ≠ 0
  holder : ∀ w request held db, Holding s w request held → request.named = false →
    handleAt s (.inr held.slot) = some db → (db, s.process w) ∈ s.opened

theorem Tracked.closedByOpener {s : State W} (hs : Tracked s) : ClosedByOpener s :=
  ⟨hs.closed, hs.once⟩

/-- A handle in a slot is in an occupied slot. -/
theorem handleAt_slot {s : State W} {i : Slot} {db : Handle} :
    handleAt s (.inr i) = some db ↔
      (s.connections i).pid ≠ none ∧ (s.connections i).db = some db := by
  simp only [handleAt, Option.ite_none_right_eq_some, Option.isSome_iff_ne_none]

/-- The frame rule.  No handle is opened, closed or moved, and no unnamed
request gets a slot. -/
theorem Tracked.of_frame {s s' : State W} (hs : Tracked s)
    (hopened : s'.opened = s.opened) (hclosed : s'.closed = s.closed)
    (hnext : s'.nextHandle = s.nextHandle)
    (hprocess : ∀ w, s'.process w = s.process w ∨ s'.workers w = .idle)
    (hhandle : ∀ l db, handleAt s' l = some db → handleAt s l = some db)
    (hslot : ∀ i db, handleAt s' (.inr i) = some db →
      (s'.connections i).connectionName = (s.connections i).connectionName ∧
        ((s.connections i).inUse ≠ 0 → (s'.connections i).inUse ≠ 0))
    (hholding : ∀ w request held, Holding s' w request held →
      request.named = false → Holding s w request held) : Tracked s' := by
  refine ⟨?_, ?_, ?_, ?_, ?_, ?_, ?_, ?_⟩
  · rw [hopened, hnext]
    exact hs.fresh
  · rw [hopened, hclosed]
    exact hs.closed
  · rw [hclosed]
    exact hs.once
  · intro l db hl
    rw [hclosed, hnext]
    exact hs.live l db (hhandle l db hl)
  · intro l l' db hl hl'
    exact hs.single l l' db (hhandle l db hl) (hhandle l' db hl')
  · intro w db hw
    rw [hopened]
    rcases hprocess w with heq | hidle
    · rw [heq]
      exact hs.pending w db (hhandle _ db hw)
    · simp [handleAt, hidle, Phase.pending] at hw
  · intro i db hi
    obtain ⟨hname, hinUse⟩ := hslot i db hi
    obtain ⟨hset, hne⟩ := hs.unnamed i db (hhandle _ db hi)
    rw [hname]
    exact ⟨hset, hinUse hne⟩
  · intro w request held db hw hnamed hdb
    rw [hopened]
    rcases hprocess w with heq | hidle
    · rw [heq]
      exact hs.holder w request held db (hholding w request held hw hnamed) hnamed
        (hhandle _ db hdb)
    · have hheld := hw.2
      rw [hidle] at hheld
      cases hheld

theorem logClosed_nil (s : State W) (w : W) : s.logClosed w [] = s := by
  unfold State.logClosed
  rw [List.map_nil, List.append_nil]

/-- A handle that is nowhere any more is closed by the process that opened
it. -/
theorem Tracked.close {s : State W} (hs : Tracked s) (w : W) {db : Handle}
    (hopened : (db, s.process w) ∈ s.opened)
    (hclosed : db ∉ s.closed.map Prod.fst)
    (hgone : ∀ l, handleAt s l ≠ some db) : Tracked (s.logClosed w [db]) := by
  refine ⟨hs.fresh, ?_, ?_, ?_, hs.single, hs.pending, hs.unnamed, hs.holder⟩
  · intro p hp
    rcases List.mem_append.1 hp with hp | hp
    · exact hs.closed p hp
    · rw [List.mem_singleton.1 hp]
      exact hopened
  · simp only [State.logClosed, List.map_append, List.map_cons, List.map_nil]
    rw [List.nodup_append]
    refine ⟨hs.once, List.nodup_singleton db, ?_⟩
    rintro a ha b hb rfl
    rw [List.mem_singleton.1 hb] at ha
    exact hclosed ha
  · intro l db' hl
    obtain ⟨hlt, hnot⟩ := hs.live l db' hl
    refine ⟨hlt, ?_⟩
    simp only [State.logClosed, List.map_append, List.mem_append, List.map_cons,
      List.map_nil, List.mem_singleton, not_or]
    refine ⟨hnot, ?_⟩
    rintro rfl
    exact hgone l hl

variable [DecidableEq W]

/-! ## The guard -/

/-- The step does not close the handle of another process. -/
def ownHandles (s : State W) : Event W → Bool
  | .reap w =>
    match s.workers w with
    | .reap _ _ now =>
      decide (∀ i, (s.connections i).pid ≠ none → (s.connections i).db ≠ none →
        orphaned s.alive (s.connections i) = false →
          hardExpired (s.connections i) now = false)
    | _ => true
  | .adminClose w =>
    match s.workers w with
    | .adminClose i => decide ((s.connections i).db = none)
    | _ => true
  | _ => true

/-! ## One step -/

/-- When worker `w` moves on without a handle, and the table gets none, every
handle stays where it was or is gone. -/
theorem handleAt_of_table {s s' : State W} (w : W) {phase' : Phase W}
    (hworkers : s'.workers = update s.workers w phase')
    (hpending : phase'.pending = none)
    (htable : ∀ i db, handleAt s' (.inr i) = some db → handleAt s (.inr i) = some db)
    (l : W ⊕ Slot) (db : Handle) (h : handleAt s' l = some db) :
    handleAt s l = some db := by
  cases l with
  | inl v =>
    by_cases hv : v = w
    · simp only [handleAt, hv, hworkers, update_self, hpending] at h
      cases h
    · simpa only [handleAt, hworkers, update_of_ne hv] using h
  | inr i => exact htable i db h

/-- Worker `w` moves on.  Every handle in the new table was in the same slot
before. -/
theorem Tracked.of_table {s s' : State W} (hs : Tracked s) (w : W)
    {phase' : Phase W} (hworkers : s'.workers = update s.workers w phase')
    (hopened : s'.opened = s.opened) (hclosed : s'.closed = s.closed)
    (hnext : s'.nextHandle = s.nextHandle)
    (hprocess : s'.lives = s.lives ∨
      phase' = .idle ∧ ∀ v, v ≠ w → s'.lives v = s.lives v)
    (hpending : phase'.pending = none)
    (hheld : ∀ request held, phase'.request = some request →
      phase'.held = some held → request.named = false → Holding s w request held)
    (htable : ∀ i db, handleAt s' (.inr i) = some db → handleAt s (.inr i) = some db ∧
      (s'.connections i).connectionName = (s.connections i).connectionName ∧
        ((s.connections i).inUse ≠ 0 → (s'.connections i).inUse ≠ 0)) :
    Tracked s' := by
  have hphase : ∀ v, v ≠ w → s'.workers v = s.workers v := fun v hv => by
    rw [hworkers, update_of_ne hv]
  have hphasew : s'.workers w = phase' := by rw [hworkers, update_self]
  have hhandle := handleAt_of_table w hworkers hpending fun i db hi => (htable i db hi).1
  refine hs.of_frame hopened hclosed hnext (fun v => ?_) hhandle
    (fun i db hi => (htable i db hi).2) (fun v request held hv hnamed => ?_)
  · rcases hprocess with hlives | ⟨hidle, hlives⟩
    · left
      rw [State.process, hlives, State.process]
    · by_cases hv : v = w
      · right
        rw [hv, hphasew, hidle]
      · left
        rw [State.process, hlives v hv, State.process]
  · by_cases hvw : v = w
    · subst hvw
      rw [Holding, hphasew] at hv
      exact hheld request held hv.1 hv.2 hnamed
    · rw [Holding, hphase v hvw] at hv
      exact hv

/-- Writing back a record changes no other slot. -/
theorem handleAt_setConnection_of_ne (s : State W) (w : W) {i j : Slot} (h : i ≠ j)
    (conn : Connection W) (phase : Phase W) :
    handleAt ((s.setConnection j conn).setPhase w phase) (.inr i) =
      handleAt s (.inr i) := by
  simp only [handleAt, State.setPhase, State.setConnection, update_of_ne h]

/-- Worker `w` writes back a record and moves on.  A slot with a handle keeps
it and stays in use, or is freed. -/
theorem Tracked.setConnection {s : State W} (hs : Tracked s) (w : W) (j : Slot)
    {conn : Connection W} {phase' : Phase W} (hpending : phase'.pending = none)
    (hheld : ∀ request held, phase'.request = some request →
      phase'.held = some held → request.named = false → Holding s w request held)
    (hconn : ∀ db, conn.pid ≠ none → conn.db = some db →
      handleAt s (.inr j) = some db ∧
        conn.connectionName = (s.connections j).connectionName ∧
        ((s.connections j).inUse ≠ 0 → conn.inUse ≠ 0)) :
    Tracked ((s.setConnection j conn).setPhase w phase') := by
  refine hs.of_table w rfl rfl rfl rfl (.inl rfl) hpending hheld fun i db hi => ?_
  by_cases hij : i = j
  · subst hij
    obtain ⟨hpid, hdb⟩ := handleAt_slot.1 hi
    simp only [State.setPhase, State.setConnection, update_self] at hpid hdb ⊢
    exact hconn db hpid hdb
  · rw [handleAt_setConnection_of_ne s w hij] at hi
    have hother : ((s.setConnection j conn).setPhase w phase').connections i =
        s.connections i := update_of_ne hij _ _
    rw [hother]
    exact ⟨hi, rfl, id⟩

/-- `api->connect` returns a handle that no process had before. -/
theorem Tracked.openConnection {s : State W} (hs : Tracked s) (w : W)
    {request : Request} :
    Tracked ((s.logOpened w).setPhase w (.allocate request (some s.nextHandle))) := by
  obtain ⟨s', hs'⟩ : ∃ s', s' =
      (s.logOpened w).setPhase w (.allocate request (some s.nextHandle)) := ⟨_, rfl⟩
  have hopened : s'.opened = s.opened ++ [(s.nextHandle, s.process w)] := by rw [hs']; rfl
  have hself : handleAt s' (.inl w) = some s.nextHandle := by
    simp only [hs', handleAt, State.setPhase_self]
    rfl
  have hold : ∀ l, l ≠ .inl w → handleAt s' l = handleAt s l := by
    intro l hl
    cases l with
    | inl v =>
      have hv : v ≠ w := fun hv => hl (by rw [hv])
      simp only [hs', handleAt, State.setPhase_of_ne _ hv]
      rfl
    | inr i =>
      rw [hs']
      rfl
  -- The new handle is above all others, so it is at no other place.
  have hnew : ∀ l, handleAt s' l = some s.nextHandle → l = .inl w := by
    intro l hl
    by_contra hne
    rw [hold l hne] at hl
    exact absurd (hs.live l _ hl).1 (lt_irrefl _)
  rw [← hs']
  have hclosed : s'.closed = s.closed := by rw [hs']; rfl
  have hnext : s'.nextHandle = s.nextHandle + 1 := by rw [hs']; rfl
  have hprocess : ∀ v, s'.process v = s.process v := fun v => by rw [hs']; rfl
  refine ⟨?_, ?_, ?_, ?_, ?_, ?_, ?_, ?_⟩
  · intro p hp
    rw [hopened] at hp
    rw [hnext]
    rcases List.mem_append.1 hp with hp | hp
    · exact Nat.lt_succ_of_lt (hs.fresh p hp)
    · rw [List.mem_singleton.1 hp]
      exact Nat.lt_succ_self _
  · intro p hp
    rw [hclosed] at hp
    rw [hopened]
    exact List.mem_append_left _ (hs.closed p hp)
  · rw [hclosed]
    exact hs.once
  · intro l db hl
    rw [hclosed, hnext]
    by_cases hlw : l = .inl w
    · rw [hlw, hself] at hl
      obtain rfl := Option.some.inj hl
      refine ⟨Nat.lt_succ_self _, fun hmem => ?_⟩
      obtain ⟨p, hp, hdb⟩ := List.mem_map.1 hmem
      exact absurd hdb (hs.fresh p (hs.closed p hp)).ne
    · rw [hold l hlw] at hl
      obtain ⟨hlt, hnot⟩ := hs.live l db hl
      exact ⟨Nat.lt_succ_of_lt hlt, hnot⟩
  · intro l l' db hl hl'
    by_cases hlw : l = .inl w
    · rw [hlw, hself] at hl
      obtain rfl := Option.some.inj hl
      rw [hlw, hnew l' hl']
    · by_cases hlw' : l' = .inl w
      · rw [hlw', hself] at hl'
        obtain rfl := Option.some.inj hl'
        rw [hlw', hnew l hl]
      · rw [hold l hlw] at hl
        rw [hold l' hlw'] at hl'
        exact hs.single l l' db hl hl'
  · intro v db hv
    rw [hopened, hprocess]
    by_cases hvw : v = w
    · rw [hvw, hself] at hv
      obtain rfl := Option.some.inj hv
      rw [hvw]
      simp
    · rw [hold _ (by simpa using hvw)] at hv
      exact List.mem_append_left _ (hs.pending v db hv)
  · intro i db hi
    rw [hold _ (by simp)] at hi
    have := hs.unnamed i db hi
    rw [hs']
    exact this
  · intro v request' held db hv hnamed hdb
    rw [hopened, hprocess]
    rw [hold _ (by simp)] at hdb
    refine List.mem_append_left _ (hs.holder v request' held db ?_ hnamed hdb)
    by_cases hvw : v = w
    · have hheld := hv.2
      rw [hvw, hs', State.setPhase_self] at hheld
      cases hheld
    · rw [Holding, hs', State.setPhase_of_ne _ hvw] at hv
      exact hv

/-- The handle moves from the worker into the slot that it takes, and no other one moves. -/
theorem handleAt_alloc {s s' : State W} {w : W} {request conn : Request} {db : Option Handle}
    {path : Option SockPath} {i : Slot} {held : Held} (hphase : s.workers w = .allocate request db)
    (hpath : request.named = true → path ≠ none)
    (hs' : s' = (s.populate w i request db path).setPhase w (.readClock conn (some held))) :
    handleAt s' (.inl w) = none ∧
      (∀ db', handleAt s' (.inr i) = some db' →
        request.named = false ∧ handleAt s (.inl w) = some db') ∧
      ∀ l, l ≠ .inl w → l ≠ .inr i → handleAt s' l = handleAt s l := by
  obtain ⟨-, -, hdb, -⟩ := dbPopulateConnection_taken request db path s.now w hpath
  have hslot : s'.connections i =
      { (dbPopulateConnection request db path s.now w).2 with slot := i } := by
    rw [hs']
    exact s.populate_self w i request db path
  refine ⟨?_, fun db' h => ?_, fun l hl hli => ?_⟩
  · simp only [handleAt, hs', State.setPhase_self]
    rfl
  · rw [handleAt_slot, hslot] at h
    have hdb' := hdb.symm.trans h.2
    cases hnamed : request.named with
    | true => simp [hnamed] at hdb'
    | false =>
      simp only [hnamed, Bool.false_eq_true, ↓reduceIte] at hdb'
      refine ⟨rfl, ?_⟩
      simp only [handleAt, hphase]
      exact hdb'
  · cases l with
    | inl v =>
      have hv : v ≠ w := fun hv => hl (by rw [hv])
      simp only [hs', handleAt, State.setPhase_of_ne _ hv]
      rfl
    | inr j =>
      have hj : j ≠ i := fun hj => hli (by rw [hj])
      simp only [hs', handleAt, State.setPhase, s.populate_of_ne w hj request db path]

/-- Every handle is still known where it is. -/
theorem Tracked.alloc {s : State W} (hs : Tracked s) (w : W)
    {request : Request} {db : Option Handle} {path : Option SockPath} {i : Slot}
    (hphase : s.workers w = .allocate request db)
    (hunheld : ∀ v, (s.workers v).holds i = false)
    (hpath : request.named = true → path ≠ none) :
    Tracked ((s.populate w i request db path).setPhase w
      (.readClock (dbPopulateConnection request db path s.now w).1
        (some ⟨i, s.serials i + 1⟩))) := by
  obtain ⟨s', hs'⟩ : ∃ s', s' = (s.populate w i request db path).setPhase w
      (.readClock (dbPopulateConnection request db path s.now w).1
        (some ⟨i, s.serials i + 1⟩)) := ⟨_, rfl⟩
  obtain ⟨-, hinUse, -, -⟩ := dbPopulateConnection_taken request db path s.now w hpath
  obtain ⟨hinlw, hnew, hold⟩ := handleAt_alloc hphase hpath hs'
  have hslot : s'.connections i =
      { (dbPopulateConnection request db path s.now w).2 with slot := i } := by
    rw [hs']
    exact s.populate_self w i request db path
  have hname : (s'.connections i).connectionName.isSet = request.named := by
    rw [hslot]
    exact named_of_dbMatch (dbMatch_populate request db path s.now w)
  have hworker : s'.workers w = .readClock (dbPopulateConnection request db path s.now w).1
      (some ⟨i, s.serials i + 1⟩) := by
    rw [hs', State.setPhase_self]
  -- The place where a handle was before the step.
  have hsource : ∀ l db', handleAt s' l = some db' → l ≠ .inl w ∧
      handleAt s (if l = .inr i then .inl w else l) = some db' := by
    intro l db' hl
    have hne : l ≠ .inl w := by
      rintro rfl
      rw [hinlw] at hl
      cases hl
    refine ⟨hne, ?_⟩
    by_cases hli : l = .inr i
    · rw [if_pos hli]
      rw [hli] at hl
      exact (hnew db' hl).2
    · rw [if_neg hli, ← hold l hne hli]
      exact hl
  rw [← hs']
  have hopened : s'.opened = s.opened := by rw [hs']; rfl
  have hclosed : s'.closed = s.closed := by rw [hs']; rfl
  have hnext : s'.nextHandle = s.nextHandle := by rw [hs']; rfl
  have hprocess : ∀ v, s'.process v = s.process v := fun v => by rw [hs']; rfl
  refine ⟨?_, ?_, ?_, ?_, ?_, ?_, ?_, ?_⟩
  · rw [hopened, hnext]
    exact hs.fresh
  · rw [hopened, hclosed]
    exact hs.closed
  · rw [hclosed]
    exact hs.once
  · intro l db' hl
    rw [hclosed, hnext]
    exact hs.live _ db' (hsource l db' hl).2
  · intro l l' db' hl hl'
    obtain ⟨hlw, hl⟩ := hsource l db' hl
    obtain ⟨hlw', hl'⟩ := hsource l' db' hl'
    have heq := hs.single _ _ db' hl hl'
    split_ifs at heq with h h'
    · rw [h, h']
    · exact absurd heq.symm hlw'
    · exact absurd heq hlw
    · exact heq
  · intro v db' hv
    obtain ⟨hvw, hv⟩ := hsource _ db' hv
    rw [hopened, hprocess]
    exact hs.pending v db' (by simpa using hv)
  · intro j db' hj
    by_cases hji : j = i
    · subst hji
      rw [hname, hslot]
      refine ⟨(hnew db' hj).1, ?_⟩
      show (dbPopulateConnection request db path s.now w).2.inUse ≠ 0
      rw [hinUse]
      decide
    · rw [hold _ (by simp) (by simpa using hji)] at hj
      have hother : s'.connections j = s.connections j := by
        rw [hs']
        exact s.populate_of_ne w hji request db path
      rw [hother]
      exact hs.unnamed j db' hj
  · intro v request' held db' hv hnamed hdb'
    rw [hopened, hprocess]
    by_cases hvw : v = w
    · subst hvw
      rw [Holding, hworker] at hv
      obtain rfl : (⟨i, s.serials i + 1⟩ : Held) = held := Option.some.inj hv.2
      exact hs.pending v db' (hnew db' hdb').2
    · rw [Holding, hs', State.setPhase_of_ne _ hvw] at hv
      have hheld : (s.workers v).held = some held := hv.2
      have hne : held.slot ≠ i := by
        rintro rfl
        have := hunheld v
        rw [holds_iff.2 ⟨held, hheld, rfl⟩] at this
        cases this
      rw [hold _ (by simp) (by simpa using hne)] at hdb'
      exact hs.holder v request' held db' hv hnamed hdb'

/-- A guarded reaping pass closes no handle. -/
theorem reapAll_closed {s : State W} (hs : Tracked s) (w : W) {now : Int}
    (hguard : ∀ i, (s.connections i).pid ≠ none → (s.connections i).db ≠ none →
      orphaned s.alive (s.connections i) = false →
        hardExpired (s.connections i) now = false) :
    (s.reapAll w now).closed = s.closed := by
  have hnone : ∀ i, (reapConnection s.alive now (s.connections i)).2 = [] := by
    intro i
    cases hpid : (s.connections i).pid with
    | none => simp [reapConnection, orphaned, hpid]
    | some v =>
      cases hdb : (s.connections i).db with
      | none => exact reapConnection_closes_none hdb
      | some db =>
        have hi : handleAt s (.inr i) = some db :=
          handleAt_slot.2 ⟨by rw [hpid]; exact Option.some_ne_none v, hdb⟩
        cases horphaned : orphaned s.alive (s.connections i) with
        | true => exact reapConnection_orphaned horphaned
        | false =>
          have hhard := hguard i (by simp [hpid]) (by simp [hdb]) horphaned
          rw [reapConnection_eq_self horphaned hhard (hs.unnamed i db hi).2]
  have hflat : ((List.finRange maxConn).flatMap fun i =>
      (reapConnection s.alive now (s.connections i)).2.map fun db =>
        (db, s.process w)) = [] :=
    List.flatMap_eq_nil_iff.2 fun i _ => by rw [hnone i, List.map_nil]
  rw [State.reapAll]
  simp only [hflat, List.append_nil]

/-- The opener of the handle in a slot frees the slot and closes the handle. -/
theorem Tracked.closeSlot {s : State W} (hs : Tracked s) (w : W) {i : Slot}
    {db : Handle} {conn : Connection W} (hfreed : conn.pid = none)
    (hold : handleAt s (.inr i) = some db) (hopened : (db, s.process w) ∈ s.opened) :
    Tracked (((s.setConnection i conn).logClosed w [db]).setPhase w .idle) := by
  have hs₁ : Tracked ((s.setConnection i conn).setPhase w .idle) :=
    hs.setConnection w i rfl (fun _ _ hr => by cases hr) fun _ hpid _ => absurd hfreed hpid
  have hfree : ∀ db', handleAt ((s.setConnection i conn).setPhase w .idle) (.inr i) ≠
      some db' := by
    intro db' h
    have hpid := (handleAt_slot.1 h).1
    simp only [State.setPhase, State.setConnection, update_self] at hpid
    exact hpid hfreed
  refine hs₁.close w hopened (hs.live _ db hold).2 fun l hl => ?_
  have hl' : handleAt s l = some db := by
    refine handleAt_of_table w rfl rfl (fun j db' hj => ?_) l db hl
    have hji : j ≠ i := fun hji => hfree db' (hji ▸ hj)
    rwa [handleAt_setConnection_of_ne s w hji] at hj
  rw [hs.single l _ db hl' hold] at hl
  exact hfree db hl

/-- The last step of a request closes its own handle, if it has one. -/
theorem Tracked.release {s : State W} (hs : Tracked s) (w : W) {request : Request}
    {held : Held} (hw : Holding s w request held)
    (hmatch : dbMatch (s.connections held.slot) request = true)
    (hpid : (s.connections held.slot).pid ≠ none) :
    Tracked (((s.setConnection held.slot (dbFreeConnection
      { s.connections held.slot with tmAccessed := s.now }).1).logClosed w
        (dbFreeConnection
          { s.connections held.slot with tmAccessed := s.now }).2).setPhase w .idle) := by
  cases hset : (s.connections held.slot).connectionName.isSet with
  | true =>
    have hfree : dbFreeConnection { s.connections held.slot with tmAccessed := s.now } =
        ({ s.connections held.slot with
            tmAccessed := s.now, inUse := (s.connections held.slot).inUse - 1 }, []) := by
      simp [dbFreeConnection, hset]
    rw [hfree, logClosed_nil]
    refine hs.setConnection w held.slot rfl (fun _ _ hr => by cases hr) fun db hpid hdb => ?_
    have hunset := (hs.unnamed _ db (handleAt_slot.2 ⟨hpid, hdb⟩)).1
    rw [hset] at hunset
    cases hunset
  | false =>
    obtain ⟨hfreed, hhandles⟩ := dbFreeConnection_unnamed hset s.now
    rw [hhandles]
    cases hdb : (s.connections held.slot).db with
    | none =>
      rw [Option.toList_none, logClosed_nil]
      exact hs.setConnection w held.slot rfl (fun _ _ hr => by cases hr)
        fun db h _ => absurd hfreed h
    | some db =>
      have hold : handleAt s (.inr held.slot) = some db := handleAt_slot.2 ⟨hpid, hdb⟩
      have hnamed : request.named = false := (named_of_dbMatch hmatch).symm.trans hset
      exact hs.closeSlot w hfreed hold (hs.holder w request held db hw hnamed hold)

variable [Fintype W]

/-- The step lemma. -/
theorem tracked_step {s s' : State W} {e : Event W} (hs : Tracked s) (hc : Consistent s)
    (hundisturbed : undisturbed s e = true) (hown : ownHandles s e = true)
    (h : step s e = some s') : Tracked s' := by
  have hsame : ∀ i db, handleAt s (.inr i) = some db → handleAt s (.inr i) = some db ∧
      (s.connections i).connectionName = (s.connections i).connectionName ∧
        ((s.connections i).inUse ≠ 0 → (s.connections i).inUse ≠ 0) :=
    fun i db hi => ⟨hi, rfl, id⟩
  have hcarry : ∀ {w : W} {phase' : Phase W}, (s.workers w).CarriesOn phase' →
      ∀ request held, phase'.request = some request → phase'.held = some held →
        request.named = false → Holding s w request held := by
    intro w phase' hcarries request held hr hh _
    rcases hcarries.held with hnone | ⟨hheld, hrequest⟩
    · rw [hnone] at hh
      cases hh
    · exact ⟨hrequest ▸ hr, hheld ▸ hh⟩
  cases stepRel_of_step h with
  | move w hcarries =>
    exact hs.of_table w rfl rfl rfl rfl (.inl rfl) hcarries.pending (hcarry hcarries) hsame
  | spawn w hphase =>
    exact hs.of_table w rfl rfl rfl rfl (.inr ⟨rfl, fun v hv => update_of_ne hv _ _⟩) rfl
      (fun _ _ hr => by cases hr) hsame
  | tick seconds =>
    exact hs.of_frame rfl rfl rfl (fun _ => .inl rfl) (fun l db hl => by cases l <;> exact hl)
      (fun i db hi => (hsame i db hi).2) (fun _ _ _ hw _ => hw)
  | find w hphase hnamed hfind =>
    obtain ⟨hpid, hmatch⟩ := dbFindSlot_some hfind
    refine hs.setConnection w _ rfl ?_ fun db hpid hdb => ?_
    · intro request held hr _ hunnamed
      obtain rfl := Option.some.inj hr
      rw [hnamed] at hunnamed
      cases hunnamed
    · have hunset := (hs.unnamed _ db (handleAt_slot.2 ⟨hpid, hdb⟩)).1
      rw [named_of_dbMatch hmatch, hnamed] at hunset
      cases hunset
  | openConnection w hphase hnamed => exact hs.openConnection w
  | alloc w hphase hpath hfree =>
    refine hs.alloc w hphase (hc.free_of_pid (firstFree_some hfree)) fun hnamed hnone => ?_
    rw [hnone] at hpath
    exact not_undisturbed_alloc hphase hnamed hpath hundisturbed
  | exhausted w hphase hfree =>
    rename_i tmpnam request db
    have hs₁ : Tracked (s.setPhase w (.readClock request none)) :=
      hs.of_table w rfl rfl rfl rfl (.inl rfl) rfl (fun _ _ _ hh => by cases hh) hsame
    cases db with
    | none =>
      rw [Option.toList_none, logClosed_nil]
      exact hs₁
    | some db =>
      have hold : handleAt s (.inl w) = some db := by
        simp only [handleAt, hphase]
        rfl
      refine hs₁.close w (hs.pending w db hold) (hs.live _ db hold).2 fun l hl => ?_
      have hsub : ∀ l db, handleAt (s.setPhase w (.readClock request none)) l = some db →
          handleAt s l = some db := handleAt_of_table w rfl rfl fun _ _ hi => hi
      rw [hs.single l _ db (hsub l db hl) hold] at hl
      simp only [handleAt, State.setPhase_self] at hl
      cases hl
  | reap w hphase hcarries =>
    rename_i request held now phase'
    have hclosed := reapAll_closed hs w (by simpa [ownHandles, hphase] using hown)
    refine hs.of_table w rfl rfl hclosed rfl (.inl rfl) hcarries.pending (hcarry hcarries)
      fun i db hi => ?_
    obtain ⟨hpid, hdb⟩ := handleAt_slot.1 hi
    have heq : ((s.reapAll w now).setPhase w phase').connections i = s.connections i := by
      show (reapConnection s.alive now (s.connections i)).1 = _
      rw [reapConnection_of_pid hpid]
    rw [heq] at hpid hdb ⊢
    exact ⟨handleAt_slot.2 ⟨hpid, hdb⟩, rfl, id⟩
  | copy w hphase hheld hrequest hcopied hpending =>
    refine hs.of_table w rfl rfl rfl rfl (.inl rfl) hpending ?_ hsame
    intro request held hr hh _
    rw [hrequest] at hr
    rw [hheld] at hh
    exact ⟨by rw [hphase]; exact hr, by rw [hphase]; exact hh⟩
  | cleanup w hphase =>
    exact hs.setConnection w _ rfl (fun _ _ _ hh => by cases hh)
      fun db hpid _ => absurd rfl hpid
  | setHelper w hphase =>
    refine hs.setConnection w _ rfl ?_ fun db hpid hdb =>
      ⟨handleAt_slot.2 ⟨hpid, hdb⟩, rfl, id⟩
    intro request held hr hh _
    exact ⟨by rw [hphase]; exact hr, by rw [hphase]; exact hh⟩
  | release w hphase =>
    rename_i request held
    have hw : Holding s w request held := ⟨by rw [hphase]; rfl, by rw [hphase]; rfl⟩
    have hb := hc.backed w request held hw
    exact hs.release w hw hb.key hb.occupied.1
  | adminClose w hphase =>
    rename_i i
    have hdb : (s.connections i).db = none := by simpa [ownHandles, hphase] using hown
    have hnone : (dbCloseConnection (s.connections i)).2 = [] := by
      simp [dbCloseConnection, hdb]
    rw [hnone, logClosed_nil]
    exact hs.setConnection w i rfl (fun _ _ hr => by cases hr)
      fun db hpid _ => absurd rfl hpid

omit [DecidableEq W] [Fintype W] in
theorem tracked_initial (now : Int) : Tracked (initial now : State W) := by
  have hnone : ∀ l, handleAt (initial now : State W) l = none := by
    intro l
    cases l <;> rfl
  refine ⟨?_, ?_, List.nodup_nil, ?_, ?_, ?_, ?_, ?_⟩
  · exact fun p hp => by cases hp
  · exact fun p hp => by cases hp
  · exact fun l db hl => by simp [hnone] at hl
  · exact fun l l' db hl => by simp [hnone] at hl
  · exact fun w db hw => by simp [hnone] at hw
  · exact fun i db hi => by simp [hnone] at hi
  · exact fun w request held db _ _ hdb => by simp [hnone] at hdb

/-- In a run whose steps are undisturbed and touch only their own handles,
every handle is closed at most once, by the process that opened it. -/
theorem closedByOpener_of_undisturbed (now : Int) {es : List (Event W)}
    (h : AllSteps step (fun s e => undisturbed s e = true ∧ ownHandles s e = true)
      (initial now) es) :
    AllStates step ClosedByOpener (initial now) es := by
  have hboth : AllStates step (fun s => Consistent s ∧ Tracked s) (initial now) es := by
    refine allStates_of_step ?_ ⟨consistent_initial now, tracked_initial now⟩ h
    intro s e s' hs hguard hstep
    exact ⟨consistent_step hs.1 hguard.1 hstep,
      tracked_step hs.2 hs.1 hguard.1 hguard.2 hstep⟩
  exact hboth.mono fun s hs => hs.2.closedByOpener

/-- An unnamed request that opens a handle and closes it. -/
def unnamedQuery : List (Event (Fin workers)) :=
  [.arrive 0 (soloRequest alice), .openConnection 0 true, .alloc 0 none, .readClock 0, .reap 0,
    .copy 0, .finish 0, .release 0]

theorem closedByOpener_unnamedQuery :
    AllStates step ClosedByOpener (initial 0) unnamedQuery :=
  closedByOpener_of_undisturbed 0 (by decide +kernel)

/-- An unnamed query that runs for more than eight hours.  Another worker reaps
its slot and calls `api->close` on a pointer of the first one's memory. -/
def overdueHandle : List (Event (Fin workers)) :=
  [.arrive 0 (soloRequest alice), .openConnection 0 true, .alloc 0 none, .readClock 0, .reap 0,
    .copy 0, .tick 28801,
    .arrive 1 (poolRequest bob), .find 1, .alloc 1 (some firstPath), .readClock 1,
    .reap 1]

/-- Some process closed a handle that it had not opened. -/
def closedByOther (s : State (Fin workers)) : Bool :=
  decide (∃ p ∈ s.closed, p ∉ s.opened)

theorem not_closedByOpener_of_closedByOther (s : State (Fin workers))
    (h : closedByOther s = true) : ¬ ClosedByOpener s := by
  obtain ⟨p, hp, hnot⟩ := of_decide_eq_true h
  exact fun hs => hnot (hs.1 p hp)

theorem not_closedByOpener_overdueHandle :
    ¬ AllStates step ClosedByOpener (initial 0) overdueHandle :=
  not_allStates_of_run not_closedByOpener_of_closedByOther (by decide +kernel)

end DbRelay.Pool
