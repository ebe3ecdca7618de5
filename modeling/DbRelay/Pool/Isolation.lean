import DbRelay.Pool.Holding

/-!
# Which connector a request talks to

A named request copies the record of its slot and connects to the path in the
copy.  The copy, the search for the slot and the reaping pass are three
critical sections, so the slot may have changed hands in between.

`Isolated` says that it did not: the copy matches the request, and so does
the key under which the connector on that path was launched.  `ReleaseSafe`
is the same concern at the other end of a request: the slot that is given back
is the one that was acquired.

Both follow from `Consistent`, so both hold along every run whose steps are
`undisturbed`.  Two short runs show that they fail without it.
-/

namespace DbRelay.Pool

open Function StepSystem

variable {W : Type}

/-! ## Isolation -/

/-- Every copy that a named request uses matches the request, and the path in
it belongs to no connector that was launched under another key. -/
def Isolated (s : State W) : Prop :=
  ∀ w request conn, (s.workers w).request = some request →
    request.named = true → (s.workers w).copied = some conn →
      dbMatch conn request = true ∧
        ∀ r, s.launched conn.sockPath = some r → dbMatch conn r = true

/-- The path of every occupied named slot belongs to no connector that was
launched under another key. -/
def PathsOwned (s : State W) : Prop :=
  ∀ i, (s.connections i).pid ≠ none → (s.connections i).connectionName.isSet = true →
    ∀ r, s.launched (s.connections i).sockPath = some r →
      dbMatch (s.connections i) r = true

variable [DecidableEq W]

/-- A new record gets a path of its own.  The answer of `tmpnam` is the path
of no occupied slot, and a path that the command line names is not one on
which a connector was launched under another key. -/
def freshPath (s : State W) : Event W → Bool
  | .alloc w tmpnam =>
    match s.workers w with
    | .allocate request db =>
      match newSockPath request tmpnam with
      | none => true
      | some path =>
        match launchPath request path with
        | some path => decide (∀ i, (s.connections i).pid ≠ none →
            (s.connections i).sockPath ≠ path)
        | none =>
          match path.bind s.launched with
          | some r => dbMatch (dbPopulateConnection request db path s.now w).2 r
          | none => true
    | _ => true
  | _ => true

omit [DecidableEq W] in
/-- The paths are owned as long as no launch and no new record comes in. -/
theorem PathsOwned.of_keeps {s s' : State W} (hs : PathsOwned s)
    (hkeep : ∀ i, (s'.connections i).pid ≠ none →
      Keeps (s.connections i) (s'.connections i))
    (hlaunched : s'.launched = s.launched) : PathsOwned s' := by
  intro i hi hnamed r hr
  have hk := hkeep i hi
  rw [hlaunched, hk.sockPath] at hr
  rw [hk.named] at hnamed
  rw [hk.pid] at hi
  rw [hk.key]
  exact hs i hi hnamed r hr

/-- An allocation gives the new record a path, and launches a connector for
the same request on it. -/
theorem PathsOwned.alloc {s : State W} (hs : PathsOwned s) (w : W)
    {request : Request} {db : Option Handle} {tmpnam path : Option SockPath} {i : Slot}
    {phase' : Phase W}
    (hphase : s.workers w = .allocate request db)
    (hpath : newSockPath request tmpnam = some path)
    (hfresh : freshPath s (.alloc w tmpnam) = true) :
    PathsOwned ((s.populate w i request db path).setPhase w phase') := by
  intro j hj hnamed r hr
  simp only [State.setPhase, State.populate, State.setConnection] at hj hnamed hr ⊢
  simp only [freshPath, hphase, hpath] at hfresh
  by_cases hji : j = i
  · subst hji
    rw [update_self] at hj hnamed hr ⊢
    have hmatch := dbMatch_populate request db path s.now w
    have hrequest : request.named = true := (named_of_dbMatch hmatch).symm.trans hnamed
    cases path with
    | none => exact absurd (dbPopulateConnection_pid_none request db s.now w hrequest) hj
    | some path =>
      obtain ⟨-, -, -, hsock⟩ :=
        dbPopulateConnection_taken request db (some path) s.now w fun _ => by simp
      simp only [← Option.some.inj (hsock hrequest)] at hr
      show dbMatch (dbPopulateConnection request db (some path) s.now w).2 r = true
      cases hlaunch : launchPath request (some path) with
      | none =>
        rw [hlaunch] at hr hfresh
        simp only [Option.bind_some, hr] at hfresh
        exact hfresh
      | some launched =>
        have hsame : launched = path := by
          simp only [launchPath, Option.ite_none_right_eq_some] at hlaunch
          exact (Option.some.inj hlaunch.2).symm
        simp only [hlaunch, hsame, update_self] at hr
        rw [← Option.some.inj hr]
        exact hmatch
  · rw [update_of_ne hji] at hj hnamed hr ⊢
    cases hlaunch : launchPath request path with
    | none =>
      rw [hlaunch] at hr
      exact hs j hj hnamed r hr
    | some launched =>
      simp only [hlaunch, decide_eq_true_eq] at hfresh hr
      rw [update_of_ne (hfresh j hj)] at hr
      exact hs j hj hnamed r hr

/-- The step lemma.  It needs no guard but the one on the new path. -/
theorem pathsOwned_step {s s' : State W} {e : Event W} (hs : PathsOwned s)
    (hfresh : freshPath s e = true) (h : step s e = some s') : PathsOwned s' := by
  rcases keeps_or_populates (stepRel_of_step h) with
    ⟨hkeep, hlaunched⟩ | ⟨w, tmpnam, request, db, path, i, rfl, hphase, hpath, -, rfl⟩
  · exact hs.of_keeps hkeep hlaunched
  · exact hs.alloc w hphase hpath hfresh

variable [Fintype W]

omit [DecidableEq W] in
/-- The two invariants give isolation. -/
theorem isolated_of_consistent {s : State W} (hs : Consistent s) (hp : PathsOwned s) :
    Isolated s := by
  intro w request conn hrequest hnamed hcopied
  obtain ⟨held, hheld⟩ := Phase.exists_held hcopied
  have hw : Holding s w request held := ⟨hrequest, hheld⟩
  obtain ⟨hmatch, hpath⟩ := hs.copied w request held conn hw hcopied
  have hb := hs.backed w request held hw
  refine ⟨hmatch, fun r hr => ?_⟩
  rw [hpath] at hr
  have hslot := hp held.slot hb.occupied.1 ((named_of_dbMatch hb.key).trans hnamed) r hr
  exact dbMatch_of_key_eq (key_eq_of_dbMatch hb.key hmatch) hslot

/-- In a run whose steps are undisturbed and whose new paths are fresh, every
request talks to a connector of its own key. -/
theorem isolated_of_undisturbed (now : Int) {es : List (Event W)}
    (h : AllSteps step (fun s e => undisturbed s e = true ∧ freshPath s e = true)
      (initial now) es) :
    AllStates step Isolated (initial now) es := by
  have hpaths : PathsOwned (initial now : State W) := fun i hi => absurd rfl hi
  have hboth : AllStates step (fun s => Consistent s ∧ PathsOwned s) (initial now) es := by
    refine allStates_of_step ?_ ⟨consistent_initial now, hpaths⟩ h
    intro s e s' hs hguard hstep
    exact ⟨consistent_step hs.1 hguard.1 hstep, pathsOwned_step hs.2 hguard.2 hstep⟩
  exact hboth.mono fun s hs => isolated_of_consistent hs.1 hs.2

/-- The runs below have three workers. -/
abbrev workers : Nat := 3

instance : NeZero workers := ⟨by decide⟩

/-- Two workers that share a connection.  The first one allocates the slot and
launches the connector, and the second one finds the slot. -/
def sharedSlot : List (Event (Fin workers)) :=
  [.arrive 0 (poolRequest alice), .find 0, .alloc 0 (some firstPath),
    .arrive 1 (poolRequest alice), .find 1,
    .readClock 0, .reap 0, .copy 0, .connect 0 true, .connInitialize 0 (some 7),
    .readClock 1, .reap 1, .copy 1, .connect 1 true, .connInitialize 1 (some 7),
    .setHelper 1, .setHelper 0, .finish 0, .release 0, .finish 1, .release 1]

theorem isolated_sharedSlot : AllStates step Isolated (initial 0) sharedSlot :=
  isolated_of_undisturbed 0 (by decide +kernel)

/-- Three workers.  The first one takes a slot, and the second one finds it.
The first one then fails to connect and frees the slot, and the third one takes
it for another user.  The second one copies the record of that user. -/
def stolenSlot : List (Event (Fin workers)) :=
  [.arrive 0 (poolRequest alice), .find 0, .alloc 0 (some firstPath),
    .arrive 1 (poolRequest alice), .find 1,
    .readClock 0, .reap 0, .copy 0, .connect 0 false, .cleanup 0,
    .arrive 2 (poolRequest bob), .find 2, .alloc 2 (some secondPath),
    .readClock 1, .reap 1, .copy 1]

/-- A named request uses a record that does not match it. -/
def mismatched (w : Fin workers) (s : State (Fin workers)) : Bool :=
  match (s.workers w).request, (s.workers w).copied with
  | some request, some conn => request.named && !dbMatch conn request
  | _, _ => false

theorem not_isolated_of_mismatched (w : Fin workers) (s : State (Fin workers))
    (h : mismatched w s = true) : ¬ Isolated s := by
  unfold mismatched at h
  split at h
  · rename_i request conn hrequest hcopied
    intro hs
    have hmatch := (hs w request conn hrequest (by simp_all) hcopied).1
    simp [hmatch] at h
  · cases h

theorem not_isolated_stolenSlot : ¬ AllStates step Isolated (initial 0) stolenSlot :=
  not_allStates_of_run (not_isolated_of_mismatched 1) (by decide +kernel)

/-! ## The slot that is given back -/

/-- A request that frees a slot, or gives it back, holds a slot that is still
the connection it acquired and that counts it as a user. -/
def ReleaseSafe (s : State W) : Prop :=
  ∀ w request held,
    s.workers w = .release request held ∨ s.workers w = .cleanup request held →
      Occupied s held ∧ 1 ≤ (s.connections held.slot).inUse

omit [DecidableEq W] in
theorem releaseSafe_of_consistent {s : State W} (hs : Consistent s) : ReleaseSafe s := by
  intro w request held hphase
  have hw : Holding s w request held := by
    rcases hphase with hphase | hphase <;> exact ⟨by rw [hphase]; rfl, by rw [hphase]; rfl⟩
  have hb := hs.backed w request held hw
  refine ⟨hb.occupied, ?_⟩
  have hpos : 0 < holders s held.slot :=
    countOf_pos s.workers (Phase.holds held.slot) (holds_iff.2 ⟨held, hw.2, rfl⟩)
  have hcount := hs.counted held.slot hb.occupied.1
  rw [UInt32.le_iff_toNat_le]
  show 1 ≤ (s.connections held.slot).inUse.toNat
  omega

/-- In a run whose steps are undisturbed, every request gives back the slot
that it acquired. -/
theorem releaseSafe_of_undisturbed (now : Int) {es : List (Event W)}
    (h : AllSteps step (fun s e => undisturbed s e = true) (initial now) es) :
    AllStates step ReleaseSafe (initial now) es :=
  (consistent_of_undisturbed now h).mono fun _ hs => releaseSafe_of_consistent hs

theorem releaseSafe_sharedSlot : AllStates step ReleaseSafe (initial 0) sharedSlot :=
  releaseSafe_of_undisturbed 0 (by decide +kernel)

/-- A query that runs for more than eight hours.  Another worker reaps the
slot, and `in_use` is zero when the first one gives it back. -/
def overdueQuery : List (Event (Fin workers)) :=
  [.arrive 0 (poolRequest alice), .find 0, .alloc 0 (some firstPath), .readClock 0,
    .reap 0, .copy 0, .connect 0 true, .connInitialize 0 (some 7), .setHelper 0,
    .tick 28801,
    .arrive 1 (poolRequest bob), .find 1, .alloc 1 (some secondPath), .readClock 1,
    .reap 1, .finish 0]

/-- A worker is about to give back a free slot. -/
def freedEarly (w : Fin workers) (s : State (Fin workers)) : Bool :=
  match s.workers w with
  | .release _ held => (s.connections held.slot).pid.isNone
  | _ => false

theorem not_releaseSafe_of_freedEarly (w : Fin workers) (s : State (Fin workers))
    (h : freedEarly w s = true) : ¬ ReleaseSafe s := by
  unfold freedEarly at h
  split at h
  · rename_i request held hphase
    intro hs
    obtain ⟨⟨hpid, -⟩, -⟩ := hs w request held (.inl hphase)
    exact hpid (by simpa using h)
  · cases h

theorem not_releaseSafe_overdueQuery :
    ¬ AllStates step ReleaseSafe (initial 0) overdueQuery :=
  not_allStates_of_run (not_releaseSafe_of_freedEarly 0) (by decide +kernel)

end DbRelay.Pool
