import DbRelay.Pool.Isolation
import DbRelay.Pool.Kill

/-!
# The end of the master process

`ngx_http_dbrelay_exit_master` stops the helpers in two passes over the table, which share one
`pid` variable.  It takes no account of which slots are occupied, and a slot that was freed still
has the helper of its last connection.

* `mem_term_iff` and `mem_kill_iff`: which pids get which signal.
* `shutsDown_iff`: when exactly the helpers of the occupied slots are stopped.
* `term_of_frees`: the helper of a slot that a step freed gets a signal all the same.
-/

namespace DbRelay.Pool

open Function StepSystem

variable {W : Type}

/-! ## The function -/

inductive ShutdownAct
  /-- `dbrelay_conn_kill` on the socket of a path. -/
  | die (sockPath : SockPath)
  | term (pid : Nat)
  /-- `usleep(500000)`. -/
  | sleep
  | kill (pid : Nat)
  deriving DecidableEq, Repr

/-- What the function asks the system: whether a path can be connected to, whether a process has
a pid when the first pass is at a slot, and whether one has it after the sleep. -/
structure Outside where
  connects : SockPath → Bool
  live : Slot → Nat → Bool
  survives : Nat → Bool

variable (o : Outside) (connections : Table W)

/-- The command to the connector of a slot. -/
def dieActs (i : Slot) : List ShutdownAct :=
  if (connections i).sockPath.isSet && o.connects (connections i).sockPath then
    [.die (connections i).sockPath]
  else []

/-- The body of the first loop: the value of `pid` after it, and what it does. -/
def firstVisit (i : Slot) (pid : Nat) : Nat × List ShutdownAct :=
  let helperPid := (connections i).helperPid
  if helperPid ≠ 0 then
    (helperPid, dieActs o connections i ++ if o.live i helperPid then [.term helperPid] else [])
  else (pid, dieActs o connections i)

/-- The first loop. -/
def firstPass : List Slot → Nat → Nat × List ShutdownAct
  | [], pid => (pid, [])
  | i :: slots, pid =>
    let (pid, acts) := firstVisit o connections i pid
    let (pid, acts') := firstPass slots pid
    (pid, acts ++ acts')

/-- The second loop. -/
def secondPass (pid : Nat) (slots : List Slot) : List ShutdownAct :=
  slots.flatMap fun i =>
    if (connections i).helperPid ≠ 0 && o.survives pid then [.kill pid] else []

/-- `ngx_http_dbrelay_exit_master`. -/
def exitMaster : List ShutdownAct :=
  let pass := firstPass o connections (List.finRange maxConn) 0
  pass.2 ++ .sleep :: secondPass o connections pass.1 (List.finRange maxConn)

/-! ## The passes -/

/-- The helper of the last of the slots that has one. -/
def lastHelper (slots : List Slot) (pid : Nat) : Nat :=
  slots.foldl (fun pid i =>
    if (connections i).helperPid ≠ 0 then (connections i).helperPid else pid) pid

theorem firstPass_pid (slots : List Slot) (pid : Nat) :
    (firstPass o connections slots pid).1 = lastHelper connections slots pid := by
  induction slots generalizing pid with
  | nil => rfl
  | cons i slots ih =>
    have hvisit : (firstVisit o connections i pid).1 =
        if (connections i).helperPid ≠ 0 then (connections i).helperPid else pid := by
      unfold firstVisit
      dsimp only
      split <;> rfl
    rw [lastHelper, List.foldl_cons, ← hvisit]
    exact ih _

theorem not_mem_dieActs (i : Slot) (p : Nat) :
    .term p ∉ dieActs o connections i ∧ .kill p ∉ dieActs o connections i := by
  unfold dieActs
  split <;> simp

theorem mem_firstVisit (i : Slot) (pid p : Nat) :
    (.term p ∈ (firstVisit o connections i pid).2 ↔
        (connections i).helperPid = p ∧ p ≠ 0 ∧ o.live i p = true) ∧
      .kill p ∉ (firstVisit o connections i pid).2 := by
  obtain ⟨hterm, hkill⟩ := not_mem_dieActs o connections i p
  unfold firstVisit
  dsimp only
  by_cases hpid : (connections i).helperPid = 0
  · rw [if_neg (not_not.2 hpid)]
    refine ⟨iff_of_false hterm ?_, hkill⟩
    intro hgiven
    obtain ⟨rfl, hne, -⟩ := hgiven
    exact hne hpid
  · rw [if_pos hpid, List.mem_append, List.mem_append, or_iff_right hterm, or_iff_right hkill]
    cases hlive : o.live i (connections i).helperPid with
    | true =>
      refine ⟨⟨fun h => ?_, ?_⟩, by simp⟩
      · obtain rfl : p = (connections i).helperPid := by simpa using h
        exact ⟨rfl, hpid, hlive⟩
      · intro hgiven
        obtain ⟨rfl, -, -⟩ := hgiven
        simp
    | false =>
      refine ⟨iff_of_false (by simp) ?_, by simp⟩
      intro hgiven
      obtain ⟨rfl, -, h⟩ := hgiven
      rw [hlive] at h
      cases h

theorem mem_firstPass (slots : List Slot) (pid p : Nat) :
    (.term p ∈ (firstPass o connections slots pid).2 ↔
        ∃ i ∈ slots, (connections i).helperPid = p ∧ p ≠ 0 ∧ o.live i p = true) ∧
      .kill p ∉ (firstPass o connections slots pid).2 := by
  induction slots generalizing pid with
  | nil => simp [firstPass]
  | cons i slots ih =>
    obtain ⟨hterm, hkill⟩ := mem_firstVisit o connections i pid p
    obtain ⟨hterms, hkills⟩ := ih (firstVisit o connections i pid).1
    rw [firstPass, List.exists_mem_cons_iff]
    show (_ ∈ _ ++ _ ↔ _) ∧ _ ∉ _ ++ _
    rw [List.mem_append, List.mem_append, hterm, hterms]
    exact ⟨Iff.rfl, not_or.2 ⟨hkill, hkills⟩⟩

theorem mem_secondPass (slots : List Slot) (pid p : Nat) :
    (.kill p ∈ secondPass o connections pid slots ↔
        p = pid ∧ o.survives p = true ∧ ∃ i ∈ slots, (connections i).helperPid ≠ 0) ∧
      .term p ∉ secondPass o connections pid slots := by
  have hvisit : ∀ i, ∀ act ∈ (if (connections i).helperPid ≠ 0 && o.survives pid then
      [ShutdownAct.kill pid] else []), act = .kill pid := by
    intro i act hact
    split at hact
    · exact List.mem_singleton.1 hact
    · exact absurd hact List.not_mem_nil
  constructor
  · rw [secondPass, List.mem_flatMap]
    constructor
    · intro h
      obtain ⟨i, hi, hmem⟩ := h
      obtain rfl : p = pid := by simpa using hvisit i _ hmem
      split at hmem
      · rename_i htest
        simp only [Bool.and_eq_true, decide_eq_true_eq] at htest
        exact ⟨rfl, htest.2, i, hi, htest.1⟩
      · exact absurd hmem List.not_mem_nil
    · intro h
      obtain ⟨rfl, hsurvives, i, hi, hpid⟩ := h
      refine ⟨i, hi, ?_⟩
      rw [if_pos (by simp [hpid, hsurvives])]
      exact List.mem_singleton_self _
  · intro hmem
    obtain ⟨i, -, hi⟩ := List.mem_flatMap.1 hmem
    cases hvisit i _ hi

/-- The last helper is one of the table, if there is one. -/
theorem lastHelper_ne_zero_iff (slots : List Slot) (pid : Nat) :
    lastHelper connections slots pid ≠ 0 ↔
      pid ≠ 0 ∨ ∃ i ∈ slots, (connections i).helperPid ≠ 0 := by
  induction slots generalizing pid with
  | nil => simp [lastHelper]
  | cons i slots ih =>
    have hcons := ih (if (connections i).helperPid ≠ 0 then (connections i).helperPid else pid)
    rw [List.exists_mem_cons_iff]
    refine hcons.trans ?_
    split
    · rename_i hpid
      exact iff_of_true (.inl hpid) (.inr (.inl hpid))
    · rename_i hpid
      rw [or_iff_right hpid]

/-! ## The signals -/

/-- The value of `pid` in the second pass. -/
def lastPid : Nat := lastHelper connections (List.finRange maxConn) 0

theorem mem_term_iff (p : Nat) : .term p ∈ exitMaster o connections ↔
    ∃ i, (connections i).helperPid = p ∧ p ≠ 0 ∧ o.live i p = true := by
  obtain ⟨hterm, -⟩ := mem_firstPass o connections (List.finRange maxConn) 0 p
  have hsecond := (mem_secondPass o connections (List.finRange maxConn)
    (firstPass o connections (List.finRange maxConn) 0).1 p).2
  rw [exitMaster, List.mem_append, hterm, List.mem_cons, or_iff_left (by simp [hsecond])]
  simp

theorem mem_kill_iff (p : Nat) : .kill p ∈ exitMaster o connections ↔
    p = lastPid connections ∧ p ≠ 0 ∧ o.survives p = true := by
  obtain ⟨-, hfirst⟩ := mem_firstPass o connections (List.finRange maxConn) 0 p
  have hsecond := (mem_secondPass o connections (List.finRange maxConn)
    (firstPass o connections (List.finRange maxConn) 0).1 p).1
  have hlast : lastPid connections ≠ 0 ↔
      ∃ i ∈ List.finRange maxConn, (connections i).helperPid ≠ 0 :=
    (lastHelper_ne_zero_iff connections _ 0).trans (or_iff_right (not_not.2 rfl))
  rw [firstPass_pid] at hsecond
  rw [exitMaster, List.mem_append, List.mem_cons, firstPass_pid, or_iff_right hfirst, hsecond,
    or_iff_right (by simp), ← lastPid]
  refine and_congr_right fun hp => ?_
  rw [and_comm, ← hlast, hp]

/-! ## What the function is for -/

/-- A helper of an occupied slot that is alive when the slot is reached. -/
def LiveHelper (p : Nat) : Prop :=
  ∃ i, (connections i).pid ≠ none ∧ (connections i).helperPid = p ∧ p ≠ 0 ∧ o.live i p = true

/-- A `SIGTERM` for each live helper of an occupied slot, then a `SIGKILL` for those of them that
survive, and no signal for a pid that is only in free slots. -/
structure ShutsDown : Prop where
  terminates : ∀ p, LiveHelper o connections p → .term p ∈ exitMaster o connections
  kills : ∀ p, .kill p ∈ exitMaster o connections ↔
    LiveHelper o connections p ∧ o.survives p = true
  spares : ∀ p, .term p ∈ exitMaster o connections ∨ .kill p ∈ exitMaster o connections →
    ∃ i, (connections i).pid ≠ none ∧ (connections i).helperPid = p
  /-- The sleep is between the two kinds of signals. -/
  ordered : ∃ first second, exitMaster o connections = first ++ .sleep :: second ∧
    (∀ p, .kill p ∉ first) ∧ ∀ p, .term p ∉ second

/-- Each pid of a free slot that names a live process is also in an occupied slot, no helper
survives but the last one of the table, and the process that has the pid of the last one after
the sleep is such a helper. -/
structure Sheltered : Prop where
  free : ∀ i, (connections i).pid = none → (connections i).helperPid ≠ 0 →
    o.live i (connections i).helperPid = true →
    ∃ j, (connections j).pid ≠ none ∧ (connections j).helperPid = (connections i).helperPid
  survivor : ∀ p, LiveHelper o connections p → o.survives p = true → p = lastPid connections
  last : lastPid connections ≠ 0 → o.survives (lastPid connections) = true →
    LiveHelper o connections (lastPid connections)

theorem ordered_exitMaster :
    ∃ first second, exitMaster o connections = first ++ .sleep :: second ∧
      (∀ p, .kill p ∉ first) ∧ ∀ p, .term p ∉ second :=
  ⟨_, _, rfl, fun p => (mem_firstPass o connections _ 0 p).2,
    fun p => (mem_secondPass o connections _ _ p).2⟩

/-- The second pass uses the pid that the first one leaves, and neither asks whether a slot is
occupied. -/
theorem shutsDown_iff : ShutsDown o connections ↔ Sheltered o connections := by
  constructor
  · intro h
    refine ⟨fun i _ hpid hlive => ?_, fun p hp hsurvives => ?_, fun hlast hsurvives => ?_⟩
    · exact h.spares _ (.inl ((mem_term_iff o connections _).2 ⟨i, rfl, hpid, hlive⟩))
    · exact ((mem_kill_iff o connections p).1 ((h.kills p).2 ⟨hp, hsurvives⟩)).1
    · exact ((h.kills _).1 ((mem_kill_iff o connections _).2 ⟨rfl, hlast, hsurvives⟩)).1
  · intro h
    have hkills : ∀ p, .kill p ∈ exitMaster o connections ↔
        LiveHelper o connections p ∧ o.survives p = true := by
      intro p
      rw [mem_kill_iff]
      constructor
      · intro hgiven
        obtain ⟨hp, hpid, hsurvives⟩ := hgiven
        rw [hp] at hpid hsurvives ⊢
        exact ⟨h.last hpid hsurvives, hsurvives⟩
      · intro hgiven
        obtain ⟨hp, hsurvives⟩ := hgiven
        obtain ⟨i, -, -, hpid, -⟩ := id hp
        exact ⟨h.survivor p hp hsurvives, hpid, hsurvives⟩
    refine ⟨?_, hkills, ?_, ordered_exitMaster o connections⟩
    · intro p hgiven
      obtain ⟨i, -, hp, hpid, hlive⟩ := hgiven
      exact (mem_term_iff o connections p).2 ⟨i, hp, hpid, hlive⟩
    · intro p hgiven
      rcases hgiven with hterm | hkill
      · obtain ⟨i, rfl, hpid, hlive⟩ := (mem_term_iff o connections p).1 hterm
        by_cases hfree : (connections i).pid = none
        · exact h.free i hfree hpid hlive
        · exact ⟨i, hfree, rfl⟩
      · obtain ⟨i, hocc, hp, -⟩ := ((hkills p).1 hkill).1
        exact ⟨i, hocc, hp⟩

/-! ## Slots that were freed -/

theorem helper_reapConnection (alive : W → Bool) (now : Int) (conn : Connection W) :
    (reapConnection alive now conn).1.helperPid = conn.helperPid ∧
      (reapConnection alive now conn).1.sockPath = conn.sockPath := by
  unfold reapConnection
  dsimp only
  split_ifs <;> exact ⟨rfl, rfl⟩

variable [DecidableEq W]

/-- A slot that a step frees keeps the helper and the path. -/
theorem helper_of_frees {s s' : State W} {e : Event W} (h : StepRel s e s') {i : Slot}
    (hpid : (s.connections i).pid ≠ none) (hfreed : (s'.connections i).pid = none) :
    (s'.connections i).helperPid = (s.connections i).helperPid ∧
      (s'.connections i).sockPath = (s.connections i).sockPath := by
  have hself : ∀ {connections : Table W} {conn : Connection W},
      conn.helperPid = (connections i).helperPid ∧ conn.sockPath = (connections i).sockPath →
      (update connections i conn i).helperPid = (connections i).helperPid ∧
        (update connections i conn i).sockPath = (connections i).sockPath := by
    intro connections conn hconn
    rwa [update_self]
  cases h with
  | move w hcarries => exact absurd hfreed hpid
  | spawn w hphase => exact absurd hfreed hpid
  | tick seconds => exact absurd hfreed hpid
  | openConnection w hphase hnamed => exact absurd hfreed hpid
  | exhausted w hphase hfree => exact absurd hfreed hpid
  | copy w hphase hheld hrequest hcopied hpending => exact absurd hfreed hpid
  | find w hphase hnamed hfind =>
    obtain ⟨rfl, hnone⟩ := eq_of_update_pid_none hpid hfreed
    exact absurd hnone hpid
  | alloc w hphase hpath hfree =>
    obtain ⟨rfl, -⟩ := eq_of_update_pid_none hpid hfreed
    exact absurd (firstFree_some hfree) hpid
  | reap w hphase hcarries => exact helper_reapConnection _ _ _
  | cleanup w hphase =>
    obtain ⟨rfl, -⟩ := eq_of_update_pid_none hpid hfreed
    exact hself ⟨rfl, rfl⟩
  | setHelper w hphase =>
    obtain ⟨rfl, hnone⟩ := eq_of_update_pid_none hpid hfreed
    exact absurd hnone hpid
  | release w hphase =>
    obtain ⟨rfl, -⟩ := eq_of_update_pid_none hpid hfreed
    refine hself ?_
    unfold dbFreeConnection
    dsimp only
    split <;> exact ⟨rfl, rfl⟩
  | adminClose w hphase =>
    obtain ⟨rfl, -⟩ := eq_of_update_pid_none hpid hfreed
    exact hself ⟨rfl, rfl⟩

/-- A helper that lives on when its slot is freed gets a `SIGTERM` with the others. -/
theorem term_of_frees {s s' : State W} {e : Event W} (h : step s e = some s') {i : Slot}
    (hocc : (s.connections i).pid ≠ none) (hfrees : Frees s i e)
    (hpid : (s.connections i).helperPid ≠ 0)
    (hlive : o.live i (s.connections i).helperPid = true) :
    .term (s.connections i).helperPid ∈ exitMaster o s'.connections :=
  (mem_term_iff o s'.connections _).2
    ⟨i, (helper_of_frees (stepRel_of_step h) hocc (pid_none_of_frees h hfrees)).1, hpid, hlive⟩

/-! ## Two connectors -/

/-- Two users with a connector each. -/
def twoConnectors : List (Event (Fin workers)) :=
  [.arrive 0 (poolRequest alice), .find 0, .alloc 0 (some firstPath), .readClock 0, .reap 0,
    .copy 0, .connect 0 true, .connInitialize 0 (some 7), .setHelper 0, .finish 0, .release 0,
    .arrive 1 (poolRequest bob), .find 1, .alloc 1 (some secondPath), .readClock 1, .reap 1,
    .copy 1, .connect 1 true, .connInitialize 1 (some 8), .setHelper 1, .finish 1, .release 1]

/-- Both helpers survive the `SIGTERM`, and the first one gets no `SIGKILL`. -/
theorem not_shutsDown_twoConnectors : ∃ s, run step (initial 0) twoConnectors = some s ∧
    ¬ ShutsDown ⟨fun _ => true, fun _ _ => true, fun _ => true⟩ s.connections := by
  have hrun : (run step (initial 0) twoConnectors).any (fun s =>
      decide (∃ i, (s.connections i).pid ≠ none ∧ (s.connections i).helperPid = 7) &&
        decide (lastPid s.connections = 8)) = true := by
    decide +kernel
  obtain ⟨s, hs, htest⟩ := (Option.any_eq_true _ _).1 hrun
  simp only [Bool.and_eq_true, decide_eq_true_eq] at htest
  obtain ⟨⟨i, hocc, hpid⟩, hlast⟩ := htest
  refine ⟨s, hs, fun h => ?_⟩
  have hkill := (h.kills 7).2 ⟨⟨i, hocc, hpid, by decide, rfl⟩, rfl⟩
  have heq := ((mem_kill_iff _ _ 7).1 hkill).1
  rw [hlast] at heq
  exact absurd heq (by decide)

end DbRelay.Pool
