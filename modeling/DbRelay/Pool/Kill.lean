import DbRelay.Pool.Holding

/-!
# The kill command

`dbrelay_admin_kill` finds the slot of a connector in one critical section, asks for its helper
and signals it outside of any, and clears the slot in another one.  The machine `Host` adds the
processes that a helper's pid can name to the workers and the table, so that `kill` has an answer
and a receiver, and other processes move between any two steps of the command.

* `slot_step`: what a step can do to a slot, and `occupied_iff`: when a connection stays in it.
* `sent_eq`: which process the command signals.
* `actsRight_iff`: when a command that returned did what it is for.
-/

namespace DbRelay.Pool

open Function StepSystem

variable {W : Type}

/-! ## The machine -/

/-- What a kill command knows: the answer of `kill(pid, 0)`, and the processes that it sent a
`SIGTERM`. -/
structure Kill where
  alive : Option Bool := none
  sent : List Nat := []
  deriving DecidableEq, Repr

/-- The workers with the table, the processes by their pid, and the kill commands.  A process is
the number of processes that were started before it, because a pid is used again. -/
structure Host (W : Type) where
  pool : State W
  running : Nat → Option Nat
  started : Nat
  kills : W → Kill
  running_lt : ∀ pid n, running pid = some n → n < started
  running_zero : running 0 = none

inductive HostEvent (W : Type)
  /-- A step of a worker. -/
  | table (e : Event W)
  /-- `kill(pid, 0)` in `dbrelay_admin_kill`. -/
  | probe (w : W)
  /-- A process starts under a pid. -/
  | start (pid : Nat)
  /-- The process under a pid exits. -/
  | exit (pid : Nat)

/-- The worker that moves. -/
def Event.worker : Event W → Option W
  | .tick _ => none
  | .spawn w | .die w | .arrive w _ | .find w | .openConnection w _ | .alloc w _ | .readClock w
  | .reap w | .copy w | .connect w _ | .cleanup w | .connInitialize w _ | .setHelper w
  | .finish w | .release w | .adminArrive w _ | .adminFind w | .adminSignal w | .adminClose w =>
    some w

def HostEvent.worker : HostEvent W → Option W
  | .table e => e.worker
  | .probe w => some w
  | .start _ => none
  | .exit _ => none

namespace Host

/-- `kill(pid, 0) == 0`.  The pid 0 stands for the caller's own group. -/
def alive (h : Host W) (pid : Nat) : Bool := decide (pid = 0) || (h.running pid).isSome

variable [DecidableEq W]

def setKill (h : Host W) (w : W) (kill : Kill) : Host W :=
  { h with kills := update h.kills w kill }

/-- `start` and `exit`. -/
def setRunning (h : Host W) (pid : Nat) (n : Option Nat) (hpid : pid ≠ 0)
    (hn : ∀ k, n = some k → k = h.started) : Host W :=
  { h with
    running := update h.running pid n
    started := h.started + 1
    running_lt := by
      intro pid' k hk
      by_cases heq : pid' = pid
      · rw [heq, update_self] at hk
        rw [hn k hk]
        exact Nat.lt_succ_self _
      · rw [update_of_ne heq] at hk
        exact Nat.lt_succ_of_lt (h.running_lt pid' k hk)
    running_zero := by rw [update_of_ne hpid.symm, h.running_zero] }

end Host

variable [DecidableEq W]

/-- A step of a worker.  The `SIGTERM` is sent where `kill(pid, 0)` is not 0. -/
def tableStep (h : Host W) : Event W → Option (Host W)
  | .adminFind w =>
    (step h.pool (.adminFind w)).map fun pool => { h.setKill w {} with pool := pool }
  | .adminSignal w =>
    match h.pool.workers w, (h.kills w).alive with
    | .adminSignal _ pid, some alive =>
      let sent := if alive then [] else (h.running pid).toList
      (step h.pool (.adminSignal w)).map fun pool =>
        { h.setKill w { alive := some alive, sent := sent } with pool := pool }
    | _, _ => none
  | e => (step h.pool e).map fun pool => { h with pool := pool }

/-- One step of the machine. -/
def hostStep (h : Host W) : HostEvent W → Option (Host W)
  | .table e => tableStep h e
  | .probe w =>
    match h.pool.workers w, (h.kills w).alive with
    | .adminSignal _ pid, none => some (h.setKill w { alive := some (h.alive pid) })
    | _, _ => none
  | .start pid =>
    if hpid : pid ≠ 0 then
      if (h.running pid).isNone then
        some (h.setRunning pid (some h.started) hpid fun k hk => (Option.some.inj hk).symm)
      else none
    else none
  | .exit pid =>
    if hpid : pid ≠ 0 then some (h.setRunning pid none hpid (fun k hk => by cases hk))
    else none

/-! ## What a step of another worker does -/

/-- A step changes the phase of the worker that moves and of no other one. -/
theorem workers_of_step {s s' : State W} {e : Event W} (h : step s e = some s') {w : W}
    (hw : e.worker ≠ some w) : s'.workers w = s.workers w := by
  have hne : ∀ {v : W} {phase' : Phase W}, (some v ≠ some w) →
      s'.workers = update s.workers v phase' → s'.workers w = s.workers w := by
    intro v phase' hv heq
    rw [heq, update_of_ne fun h => hv (by rw [h])]
  cases e with
  | tick seconds =>
    obtain rfl := Option.some.inj h
    rfl
  | spawn v | arrive v request | readClock v | cleanup v | setHelper v | finish v | release v
  | adminArrive v sockPath | adminSignal v | adminClose v =>
    simp only [step] at h
    split at h
    · obtain rfl := Option.some.inj h
      exact hne hw rfl
    · cases h
  | die v =>
    simp only [step] at h
    split at h
    · cases h
    · obtain rfl := Option.some.inj h
      exact hne hw rfl
  | find v =>
    simp only [step] at h
    split at h
    · split at h
      · split at h
        · obtain rfl := Option.some.inj h
          exact hne hw rfl
        · obtain rfl := Option.some.inj h
          exact hne hw rfl
      · cases h
    · cases h
  | openConnection v ok =>
    simp only [step] at h
    split at h
    · split at h
      · cases h
      · split at h
        · obtain rfl := Option.some.inj h
          exact hne hw rfl
        · obtain rfl := Option.some.inj h
          exact hne hw rfl
    · cases h
  | alloc v tmpnam =>
    simp only [step] at h
    split at h
    · split at h
      · cases h
      · split at h
        · obtain rfl := Option.some.inj h
          exact hne hw rfl
        · obtain rfl := Option.some.inj h
          exact hne hw rfl
    · cases h
  | reap v | copy v | connect v ok | adminFind v =>
    simp only [step] at h
    split at h
    · split at h
      · obtain rfl := Option.some.inj h
        exact hne hw rfl
      · obtain rfl := Option.some.inj h
        exact hne hw rfl
    · cases h
  | connInitialize v helperPid =>
    simp only [step] at h
    split at h
    · split at h
      · obtain rfl := Option.some.inj h
        exact hne hw rfl
      · obtain rfl := Option.some.inj h
        exact hne hw rfl
      · obtain rfl := Option.some.inj h
        exact hne hw rfl
    · cases h

/-- The step frees slot `i`, if the slot is occupied. -/
def Frees (s : State W) (i : Slot) : Event W → Prop
  | .reap w =>
    match s.workers w with
    | .reap _ _ now => (reapConnection s.alive now (s.connections i)).1.pid = none
    | _ => False
  | .cleanup w =>
    match s.workers w with
    | .cleanup _ held => held.slot = i
    | _ => False
  | .release w =>
    match s.workers w with
    | .release _ held => held.slot = i ∧ (s.connections i).connectionName.isSet = false
    | _ => False
  | .adminClose w =>
    match s.workers w with
    | .adminClose j => j = i
    | _ => False
  | _ => False

theorem serials_of_step {s s' : State W} {e : Event W} (h : StepRel s e s') (i : Slot) :
    s'.serials i = s.serials i ∨
      (s.connections i).pid = none ∧ s'.serials i = s.serials i + 1 := by
  cases h with
  | alloc w hphase hpath hfree =>
    rename_i tmpnam path request db j
    by_cases hij : i = j
    · subst hij
      exact .inr ⟨firstFree_some hfree, update_self i _ _⟩
    · exact .inl (update_of_ne hij _ _)
  | _ => exact .inl rfl

/-- A step keeps the connection of a slot, or frees the slot, or fills it when it is free. -/
theorem slot_step {s s' : State W} {e : Event W} (h : StepRel s e s') (i : Slot) :
    s'.serials i = s.serials i ∧
        ((s'.connections i).pid = none ∨ Keeps (s.connections i) (s'.connections i)) ∨
      (s.connections i).pid = none ∧ s'.serials i = s.serials i + 1 := by
  rcases serials_of_step h i with hsame | hnew
  · refine .inl ⟨hsame, ?_⟩
    by_cases hpid : (s'.connections i).pid = none
    · exact .inl hpid
    · rcases keeps_or_populates h with
        ⟨hkeeps, -⟩ | ⟨w, tmpnam, request, db, path, j, -, -, -, -, rfl⟩
      · exact .inr (hkeeps i hpid)
      · have hij : i ≠ j := by
          rintro rfl
          exact absurd ((update_self i _ _).symm.trans hsame) (Nat.succ_ne_self _)
        have hconn := s.populate_of_ne w hij request db path
        exact .inr (by
          show Keeps _ ((s.populate w j request db path).connections i)
          rw [hconn]
          exact Keeps.refl _)
  · exact .inr hnew

omit [DecidableEq W] in
theorem eq_of_update_pid_none {connections : Table W} {i j : Slot} {conn : Connection W}
    (hpid : (connections i).pid ≠ none) (h : (update connections j conn i).pid = none) :
    j = i ∧ conn.pid = none := by
  by_cases hij : i = j
  · subst hij
    rw [update_self] at h
    exact ⟨rfl, h⟩
  · rw [update_of_ne hij] at h
    exact absurd h hpid

/-- No event but the listed ones frees an occupied slot. -/
theorem frees_of_pid_none {s s' : State W} {e : Event W} (h : StepRel s e s') {i : Slot}
    (hpid : (s.connections i).pid ≠ none) (hfreed : (s'.connections i).pid = none) :
    Frees s i e := by
  cases h with
  | move w hcarries => exact absurd hfreed hpid
  | spawn w hphase => exact absurd hfreed hpid
  | tick seconds => exact absurd hfreed hpid
  | openConnection w hphase hnamed => exact absurd hfreed hpid
  | exhausted w hphase hfree => exact absurd hfreed hpid
  | copy w hphase hheld hrequest hcopied hpending => exact absurd hfreed hpid
  | find w hphase hnamed hfind =>
    obtain ⟨rfl, hnone⟩ := eq_of_update_pid_none hpid hfreed
    exact absurd hnone hpid
  | alloc w hphase hpath hfree =>
    obtain ⟨rfl, -⟩ := eq_of_update_pid_none hpid hfreed
    exact absurd (firstFree_some hfree) hpid
  | reap w hphase hcarries =>
    show Frees s i (.reap w)
    rw [Frees, hphase]
    exact hfreed
  | cleanup w hphase =>
    show Frees s i (.cleanup w)
    rw [Frees, hphase]
    exact (eq_of_update_pid_none hpid hfreed).1
  | setHelper w hphase =>
    obtain ⟨rfl, hnone⟩ := eq_of_update_pid_none hpid hfreed
    exact absurd hnone hpid
  | release w hphase =>
    obtain ⟨rfl, hnone⟩ := eq_of_update_pid_none hpid hfreed
    show Frees s _ (.release w)
    rw [Frees, hphase]
    refine ⟨rfl, ?_⟩
    by_contra hset
    rw [Bool.not_eq_false] at hset
    exact hpid ((dbFreeConnection_named hset s.now).1.pid.symm.trans hnone)
  | adminClose w hphase =>
    show Frees s i (.adminClose w)
    rw [Frees, hphase]
    exact (eq_of_update_pid_none hpid hfreed).1

/-- The listed events free the slot. -/
theorem pid_none_of_frees {s s' : State W} {e : Event W} (h : step s e = some s') {i : Slot}
    (hfrees : Frees s i e) : (s'.connections i).pid = none := by
  cases e with
  | reap w =>
    simp only [step] at h
    rw [Frees] at hfrees
    split at hfrees
    · rename_i hphase
      rw [hphase] at h
      dsimp only at h
      split at h <;>
      · obtain rfl := Option.some.inj h
        exact hfrees
    · exact hfrees.elim
  | cleanup w =>
    simp only [step] at h
    rw [Frees] at hfrees
    split at hfrees
    · rename_i hphase
      rw [hphase] at h
      obtain rfl := Option.some.inj h
      subst hfrees
      simp only [State.setPhase, State.setConnection, update_self]
    · exact hfrees.elim
  | release w =>
    simp only [step] at h
    rw [Frees] at hfrees
    split at hfrees
    · rename_i hphase
      rw [hphase] at h
      obtain rfl := Option.some.inj h
      obtain ⟨rfl, hset⟩ := hfrees
      simp only [State.setPhase, State.setConnection, State.logClosed, update_self]
      exact (dbFreeConnection_unnamed hset s.now).1
    · exact hfrees.elim
  | adminClose w =>
    simp only [step] at h
    rw [Frees] at hfrees
    split at hfrees
    · rename_i hphase
      rw [hphase] at h
      obtain rfl := Option.some.inj h
      subst hfrees
      simp only [State.setPhase, State.setConnection, State.logClosed, update_self]
      rfl
    · exact hfrees.elim
  | _ => exact hfrees.elim

/-! ## What a step of the machine does -/

/-- The effects of the steps. -/
inductive HostRel (h : Host W) : HostEvent W → Host W → Prop
  | table {e : Event W} {pool : State W} {kills : W → Kill} (hstep : step h.pool e = some pool)
      (hkills : ∀ w, e.worker ≠ some w → kills w = h.kills w) :
      HostRel h (.table e) { h with pool := pool, kills := kills }
  | probe (w : W) {slot : Slot} {pid : Nat} (hphase : h.pool.workers w = .adminSignal slot pid) :
      HostRel h (.probe w) (h.setKill w { alive := some (h.alive pid) })
  | process {e : HostEvent W} (he : ∀ e', e ≠ .table e') (pid : Nat) {n : Option Nat}
      (hpid : pid ≠ 0) (hn : ∀ k, n = some k → k = h.started) :
      HostRel h e (h.setRunning pid n hpid hn)

theorem hostRel_of_hostStep {h h' : Host W} {e : HostEvent W} (hstep : hostStep h e = some h') :
    HostRel h e h' := by
  have hkills : ∀ {w v : W} {kill : Kill}, some w ≠ some v →
      update h.kills w kill v = h.kills v :=
    fun hv => update_of_ne (fun heq => hv (by rw [heq])) _ _
  cases e with
  | table e =>
    unfold hostStep tableStep at hstep
    dsimp only at hstep
    split at hstep
    · obtain ⟨pool, hpool, rfl⟩ := Option.map_eq_some_iff.1 hstep
      exact .table hpool fun v hv => hkills hv
    · split at hstep
      · obtain ⟨pool, hpool, rfl⟩ := Option.map_eq_some_iff.1 hstep
        exact .table hpool fun v hv => hkills hv
      · cases hstep
    · obtain ⟨pool, hpool, rfl⟩ := Option.map_eq_some_iff.1 hstep
      exact .table hpool fun v hv => rfl
  | probe w =>
    rw [hostStep] at hstep
    split at hstep
    · rename_i hphase halive
      obtain rfl := Option.some.inj hstep
      exact .probe w hphase
    · cases hstep
  | start pid =>
    rw [hostStep] at hstep
    split at hstep
    · split at hstep
      · obtain rfl := Option.some.inj hstep
        exact .process (fun e' heq => by cases heq) pid _ _
      · cases hstep
    · cases hstep
  | exit pid =>
    rw [hostStep] at hstep
    split at hstep
    · obtain rfl := Option.some.inj hstep
      exact .process (fun e' heq => by cases heq) pid _ _
    · cases hstep

/-- The others leave a kill command where it is. -/
theorem others_keep {h h' : Host W} {es : List (HostEvent W)} {w : W}
    (hrun : run hostStep h es = some h') (hes : ∀ e ∈ es, e.worker ≠ some w) :
    h'.pool.workers w = h.pool.workers w ∧ h'.kills w = h.kills w := by
  refine run_keeps (P := fun g => g.pool.workers w = h.pool.workers w ∧ g.kills w = h.kills w)
    ?_ hrun ⟨rfl, rfl⟩
  rintro g e g' he ⟨hworkers, hkills⟩ hg
  have hworker := hes e he
  cases hostRel_of_hostStep hg with
  | table hstep hkeep =>
    exact ⟨(workers_of_step hstep hworker).trans hworkers, (hkeep w hworker).trans hkills⟩
  | probe v hphase =>
    exact ⟨hworkers, (update_of_ne (fun heq => hworker (by rw [heq]; rfl)) _ _).trans hkills⟩
  | process he pid hpid hn => exact ⟨hworkers, hkills⟩

/-- A process that does not run under a pid never will again. -/
theorem running_ne {h h' : Host W} {es : List (HostEvent W)} {pid n : Nat}
    (hrun : run hostStep h es = some h') (hn : n < h.started) (hne : h.running pid ≠ some n) :
    h'.running pid ≠ some n := by
  refine (run_keeps (P := fun g => n < g.started ∧ g.running pid ≠ some n)
    ?_ hrun ⟨hn, hne⟩).2
  rintro g e g' - ⟨hlt, hne⟩ hg
  cases hostRel_of_hostStep hg with
  | table hstep hkeep => exact ⟨hlt, hne⟩
  | probe v hphase => exact ⟨hlt, hne⟩
  | process he pid' hpid hk =>
    refine ⟨Nat.lt_succ_of_lt hlt, ?_⟩
    show update g.running pid' _ pid ≠ some n
    by_cases heq : pid = pid'
    · rw [heq, update_self]
      intro hsome
      exact absurd (hk n hsome) hlt.ne
    · rwa [update_of_ne heq]

/-- The step frees the slot. -/
def HostFrees (i : Slot) (h : Host W) : HostEvent W → Prop
  | .table e => Frees h.pool i e
  | _ => False

/-- The connection has left the slot for good. -/
def Left (s : State W) (held : Held) : Prop :=
  held.serial < s.serials held.slot ∨
    s.serials held.slot = held.serial ∧ (s.connections held.slot).pid = none

theorem left_step {s s' : State W} {e : Event W} {held : Held} (hleft : Left s held)
    (h : step s e = some s') : Left s' held := by
  rcases slot_step (stepRel_of_step h) held.slot with ⟨hserial, hconn⟩ | ⟨-, hserial⟩
  · rcases hleft with hlt | ⟨heq, hnone⟩
    · exact .inl (by rw [hserial]; exact hlt)
    · refine .inr ⟨hserial.trans heq, ?_⟩
      rcases hconn with hnone' | hkeeps
      · exact hnone'
      · exact hkeeps.pid.trans hnone
  · rcases hleft with hlt | ⟨heq, -⟩
    · exact .inl (by omega)
    · exact .inl (by omega)

theorem occupied_step {s s' : State W} {e : Event W} {held : Held} (hocc : Occupied s held)
    (h : step s e = some s') :
    if (s'.connections held.slot).pid = none then Left s' held
    else Occupied s' held ∧ Keeps (s.connections held.slot) (s'.connections held.slot) := by
  rcases slot_step (stepRel_of_step h) held.slot with ⟨hserial, hconn⟩ | ⟨hnone, -⟩
  · split
    · rename_i hpid
      exact .inr ⟨hserial.trans hocc.2, hpid⟩
    · rename_i hpid
      exact ⟨⟨hpid, hserial.trans hocc.2⟩, hconn.resolve_left hpid⟩
  · exact absurd hnone hocc.1

omit [DecidableEq W] in
theorem not_occupied_of_left {s : State W} {held : Held} (hleft : Left s held) :
    ¬ Occupied s held := by
  intro h
  obtain ⟨hpid, hserial⟩ := h
  rcases hleft with hlt | ⟨-, hnone⟩
  · omega
  · exact hpid hnone

theorem left_hostStep {h h' : Host W} {e : HostEvent W} {held : Held} (hleft : Left h.pool held)
    (hh : hostStep h e = some h') : Left h'.pool held := by
  cases hostRel_of_hostStep hh with
  | table hstep hkills => exact left_step hleft hstep
  | probe v hphase => exact hleft
  | process he pid hpid hn => exact hleft

/-- The connection stays in its slot as long as no step frees the slot. -/
theorem occupied_iff {h h' : Host W} {es : List (HostEvent W)} {held : Held}
    (hocc : Occupied h.pool held) (hrun : run hostStep h es = some h') :
    Occupied h'.pool held ↔ AllSteps hostStep (fun g e => ¬ HostFrees held.slot g e) h es := by
  refine run_iff_allSteps (P := fun g => Occupied g.pool held) (Q := fun g => Left g.pool held)
    ?_ ?_ (fun g e g' => left_hostStep) (fun g => not_occupied_of_left) hocc hrun
  · intro g e g' hocc hkeep hg
    cases hostRel_of_hostStep hg with
    | table hstep hkills =>
      have hnext := occupied_step hocc hstep
      rw [if_neg fun hnone => hkeep (frees_of_pid_none (stepRel_of_step hstep) hocc.1 hnone)]
        at hnext
      exact hnext.1
    | probe v hphase => exact hocc
    | process he pid hpid hn => exact hocc
  · intro g e g' hocc hfrees hg
    rw [not_not] at hfrees
    cases hostRel_of_hostStep hg with
    | table hstep hkills =>
      have hnext := occupied_step hocc hstep
      rwa [if_pos (pid_none_of_frees hstep hfrees)] at hnext
    | probe v hphase => exact hfrees.elim
    | process he pid hpid hn =>
      cases e with
      | table e' => exact absurd rfl (he e')
      | _ => exact hfrees.elim

/-- The connection is in its slot with its path, or has left it. -/
def Traced (sockPath : CString) (held : Held) (s : State W) : Prop :=
  Occupied s held ∧ (s.connections held.slot).sockPath.bytes = sockPath.bytes ∨ Left s held

theorem traced_run {h h' : Host W} {es : List (HostEvent W)} {held : Held} {sockPath : CString}
    (hbefore : Traced sockPath held h.pool) (hrun : run hostStep h es = some h') :
    Traced sockPath held h'.pool := by
  refine run_keeps (P := fun g => Traced sockPath held g.pool) ?_ hrun hbefore
  rintro g e g' - (⟨hocc, hpath⟩ | hleft) hg
  · cases hostRel_of_hostStep hg with
    | table hstep hkills =>
      have hnext := occupied_step hocc hstep
      split at hnext
      · exact .inr hnext
      · exact .inl ⟨hnext.1, (congrArg CharBuf.bytes hnext.2.sockPath).trans hpath⟩
    | probe v hphase => exact .inl ⟨hocc, hpath⟩
    | process he pid hpid hn => exact .inl ⟨hocc, hpath⟩
  · exact .inr (left_hostStep hleft hg)

/-- A connection that is in its slot after a run was there before it. -/
theorem occupied_of_run {h h' : Host W} {es : List (HostEvent W)} {held : Held}
    {sockPath : CString} (hbefore : Traced sockPath held h.pool)
    (hrun : run hostStep h es = some h') (hocc : Occupied h'.pool held) :
    Occupied h.pool held := by
  rcases hbefore with ⟨hbefore, -⟩ | hleft
  · exact hbefore
  · have hleft' := run_keeps (P := fun g => Left g.pool held)
      (fun g e g' _ => left_hostStep) hrun hleft
    exact absurd hocc (not_occupied_of_left hleft')

/-! ## One kill command -/

/-- A run of a kill command that finds a slot and returns `SUCCESS`, with what the others do
between its steps. -/
structure KillRun (W : Type) [DecidableEq W] where
  worker : W
  sockPath : CString
  slot : Slot
  /-- The machine before and after each step of the command. -/
  start : Host W
  found : Host W
  probing : Host W
  probed : Host W
  signalling : Host W
  signalled : Host W
  closing : Host W
  closed : Host W
  beforeProbe : List (HostEvent W)
  beforeSignal : List (HostEvent W)
  beforeClose : List (HostEvent W)
  phase : start.pool.workers worker = .adminFind sockPath
  finds : adminFindSlot start.pool.connections sockPath = some slot
  find : hostStep start (.table (.adminFind worker)) = some found
  toProbe : run hostStep found beforeProbe = some probing
  probe : hostStep probing (.probe worker) = some probed
  toSignal : run hostStep probed beforeSignal = some signalling
  signal : hostStep signalling (.table (.adminSignal worker)) = some signalled
  toClose : run hostStep signalled beforeClose = some closing
  close : hostStep closing (.table (.adminClose worker)) = some closed
  others : ∀ e ∈ beforeProbe ++ beforeSignal ++ beforeClose, e.worker ≠ some worker

namespace KillRun

variable (r : KillRun W)

/-- The connection in the slot when it is found. -/
def held : Held := ⟨r.slot, r.start.pool.serials r.slot⟩

def helperPid : Nat := (r.start.pool.connections r.slot).helperPid

/-- The processes that the command sent a `SIGTERM`. -/
def sent : List Nat := (r.closed.kills r.worker).sent

/-- A step changes no slot but `i`. -/
def OnlySlot (i : Slot) (h h' : Host W) : Prop :=
  ∀ j, j ≠ i → h'.pool.connections j = h.pool.connections j

/-- What the command is for.  The helper is the process that runs under the recorded pid when
the slot is found. -/
structure ActsRight : Prop where
  /-- The slot is still occupied by the connection with the path when it is cleared. -/
  occupied : Occupied r.closing.pool r.held
  sockPath : (r.closing.pool.connections r.slot).sockPath.bytes = r.sockPath.bytes
  cleared : (r.closed.pool.connections r.slot).pid = none
  /-- A helper that is alive when the command looks is signalled. -/
  terminated : ∀ n, r.start.running r.helperPid = some n →
    r.probing.running r.helperPid = some n → n ∈ r.sent
  /-- No other process is. -/
  onlyHelper : ∀ n ∈ r.sent, r.start.running r.helperPid = some n
  onlySlot : OnlySlot r.slot r.start r.found ∧ OnlySlot r.slot r.probing r.probed ∧
    OnlySlot r.slot r.signalling r.signalled ∧ OnlySlot r.slot r.closing r.closed

/-- The steps in between free no slot of the command, the helper is gone when the command looks,
and its pid is not used again before the signal. -/
structure Undisturbed : Prop where
  kept : AllSteps hostStep (fun h e => ¬ HostFrees r.slot h e) r.found r.beforeProbe ∧
    AllSteps hostStep (fun h e => ¬ HostFrees r.slot h e) r.probed r.beforeSignal ∧
    AllSteps hostStep (fun h e => ¬ HostFrees r.slot h e) r.signalled r.beforeClose
  exited : ∀ n, r.start.running r.helperPid = some n → r.probing.running r.helperPid ≠ some n
  unused : r.probing.running r.helperPid = none → r.signalling.running r.helperPid = none

/-! ## The steps of the command -/

theorem found_eq : r.found =
    { r.start.setKill r.worker {} with
      pool := r.start.pool.setPhase r.worker (.adminSignal r.slot r.helperPid) } := by
  have hfind := r.find
  simp only [hostStep, tableStep, step, r.phase, r.finds, Option.map_some] at hfind
  exact (Option.some.inj hfind).symm

theorem phase_probing : r.probing.pool.workers r.worker = .adminSignal r.slot r.helperPid ∧
    r.probing.kills r.worker = {} := by
  obtain ⟨hworker, hkill⟩ := others_keep r.toProbe fun e he =>
    r.others e (List.mem_append_left _ (List.mem_append_left _ he))
  rw [hworker, hkill, r.found_eq]
  exact ⟨State.setPhase_self _ _ _, update_self _ _ _⟩

theorem probed_eq : r.probed =
    r.probing.setKill r.worker { alive := some (r.probing.alive r.helperPid) } := by
  obtain ⟨hworker, hkill⟩ := r.phase_probing
  have hprobe := r.probe
  simp only [hostStep, hworker, hkill] at hprobe
  exact (Option.some.inj hprobe).symm

theorem phase_signalling :
    r.signalling.pool.workers r.worker = .adminSignal r.slot r.helperPid ∧
      r.signalling.kills r.worker = { alive := some (r.probing.alive r.helperPid) } := by
  obtain ⟨hworker, hkill⟩ := others_keep r.toSignal fun e he =>
    r.others e (List.mem_append_left _ (List.mem_append_right _ he))
  rw [hworker, hkill, r.probed_eq]
  exact ⟨r.phase_probing.1, update_self _ _ _⟩

theorem signalled_eq : r.signalled =
    { r.signalling.setKill r.worker
        { alive := some (r.probing.alive r.helperPid)
          sent := if r.probing.alive r.helperPid then []
            else (r.signalling.running r.helperPid).toList } with
      pool := r.signalling.pool.setPhase r.worker (.adminClose r.slot) } := by
  obtain ⟨hworker, hkill⟩ := r.phase_signalling
  have hsignal := r.signal
  simp only [hostStep, tableStep, step, hworker, hkill, Option.map_some] at hsignal
  exact (Option.some.inj hsignal).symm

theorem phase_closing : r.closing.pool.workers r.worker = .adminClose r.slot ∧
    r.closing.kills r.worker = r.signalled.kills r.worker := by
  obtain ⟨hworker, hkill⟩ := others_keep r.toClose fun e he =>
    r.others e (List.mem_append_right _ he)
  rw [hworker, r.signalled_eq] at *
  exact ⟨State.setPhase_self _ _ _, hkill⟩

theorem closed_eq : r.closed =
    { r.closing with
      pool := ((r.closing.pool.setConnection r.slot
          (dbCloseConnection (r.closing.pool.connections r.slot)).1).logClosed r.worker
        (dbCloseConnection (r.closing.pool.connections r.slot)).2).setPhase r.worker .idle } := by
  have hclose := r.close
  simp only [hostStep, tableStep, step, r.phase_closing.1, Option.map_some] at hclose
  exact (Option.some.inj hclose).symm

/-- The command signals the process under the pid, if `kill(pid, 0)` found none. -/
theorem sent_eq : r.sent =
    if r.probing.alive r.helperPid then []
    else (r.signalling.running r.helperPid).toList := by
  rw [sent, r.closed_eq]
  show (r.closing.kills r.worker).sent = _
  rw [r.phase_closing.2, r.signalled_eq]
  show (update r.signalling.kills r.worker _ r.worker).sent = _
  rw [update_self]

/-! ## The slot -/

theorem traced_found : Occupied r.found.pool r.held ∧
    (r.found.pool.connections r.slot).sockPath.bytes = r.sockPath.bytes := by
  have hsome := List.find?_some r.finds
  simp only [Bool.and_eq_true, decide_eq_true_eq] at hsome
  rw [r.found_eq]
  exact ⟨⟨Option.isSome_iff_ne_none.1 hsome.1, rfl⟩, hsome.2⟩

theorem traced_probed : Traced r.sockPath r.held r.probed.pool := by
  have htraced := traced_run (.inl r.traced_found) r.toProbe
  rw [r.probed_eq]
  exact htraced

theorem traced_signalled : Traced r.sockPath r.held r.signalled.pool := by
  have htraced := traced_run r.traced_probed r.toSignal
  rw [r.signalled_eq]
  exact htraced

theorem traced_closing : Traced r.sockPath r.held r.closing.pool :=
  traced_run r.traced_signalled r.toClose

theorem occupied_probed_iff :
    Occupied r.probed.pool r.held ↔ Occupied r.probing.pool r.held := by
  rw [r.probed_eq]
  rfl

theorem occupied_signalled_iff :
    Occupied r.signalled.pool r.held ↔ Occupied r.signalling.pool r.held := by
  rw [r.signalled_eq]
  rfl

/-- The connection is still there when the slot is cleared exactly if no step freed the slot. -/
theorem occupied_closing_iff : Occupied r.closing.pool r.held ↔
    AllSteps hostStep (fun h e => ¬ HostFrees r.slot h e) r.found r.beforeProbe ∧
      AllSteps hostStep (fun h e => ¬ HostFrees r.slot h e) r.probed r.beforeSignal ∧
      AllSteps hostStep (fun h e => ¬ HostFrees r.slot h e) r.signalled r.beforeClose := by
  constructor
  · intro hclosing
    have hsignalled := occupied_of_run r.traced_signalled r.toClose hclosing
    have hsignalling := r.occupied_signalled_iff.1 hsignalled
    have hprobed := occupied_of_run r.traced_probed r.toSignal hsignalling
    have hprobing := r.occupied_probed_iff.1 hprobed
    exact ⟨(occupied_iff r.traced_found.1 r.toProbe).1 hprobing,
      (occupied_iff hprobed r.toSignal).1 hsignalling,
      (occupied_iff hsignalled r.toClose).1 hclosing⟩
  · intro hgiven
    obtain ⟨hprobe, hsignal, hclose⟩ := hgiven
    have hprobing := (occupied_iff r.traced_found.1 r.toProbe).2 hprobe
    have hprobed := r.occupied_probed_iff.2 hprobing
    have hsignalling := (occupied_iff hprobed r.toSignal).2 hsignal
    have hsignalled := r.occupied_signalled_iff.2 hsignalling
    exact (occupied_iff hsignalled r.toClose).2 hclose

/-- The steps of the command change no other slot, and clear this one. -/
theorem onlySlot : OnlySlot r.slot r.start r.found ∧ OnlySlot r.slot r.probing r.probed ∧
    OnlySlot r.slot r.signalling r.signalled ∧ OnlySlot r.slot r.closing r.closed := by
  rw [r.found_eq, r.probed_eq, r.signalled_eq, r.closed_eq]
  exact ⟨fun j _ => rfl, fun j _ => rfl, fun j _ => rfl, fun j hj => update_of_ne hj _ _⟩

theorem cleared : (r.closed.pool.connections r.slot).pid = none := by
  rw [r.closed_eq]
  exact congrArg Connection.pid (update_self r.slot _ r.closing.pool.connections)

/-! ## The helper -/

omit [DecidableEq W] in
theorem alive_of_running {h : Host W} {pid n : Nat} (hn : h.running pid = some n) :
    h.alive pid = true := by
  rw [Host.alive, hn]
  exact Bool.or_true _

theorem started_probing : r.start.started ≤ r.probing.started := by
  have hfound : r.start.started ≤ r.found.started := by
    rw [r.found_eq]
    exact Nat.le_refl _
  refine run_keeps (P := fun g => r.start.started ≤ g.started) ?_ r.toProbe hfound
  intro g e g' _ hle hg
  cases hostRel_of_hostStep hg with
  | table hstep hkills => exact hle
  | probe v hphase => exact hle
  | process he pid hpid hn => exact Nat.le_succ_of_le hle

/-- A helper that is alive when the command looks is not signalled. -/
theorem terminated_iff :
    (∀ n, r.start.running r.helperPid = some n →
        r.probing.running r.helperPid = some n → n ∈ r.sent) ↔
      ∀ n, r.start.running r.helperPid = some n → r.probing.running r.helperPid ≠ some n := by
  refine forall₂_congr fun n hn => ⟨fun h hprobing => ?_, fun h hprobing => absurd hprobing h⟩
  have hsent := h hprobing
  rw [r.sent_eq, if_pos (alive_of_running hprobing)] at hsent
  exact List.not_mem_nil hsent

/-- The signal goes to no other process exactly if the pid is not used again. -/
theorem onlyHelper_iff :
    (∀ n ∈ r.sent, r.start.running r.helperPid = some n) ↔
      (r.probing.running r.helperPid = none → r.signalling.running r.helperPid = none) := by
  rw [r.sent_eq]
  constructor
  · intro h hprobing
    by_contra hsignalling
    obtain ⟨n, hn⟩ := Option.ne_none_iff_exists'.1 hsignalling
    have hpid : r.helperPid ≠ 0 := by
      intro hzero
      rw [hzero, r.signalling.running_zero] at hn
      cases hn
    have halive : r.probing.alive r.helperPid = false := by
      simp [Host.alive, hpid, hprobing]
    rw [halive, hn] at h
    have hstart := h n (by simp)
    -- The process has a new number.
    have hlt : n < r.probing.started :=
      Nat.lt_of_lt_of_le (r.start.running_lt _ n hstart) r.started_probing
    have hne : r.probed.running r.helperPid ≠ some n := by
      rw [r.probed_eq]
      show r.probing.running r.helperPid ≠ some n
      rw [hprobing]
      exact (Option.some_ne_none n).symm
    refine running_ne r.toSignal ?_ hne hn
    rw [r.probed_eq]
    exact hlt
  · intro h n hn
    split at hn
    · exact absurd hn List.not_mem_nil
    · rename_i halive
      have hprobing : r.probing.running r.helperPid = none := by
        simp only [Host.alive, Bool.or_eq_true, not_or] at halive
        simpa using halive.2
      rw [h hprobing] at hn
      exact absurd hn List.not_mem_nil

/-- The test of `kill(pid, 0)` is the wrong way round, and the slot is looked up in one critical
section and cleared in another. -/
theorem actsRight_iff : r.ActsRight ↔ r.Undisturbed := by
  constructor
  · intro h
    exact ⟨r.occupied_closing_iff.1 h.occupied, r.terminated_iff.1 h.terminated,
      r.onlyHelper_iff.1 h.onlyHelper⟩
  · intro h
    have hocc := r.occupied_closing_iff.2 h.kept
    refine ⟨hocc, ?_, r.cleared, r.terminated_iff.2 h.exited, r.onlyHelper_iff.2 h.unused,
      r.onlySlot⟩
    rcases r.traced_closing with ⟨-, hpath⟩ | hleft
    · exact hpath
    · exact absurd hocc (not_occupied_of_left hleft)

end KillRun

/-! ## A helper that does not exit -/

/-- A connector on `/tmp/c` whose helper, with the pid 4242, is still alive after the `DIE`. -/
def stubbornTable : Table Unit := fun i =>
  if i = ⟨7, by decide⟩ then
    { pid := some (), helperPid := 4242, sockPath := ⟨ascii "/tmp/c", by decide, by decide⟩ }
  else {}

def stubbornHost (phase : Phase Unit) (kill : Kill) (connections : Table Unit) : Host Unit where
  pool := { initial 0 with connections := connections, workers := fun _ => phase }
  running := fun pid => if pid = 4242 then some 0 else none
  started := 1
  kills := fun _ => kill
  running_lt := by
    intro pid n h
    split at h
    · obtain rfl := Option.some.inj h
      exact Nat.one_pos
    · cases h
  running_zero := rfl

theorem finds_stubborn : adminFindSlot stubbornTable ⟨ascii "/tmp/c", by decide⟩ =
    some ⟨7, by decide⟩ := by
  decide +kernel

def stubbornClosed : Table Unit :=
  update stubbornTable ⟨7, by decide⟩ (dbZeroConnection (stubbornTable ⟨7, by decide⟩))

def stubbornKill : KillRun Unit where
  worker := ()
  sockPath := ⟨ascii "/tmp/c", by decide⟩
  slot := ⟨7, by decide⟩
  start := stubbornHost (.adminFind ⟨ascii "/tmp/c", by decide⟩) {} stubbornTable
  found := stubbornHost (.adminSignal ⟨7, by decide⟩ 4242) {} stubbornTable
  probing := stubbornHost (.adminSignal ⟨7, by decide⟩ 4242) {} stubbornTable
  probed := stubbornHost (.adminSignal ⟨7, by decide⟩ 4242) { alive := some true } stubbornTable
  signalling :=
    stubbornHost (.adminSignal ⟨7, by decide⟩ 4242) { alive := some true } stubbornTable
  signalled := stubbornHost (.adminClose ⟨7, by decide⟩) { alive := some true } stubbornTable
  closing := stubbornHost (.adminClose ⟨7, by decide⟩) { alive := some true } stubbornTable
  closed := stubbornHost .idle { alive := some true } stubbornClosed
  beforeProbe := []
  beforeSignal := []
  beforeClose := []
  phase := rfl
  finds := finds_stubborn
  find := by
    simp only [hostStep, tableStep, step, stubbornHost, finds_stubborn]
    rfl
  toProbe := rfl
  probe := rfl
  toSignal := rfl
  signal := rfl
  toClose := rfl
  close := rfl
  others := by simp

/-- The helper is alive, so `kill(pid, 0)` is 0, and no signal is sent. -/
theorem not_actsRight_stubborn : ¬ stubbornKill.ActsRight := by
  intro h
  have hsent : (0 : Nat) ∈ stubbornKill.sent := h.terminated 0 rfl rfl
  exact List.not_mem_nil hsent

end DbRelay.Pool
