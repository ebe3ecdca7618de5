import DbRelay.Pool.Sections
import DbRelay.Pool.System

/-!
# The workers under the semaphore

`sections` carries out the steps of `DbRelay.Pool.System` that need the table in the
accesses of `DbRelay.Pool.Sections`, under the semaphore of `shmem.c`.  Everything else
a worker does, and every death, may come between two accesses of another worker.

`dbrelay_lock_shmem` compares the result of `semop` with `1`, so it does not see that a
signal ended the wait.  Such a worker goes on into its section, and its unlock adds to
the semaphore what it did not take.

* `card_inside_le` says how many workers can then be in a section, and
  `exists_card_inside` that this many can.
* `run_refines_atomic` says what the step system leaves out: runs in which a wait is
  interrupted, or the clock or the set of live workers changes while a section runs.
* `complete_of_run` needs only that no wait is interrupted.  Whatever other workers do
  or wherever they die, an occupied slot holds a record that one request filled in.
-/

namespace DbRelay.Pool

open Function CriticalSection

variable {W : Type}

/-! ## The sections of the step system -/

def Event.kind : Event W → Kind W
  | .find w | .alloc w _ | .reap w | .copy w | .cleanup w | .setHelper w | .release w
  | .adminFind w | .adminClose w => .locks w
  | .die w => .exits w
  | .tick _ => .environment
  | .spawn w | .arrive w _ | .openConnection w _ | .readClock w | .connect w _
  | .connInitialize w _ | .finish w | .adminArrive w _ | .adminSignal w => .moves w

/-- The event changes neither the clock nor who is alive. -/
def Event.steady : Event W → Bool
  | .spawn _ | .die _ | .tick _ => false
  | _ => true

/-- The path that the section of the event gives a new record. -/
def Event.path : Event W → Phase W → Option SockPath
  | .alloc _ tmpnam, .allocate request _ => (newSockPath request tmpnam).join
  | _, _ => none

/-- The section that worker `w` runs in a phase. -/
def sectionCode (w : W) (path : Option SockPath) : Phase W → TableCode W
  | .getConnection request => findCode request
  | .allocate request db => allocCode w request db path
  | .reap _ _ now => reapCode now
  | .copy _ held => copyCode held.slot
  | .cleanup _ held => cleanupCode held.slot
  | .setHelper _ held _ pid => setHelperCode held.slot pid
  | .release _ held => releaseCode held.slot
  | .adminFind sockPath => adminFindCode sockPath
  | .adminClose slot => adminCloseCode slot
  | _ => .done (.slot none)

/-- The phase in which a section starts. -/
def Event.starts : Event W → Phase W → Bool
  | .find _, .getConnection request => request.named
  | .alloc _ tmpnam, .allocate request _ => (newSockPath request tmpnam).isSome
  | .reap _, .reap _ _ _ => true
  | .copy _, .copy _ _ => true
  | .cleanup _, .cleanup _ _ => true
  | .setHelper _, .setHelper _ _ _ _ => true
  | .release _, .release _ _ => true
  | .adminFind _, .adminFind _ => true
  | .adminClose _, .adminClose _ => true
  | _, _ => false

/-- An allocation starts when there is a path that fits. -/
theorem exists_path_of_starts {w : W} {tmpnam : Option SockPath} {request : Request}
    {db : Option Handle}
    (h : (Event.alloc w tmpnam).starts (.allocate request db) = true) :
    ∃ path, newSockPath request tmpnam = some path := by
  have hsome : (newSockPath request tmpnam).isSome = true := h
  exact Option.isSome_iff_exists.1 hsome

variable [DecidableEq W]

/-- What worker `w` does after the section that it ran in a phase. -/
def leaveSection (s : State W) (w : W) (path : Option SockPath) :
    Phase W → Outcome W → State W
  | .getConnection request, .slot (some i) =>
    s.setPhase w (.readClock request (some ⟨i, s.serials i⟩))
  | .getConnection request, .slot none => s.setPhase w (.allocate request none)
  | .allocate request db, .slot (some i) =>
    { s with
      serials := update s.serials i (s.serials i + 1)
      launched :=
        match launchPath request path with
        | some path => update s.launched path (some request)
        | none => s.launched }.setPhase w
      (.readClock (dbPopulateConnection request db path s.now w).1
        (some ⟨i, s.serials i + 1⟩))
  | .allocate request db, .slot none =>
    (s.logClosed w db.toList).setPhase w (.readClock request none)
  | .reap request (some held) _, .closed handles =>
    (s.logClosed w handles).setPhase w (.copy request held)
  | .reap _ none _, .closed handles => (s.logClosed w handles).setPhase w .idle
  | .copy request held, .copied conn =>
    if request.named then s.setPhase w (.connect request held conn)
    else s.setPhase w (.query request held conn)
  | .cleanup request _, .closed _ => s.setPhase w (.getConnection request)
  | .setHelper request held conn _, .closed _ => s.setPhase w (.query request held conn)
  | .release _ _, .closed handles => (s.logClosed w handles).setPhase w .idle
  | .adminFind _, .helper (some (i, pid)) => s.setPhase w (.adminSignal i pid)
  | .adminFind _, .helper none => s.setPhase w .idle
  | .adminClose _, .closed handles => (s.logClosed w handles).setPhase w .idle
  | _, _ => s

def State.setTable (s : State W) (connections : Table W) : State W :=
  { s with connections := connections }

def State.answers (s : State W) : Answers W := ⟨s.now, s.alive⟩

/-- The step system, and the code of its sections. -/
def sections : Sections W (State W) (Event W) (Table W) (Answers W) (Outcome W) where
  step := step
  kind := Event.kind
  memory := State.connections
  setMemory := State.setTable
  answer := State.answers
  steady := Event.steady
  code := fun s e =>
    match e.kind with
    | .locks w => sectionCode w (e.path (s.workers w)) (s.workers w)
    | _ => .done (.slot none)
  leave := fun s e outcome =>
    match e.kind with
    | .locks w => leaveSection s w (e.path (s.workers w)) (s.workers w) outcome
    | _ => s

/-! ## The laws -/

/-- Whether a section starts is decided by the phase of its worker. -/
theorem isSome_step {s : State W} {e : Event W} {w : W} (hkind : e.kind = .locks w) :
    (step s e).isSome = e.starts (s.workers w) := by
  cases e <;> cases hkind
  case find =>
    cases hphase : s.workers w with
    | getConnection request =>
      cases hnamed : request.named with
      | true =>
        simp only [step, hphase, hnamed, if_true, Event.starts]
        cases dbFindSlot s.connections request <;> rfl
      | false => simp [step, hphase, hnamed, Event.starts]
    | _ => simp [step, hphase, Event.starts]
  case alloc tmpnam =>
    cases hphase : s.workers w with
    | allocate request db =>
      simp only [step, hphase, Event.starts]
      cases newSockPath request tmpnam with
      | none => rfl
      | some path => cases firstFree s.connections <;> rfl
    | _ => simp [step, hphase, Event.starts]
  case reap =>
    cases hphase : s.workers w with
    | reap request held now =>
      simp only [step, hphase, Event.starts]
      cases held <;> rfl
    | _ => simp [step, hphase, Event.starts]
  case copy =>
    cases hphase : s.workers w with
    | copy request held =>
      simp only [step, hphase, Event.starts]
      cases request.named <;> rfl
    | _ => simp [step, hphase, Event.starts]
  case adminFind =>
    cases hphase : s.workers w with
    | adminFind sockPath =>
      simp only [step, hphase, Event.starts]
      cases adminFindSlot s.connections sockPath <;> rfl
    | _ => simp [step, hphase, Event.starts]
  all_goals
    cases hphase : s.workers w <;> simp [step, hphase, Event.starts]

/-- A step that is not a section does not look at the table. -/
theorem step_setTable {s : State W} {e : Event W} (connections : Table W)
    (hkind : ∀ w, e.kind ≠ .locks w) :
    step (s.setTable connections) e = (step s e).map fun s' => s'.setTable connections := by
  have hworkers : (s.setTable connections).workers = s.workers := rfl
  cases e with
  | find w | alloc w _ | reap w | copy w | cleanup w | setHelper w | release w
  | adminFind w | adminClose w => exact absurd rfl (hkind w)
  | tick seconds => rfl
  | die w =>
    simp only [step, hworkers]
    split <;> rfl
  | connInitialize w helperPid =>
    simp only [step, hworkers]
    split
    · split <;> rfl
    · rfl
  | openConnection w ok =>
    simp only [step, hworkers]
    split
    · split
      · rfl
      · cases ok <;> rfl
    · rfl
  | connect w ok =>
    simp only [step, hworkers]
    split
    · cases ok <;> rfl
    · rfl
  | spawn w | arrive w _ | readClock w | finish w | adminArrive w _ | adminSignal w =>
    simp only [step, hworkers]
    split <;> rfl

/-- The worker that a step which is not a section moves. -/
theorem moves_of_step {s s' : State W} {e : Event W} (hkind : ∀ w, e.kind ≠ .locks w)
    (h : step s e = some s') :
    (s'.workers = s.workers ∧ e.steady = false) ∨
    ∃ w phase, (e.kind = .moves w ∨ e.kind = .exits w) ∧
      s'.workers = update s.workers w phase ∧
      (e.steady = true → s.workers w ≠ .dead ∧ phase ≠ .dead ∧ s'.now = s.now) := by
  cases e with
  | find w | alloc w _ | reap w | copy w | cleanup w | setHelper w | release w
  | adminFind w | adminClose w => exact absurd rfl (hkind w)
  | tick seconds =>
    obtain rfl := Option.some.inj h
    exact .inl ⟨rfl, rfl⟩
  | spawn w =>
    simp only [step] at h
    split at h
    · obtain rfl := Option.some.inj h
      exact .inr ⟨w, _, .inl rfl, rfl, fun hsteady => by cases hsteady⟩
    · cases h
  | die w =>
    simp only [step] at h
    split at h
    · cases h
    · obtain rfl := Option.some.inj h
      exact .inr ⟨w, _, .inr rfl, rfl, fun hsteady => by cases hsteady⟩
  | connInitialize w helperPid =>
    simp only [step] at h
    split at h
    · rename_i hphase
      split at h <;>
      · obtain rfl := Option.some.inj h
        exact .inr ⟨w, _, .inl rfl, rfl, fun _ => ⟨by simp [hphase], by simp, rfl⟩⟩
    · cases h
  | openConnection w ok =>
    simp only [step] at h
    split at h
    · rename_i hphase
      split at h
      · cases h
      · cases ok with
        | true =>
          obtain rfl := Option.some.inj h
          exact .inr ⟨w, _, .inl rfl, rfl, fun _ => ⟨by simp [hphase], by simp, rfl⟩⟩
        | false =>
          obtain rfl := Option.some.inj h
          exact .inr ⟨w, _, .inl rfl, rfl, fun _ => ⟨by simp [hphase], by simp, rfl⟩⟩
    · cases h
  | connect w ok =>
    simp only [step] at h
    split at h
    · rename_i hphase
      cases ok with
      | true =>
        obtain rfl := Option.some.inj h
        exact .inr ⟨w, _, .inl rfl, rfl, fun _ => ⟨by simp [hphase], by simp, rfl⟩⟩
      | false =>
        obtain rfl := Option.some.inj h
        exact .inr ⟨w, _, .inl rfl, rfl, fun _ => ⟨by simp [hphase], by simp, rfl⟩⟩
    · cases h
  | arrive w _ | readClock w | finish w | adminArrive w _ | adminSignal w =>
    simp only [step] at h
    split at h
    · rename_i hphase
      obtain rfl := Option.some.inj h
      exact .inr ⟨w, _, .inl rfl, rfl, fun _ => ⟨by simp [hphase], by simp, rfl⟩⟩
    · cases h

theorem workers_of_apart {s s' : State W} {e : Event W} {w : W}
    (hapart : sections.Apart e w) (h : step s e = some s') : s'.workers w = s.workers w := by
  have hkind : ∀ v, e.kind ≠ .locks v := by
    intro v hv
    have hfalse : sections.Apart e w = False := by
      simp only [Sections.Apart, sections, hv]
    rwa [hfalse] at hapart
  obtain ⟨hsame, _⟩ | ⟨v, phase, hv, hworkers, _⟩ := moves_of_step hkind h
  · rw [hsame]
  · have hne : v ≠ w := by
      obtain hv | hv := hv <;> simpa only [Sections.Apart, sections, hv] using hapart
    rw [hworkers, update_of_ne hne.symm]

/-- A steady step changes neither the clock nor who is alive. -/
theorem answers_of_steady {s s' : State W} {e : Event W} (hkind : ∀ w, e.kind ≠ .locks w)
    (hsteady : e.steady = true) (h : step s e = some s') : s'.answers = s.answers := by
  obtain ⟨_, hnot⟩ | ⟨v, phase, _, hworkers, hrest⟩ := moves_of_step hkind h
  · rw [hsteady] at hnot
    cases hnot
  · obtain ⟨halive, halive', hnow⟩ := hrest hsteady
    have hsame : s'.alive = s.alive := by
      funext w
      rw [State.alive, State.alive, hworkers]
      by_cases hw : w = v
      · subst hw
        rw [update_self]
        simp [halive, halive']
      · rw [update_of_ne hw]
    rw [State.answers, State.answers, hnow, hsame]

/-- A section without a break is the step of its event. -/
theorem step_eq_leave {s : State W} {e : Event W} {w : W} (hkind : e.kind = .locks w)
    (hstarts : e.starts (s.workers w) = true) :
    step s e =
      some (leaveSection
        (s.setTable ((sectionCode w (e.path (s.workers w)) (s.workers w)).finish s.answers
          s.connections).1)
        w (e.path (s.workers w)) (s.workers w)
        ((sectionCode w (e.path (s.workers w)) (s.workers w)).finish s.answers
          s.connections).2) := by
  cases e <;> cases hkind
  case find =>
    cases hphase : s.workers w with
    | getConnection request =>
      rw [hphase] at hstarts
      have hnamed : request.named = true := hstarts
      simp only [step, hphase, hnamed, if_true, sectionCode, finish_findCode]
      cases dbFindSlot s.connections request <;> rfl
    | _ => simp [hphase, Event.starts] at hstarts
  case alloc tmpnam =>
    cases hphase : s.workers w with
    | allocate request db =>
      rw [hphase] at hstarts
      obtain ⟨path, hpath⟩ := exists_path_of_starts hstarts
      simp only [step, hphase, sectionCode, finish_allocCode, Event.path, hpath, Option.join_some]
      cases firstFree s.connections <;> rfl
    | _ => simp [hphase, Event.starts] at hstarts
  case reap =>
    cases hphase : s.workers w with
    | reap request held now =>
      simp only [step, hphase, sectionCode, finish_reapCode]
      cases held <;>
      · simp only [State.reapAll, leaveSection, State.logClosed, List.map_flatMap]
        rfl
    | _ => simp [hphase, Event.starts] at hstarts
  case copy =>
    cases hphase : s.workers w with
    | copy request held =>
      simp only [step, hphase, sectionCode]
      cases hnamed : request.named <;>
      · simp only [copyCode, finish_examine, Code.finish_done, leaveSection, hnamed, if_true,
          Bool.false_eq_true, if_false]
        rfl
    | _ => simp [hphase, Event.starts] at hstarts
  case cleanup =>
    cases hphase : s.workers w with
    | cleanup request held =>
      simp only [step, hphase]
      rfl
    | _ => simp [hphase, Event.starts] at hstarts
  case setHelper =>
    cases hphase : s.workers w with
    | setHelper request held conn pid =>
      simp only [step, hphase]
      rfl
    | _ => simp [hphase, Event.starts] at hstarts
  case release =>
    cases hphase : s.workers w with
    | release request held =>
      simp only [step, hphase, sectionCode, finish_releaseCode]
      rfl
    | _ => simp [hphase, Event.starts] at hstarts
  case adminFind =>
    cases hphase : s.workers w with
    | adminFind sockPath =>
      simp only [step, hphase, sectionCode, finish_adminFindCode]
      cases adminFindSlot s.connections sockPath <;> rfl
    | _ => simp [hphase, Event.starts] at hstarts
  case adminClose =>
    cases hphase : s.workers w with
    | adminClose slot =>
      simp only [step, hphase, sectionCode, adminCloseCode, finish_closeCode]
      rfl
    | _ => simp [hphase, Event.starts] at hstarts

/-- What is outside the table stays as it is when the table is replaced. -/
theorem leaveSection_connections (s : State W) (w : W) (path : Option SockPath)
    (phase : Phase W) (outcome : Outcome W) :
    (leaveSection s w path phase outcome).connections = s.connections := by
  unfold leaveSection
  split
  case h_7 => split <;> rfl
  all_goals rfl


theorem sections_memory_leave (s : State W) (e : Event W) (outcome : Outcome W) :
    sections.memory (sections.leave s e outcome) = sections.memory s := by
  simp only [sections]
  split
  · exact leaveSection_connections s _ _ _ outcome
  · rfl

theorem sections_enabled (s : State W) (connections : Table W) (e : Event W) :
    (step (s.setTable connections) e).isSome = (step s e).isSome := by
  by_cases hlocks : ∃ w, e.kind = .locks w
  · obtain ⟨w, hw⟩ := hlocks
    rw [isSome_step hw, isSome_step hw]
    rfl
  · rw [step_setTable connections fun w hw => hlocks ⟨w, hw⟩, Option.isSome_map]

theorem sections_frame (s s' : State W) (e e' : Event W) (w : W) (hkind : e'.kind = .locks w)
    (hapart : sections.Apart e w) (hstep : step s e = some s') (henabled : (step s e').isSome) :
    sections.code s' e' = sections.code s e' ∧ (step s' e').isSome := by
  have hworkers : s'.workers w = s.workers w := workers_of_apart hapart hstep
  refine ⟨?_, ?_⟩
  · simp only [sections, hkind, hworkers]
  · rw [isSome_step hkind, hworkers, ← isSome_step hkind]
    exact henabled

theorem sections_atomic (s : State W) (e : Event W) (w : W) (hkind : e.kind = .locks w)
    (henabled : (step s e).isSome) :
    step s e = some (sections.leave
      (s.setTable ((sections.code s e).finish s.answers s.connections).1) e
      ((sections.code s e).finish s.answers s.connections).2) := by
  have hstarts : e.starts (s.workers w) = true := (isSome_step hkind).symm.trans henabled
  rw [step_eq_leave hkind hstarts]
  simp only [sections, hkind]
  rfl

theorem sections_steady (s s' : State W) (e : Event W) (hkind : ∀ w, e.kind ≠ .locks w)
    (hsteady : e.steady = true) (hstep : step s e = some s') :
    (∀ w, e.kind ≠ .exits w) ∧ s'.answers = s.answers := by
  refine ⟨fun w hw => ?_, answers_of_steady hkind hsteady hstep⟩
  cases e <;> cases hw
  cases hsteady

theorem lawful_sections : Lawful (sections : Sections W _ _ _ _ _) where
  memory_setMemory := fun _ _ => rfl
  setMemory_memory := fun _ => rfl
  setMemory_setMemory := fun _ _ _ => rfl
  answer_setMemory := fun _ _ => rfl
  code_setMemory := fun _ _ _ => rfl
  memory_leave := sections_memory_leave
  blind := fun _ connections _ hkind => by
    simp only [sections] at hkind ⊢
    exact step_setTable connections hkind
  enabled_setMemory := fun s connections e => by
    simp only [sections]
    exact sections_enabled s connections e
  frame := sections_frame
  steady := sections_steady
  atomic := sections_atomic

/-! ## The runs -/

/-- The state of the workers under the semaphore. -/
abbrev FineState (W : Type) := Fine W (State W) (Event W) (Table W) (Answers W) (Outcome W)

/-- No worker is in a section, and the table is the one of `dbrelay_create_shmem`. -/
def fineInitial (now : Int) : FineState W := .initial (initial now)

/-- A run from there. -/
def fineRun (now : Int) (es : List (FineEvent W (Event W))) : Option (FineState W) :=
  StepSystem.run (fineStep sections) (fineInitial now) es

/-! ## How many workers are in a section -/

theorem card_inside_le [Fintype W] {now : Int} {es : List (FineEvent W (Event W))}
    {f : FineState W} (hrun : fineRun now es = some f) :
    1 ≤ f.sem.value + f.sem.inside.card ∧
      f.sem.inside.card ≤ 1 + interruptions es := by
  obtain ⟨ops, hops, hcount⟩ := sem_run hrun
  have hbounds := Semaphore.bounds_run Semaphore.bounds_initial hops
  have hupper := hbounds.upper
  refine ⟨hbounds.lower (Semaphore.kept_run Semaphore.kept_initial hops), ?_⟩
  omega

/-- Requests arrive at workers that are idle, and nothing happens to the others. -/
theorem run_arrivals (request : Request) (ws : List W) : ∀ f : FineState W, ws.Nodup →
    (∀ w ∈ ws, f.world.workers w = .idle ∧ f.running w = none) →
    ∃ f', StepSystem.run (fineStep sections) f
        (ws.map fun w => .plain (.arrive w request)) = some f' ∧
      f'.sem = f.sem ∧ (∀ w ∈ ws, f'.world.workers w = .getConnection request) ∧
      ∀ w, w ∉ ws → f'.world.workers w = f.world.workers w := by
  induction ws with
  | nil => exact fun f _ _ => ⟨f, rfl, rfl, fun w hw => absurd hw List.not_mem_nil, fun _ _ => rfl⟩
  | cons w ws ih =>
    intro f hnodup hidle
    obtain ⟨hnew, hrest⟩ := List.nodup_cons.1 hnodup
    obtain ⟨hphase, hrunning⟩ := hidle w List.mem_cons_self
    have hstep : fineStep sections f (.plain (.arrive w request)) =
        some { f with world := f.world.setPhase w (.getConnection request) } := by
      have hone : step f.world (.arrive w request) =
          some (f.world.setPhase w (.getConnection request)) := by
        simp only [step, hphase]
      simp only [fineStep, sections, Event.kind, hrunning, hone, Option.isSome_none,
        Bool.false_eq_true, if_false, Option.map_some]
    have hsame : ∀ v, v ≠ w →
        (f.world.setPhase w (.getConnection request)).workers v = f.world.workers v :=
      fun v hv => f.world.setPhase_of_ne hv _
    obtain ⟨f', hrun, hsem, hworkers, hothers⟩ :=
      ih { f with world := f.world.setPhase w (.getConnection request) } hrest fun v hv => by
        have hvw : v ≠ w := fun h => hnew (h ▸ hv)
        rw [hsame v hvw]
        exact hidle v (List.mem_cons_of_mem w hv)
    refine ⟨f', ?_, hsem, fun v hv => ?_, fun v hv => ?_⟩
    · rw [List.map_cons, StepSystem.run, hstep]
      exact hrun
    · obtain rfl | hv := List.mem_cons.1 hv
      · rw [hothers v hnew]
        exact f.world.setPhase_self v _
      · exact hworkers v hv
    · rw [List.mem_cons, not_or] at hv
      rw [hothers v hv.2]
      exact hsame v hv.1

omit [DecidableEq W] in
theorem interruptions_arrivals (request : Request) (ws : List W) :
    interruptions (ws.map fun w => (.plain (.arrive w request) : FineEvent W (Event W))) = 0 := by
  induction ws with
  | nil => rfl
  | cons w ws ih => exact ih

omit [DecidableEq W] in
theorem interruptions_find (ws : List W) :
    interruptions (ws.map fun w => (.interrupted (.find w) : FineEvent W (Event W))) =
      ws.length := by
  induction ws with
  | nil => rfl
  | cons w ws ih => rw [List.map_cons, interruptions, ih, List.length_cons]

/-- One worker that holds the semaphore and the interrupted ones are in their sections at
the same time. -/
theorem exists_card_inside (now : Int) {w : W} {ws : List W} (h : (w :: ws).Nodup) :
    ∃ (es : List (FineEvent W (Event W))) (f : FineState W), fineRun now es = some f ∧
      interruptions es = ws.length ∧ f.sem.inside.card = ws.length + 1 := by
  obtain ⟨f₁, hrun₁, hsem₁, hworkers, -⟩ :=
    run_arrivals (poolRequest alice) (w :: ws) (fineInitial now) h fun _ _ => ⟨rfl, rfl⟩
  obtain ⟨sem, hcrowd, hcard⟩ := Semaphore.crowd_run h
  have henabled : ∀ v ∈ w :: ws, (sections.step f₁.world (.find v)).isSome = true := by
    intro v hv
    show (step f₁.world (.find v)).isSome = true
    rw [isSome_step rfl, hworkers v hv]
    rfl
  have hstart : f₁.sem = Semaphore.initial := hsem₁
  obtain ⟨f₂, hrun₂, hlast⟩ := run_lock_interrupted (S := sections) (f := f₁) .find
    (fun _ _ => rfl) henabled (by rwa [hstart])
  refine ⟨(w :: ws).map (fun w => .plain (.arrive w (poolRequest alice))) ++
    .lock (.find w) :: ws.map fun w => .interrupted (.find w), f₂, ?_, ?_, ?_⟩
  · rw [fineRun, StepSystem.run_append, hrun₁, Option.bind_some]
    exact hrun₂
  · rw [interruptions_append, interruptions_arrivals, Nat.zero_add]
    exact interruptions_find ws
  · rw [hlast, hcard]

/-- With at most `k` interrupted waits, the most workers that are ever in their sections
together are `k + 1`. -/
theorem isGreatest_inside [Fintype W] (now : Int) {k : Nat} (hk : k < Fintype.card W) :
    IsGreatest
      {n | ∃ (es : List (FineEvent W (Event W))) (f : FineState W), fineRun now es = some f ∧
        interruptions es ≤ k ∧ f.sem.inside.card = n} (k + 1) := by
  constructor
  · have hlength : k < (Finset.univ : Finset W).toList.length := by
      rwa [Finset.length_toList]
    obtain ⟨w, ws, hws⟩ : ∃ w ws, (Finset.univ : Finset W).toList.take (k + 1) = w :: ws :=
      List.exists_cons_of_length_pos (by rw [List.length_take]; omega)
    have hnodup : (w :: ws).Nodup :=
      hws ▸ (Finset.nodup_toList Finset.univ).sublist (List.take_sublist _ _)
    have hk' : ws.length = k := by
      have hcount := congrArg List.length hws
      rw [List.length_take, List.length_cons] at hcount
      omega
    obtain ⟨es, f, hrun, hcount, hcard⟩ := exists_card_inside now hnodup
    exact ⟨es, f, hrun, by omega, by omega⟩
  · rintro n ⟨es, f, hrun, hcount, rfl⟩
    have hle := (card_inside_le hrun).2
    omega

/-- The semaphore is never lost.  When no worker is in a section, however the others left
theirs, each worker that waits can take the lock. -/
theorem exists_lock [Fintype W] {now : Int} {es : List (FineEvent W (Event W))}
    {f : FineState W} (hrun : fineRun now es = some f) (hempty : f.sem.inside = ∅)
    {e : Event W} {w : W} (hkind : e.kind = .locks w)
    (hstarts : e.starts (f.world.workers w) = true) :
    ∃ f', fineStep sections f (.lock e) = some f' := by
  have hvalue : 0 < f.sem.value := by
    have hle := (card_inside_le hrun).1
    rw [hempty, Finset.card_empty] at hle
    omega
  have henabled : (step f.world e).isSome = true := by
    rw [isSome_step hkind]
    exact hstarts
  have hout : w ∉ f.sem.inside := by
    rw [hempty]
    exact Finset.notMem_empty w
  have hkind' : sections.kind e = .locks w := hkind
  refine ⟨{ f with
    sem := ⟨f.sem.value - 1, update f.sem.undo w (f.sem.undo w + 1), insert w f.sem.inside⟩
    running := update f.running w (some (e, sections.code f.world e)) }, ?_⟩
  rw [fineStep, hkind']
  show (if (step f.world e).isSome then _ else none) = _
  rw [if_pos henabled, Semaphore.step, if_pos ⟨hout, hvalue⟩]
  rfl

/-- Two workers and their waits. -/
theorem isGreatest_inside_pair :
    IsGreatest
      {n | ∃ (es : List (FineEvent Bool (Event Bool))) (f : FineState Bool),
        fineRun 0 es = some f ∧ interruptions es ≤ 1 ∧ f.sem.inside.card = n} 2 :=
  isGreatest_inside 0 (by decide)

/-- A worker fills slot 0 for an unnamed request, and dies before it leaves its section. -/
def deathInSection : List (FineEvent Bool (Event Bool)) :=
  [.plain (.arrive true (soloRequest alice)), .plain (.openConnection true true),
    .plain (.arrive false (soloRequest bob)), .plain (.openConnection false true),
    .lock (.alloc true none)] ++
    List.replicate 10 (.access true) ++ [.plain (.die true)]

theorem exists_lock_deathInSection :
    ∃ f f', fineRun 0 deathInSection = some f ∧
      fineStep sections f (.lock (.alloc false none)) = some f' := by
  have hrun : (fineRun 0 deathInSection).isSome = true := by decide +kernel
  have hempty : ((fineRun 0 deathInSection).get hrun).sem.inside = ∅ := by
    decide +kernel +revert
  have hstarts : (Event.alloc false none).starts
      (((fineRun 0 deathInSection).get hrun).world.workers false) = true := by
    decide +kernel +revert
  exact ⟨_, (exists_lock (Option.some_get hrun).symm hempty rfl hstarts).imp fun f' h =>
    ⟨(Option.some_get hrun).symm, h⟩⟩

/-! ## The step system -/

/-- A run without an interrupted wait, in which the clock and the live workers stay as they
are while a section runs, is a run of the step system, in the order in which the sections
ended.  Outside the table the two are in the same state all the time, and between two
sections in the table as well. -/
theorem run_refines_atomic {now : Int} {es : List (FineEvent W (Event W))} {f : FineState W}
    (hcalm : StepSystem.AllSteps (fineStep sections) (Calm sections) (fineInitial now) es)
    (hrun : fineRun now es = some f) :
    ∃ s, StepSystem.run step (initial now) (trace sections (fineInitial now) es) = some s ∧
      f.world = s.setTable f.world.connections ∧
      ((∀ w, f.running w = none) → f.world = s) := by
  obtain ⟨hlocked, s, hs, hsim⟩ := run_refines lawful_sections
    (wellLocked_initial (initial now)) (.outside (fineInitial now) fun _ => rfl) hcalm hrun
  refine ⟨s, hs, ?_⟩
  cases hsim with
  | outside f h => exact ⟨rfl, fun _ => rfl⟩
  | inside f w e left m hrunning henabled hfinish =>
    refine ⟨rfl, fun hnone => ?_⟩
    rw [hnone w] at hrunning
    cases hrunning

/-- A request arrives while another worker fills a slot. -/
def arrivalInSection : List (FineEvent Bool (Event Bool)) :=
  [.plain (.arrive true (soloRequest alice)), .plain (.openConnection true true),
    .lock (.alloc true none)] ++
    List.replicate 7 (.access true) ++ [.plain (.arrive false (soloRequest bob))] ++
    List.replicate 4 (.access true) ++ [.unlock true]

theorem run_refines_arrivalInSection :
    ∃ f s, fineRun 0 arrivalInSection = some f ∧
      StepSystem.run step (initial 0) (trace sections (fineInitial 0) arrivalInSection) =
        some s ∧ f.world = s := by
  have hrun : (fineRun 0 arrivalInSection).isSome = true := by decide +kernel
  have hnone : ∀ w, (((fineRun 0 arrivalInSection).get hrun).running w).isNone = true := by
    decide +kernel +revert
  obtain ⟨s, hs, _, hworld⟩ :=
    run_refines_atomic (by decide +kernel) (Option.some_get hrun).symm
  exact ⟨_, s, (Option.some_get hrun).symm, hs,
    hworld fun w => Option.isNone_iff_eq_none.1 (hnone w)⟩

/-! ## The records that others see -/

/-- The records that the section of an event may put into a free slot. -/
def filledOf (s : State W) (e : Event W) (conn : Connection W) : Prop :=
  ∃ w tmpnam request db path, e = .alloc w tmpnam ∧ s.workers w = .allocate request db ∧
    newSockPath request tmpnam = some path ∧ FilledBy w request db path conn

theorem always_sections (s : State W) (e : Event W) (w : W) (connections : Table W)
    (hkind : e.kind = .locks w) (henabled : (step s e).isSome) :
    (sections.code s e).Always (TableMoves (filledOf s e)) connections := by
  have hstarts : e.starts (s.workers w) = true := (isSome_step hkind).symm.trans henabled
  simp only [sections, hkind]
  cases e <;> cases hkind
  case alloc tmpnam =>
    cases hphase : s.workers w with
    | allocate request db =>
      rw [hphase] at hstarts
      refine (always_allocLoop w request db (newSockPath request tmpnam).join _).mono
        fun table table' h => ?_
      obtain ⟨path, hpath⟩ := exists_path_of_starts hstarts
      rw [hpath, Option.join_some] at h
      obtain ⟨i, hsame, hmove⟩ := h
      exact ⟨i, hsame, hmove.mono fun conn hconn =>
        ⟨w, tmpnam, request, db, path, rfl, hphase, hpath, hconn⟩⟩
    | _ => simp [hphase, Event.starts] at hstarts
  all_goals
    cases hphase : s.workers w <;> simp [hphase, Event.starts] at hstarts
  case find.refl.getConnection => exact always_findLoop _ _ _
  case reap.refl.reap => exact always_reapLoop _ _ _ _
  case copy.refl.copy => exact always_copyCode _
  case cleanup.refl.cleanup => exact always_cleanupCode _
  case setHelper.refl.setHelper => exact always_setHelperCode _ _
  case release.refl.release => exact always_releaseCode _
  case adminFind.refl.adminFind => exact always_adminFindLoop _ _ _
  case adminClose.refl.adminClose => exact always_adminCloseCode _

omit [DecidableEq W] in
theorem pid_populate {request : Request} {db : Option Handle} {path : Option SockPath}
    {created : Int} {w v : W}
    (h : (dbPopulateConnection request db path created w).2.pid = some v) : w = v := by
  rw [dbPopulateConnection_eq] at h
  split at h
  · cases path with
    | none => cases h
    | some path => exact Option.some.inj h
  · exact Option.some.inj h

/-- What holds of the records in the occupied slots. -/
def Complete (now : Int) (es : List (FineEvent W (Event W))) (connections : Table W) : Prop :=
  ∀ i w, (connections i).pid = some w →
    ∃ tmpnam request db path es₀ es₁ f₀ created,
      es = es₀ ++ .lock (.alloc w tmpnam) :: es₁ ∧ fineRun now es₀ = some f₀ ∧
      f₀.world.workers w = .allocate request db ∧ newSockPath request tmpnam = some path ∧
      Used (dbPopulateConnection request db path created w).2 (connections i)

/-- An occupied slot holds the record of one request, all of it, at every moment of every run
without an interrupted wait.  Workers may have died in the middle of any section. -/
theorem complete_of_run {now : Int} {es : List (FineEvent W (Event W))} {f : FineState W}
    (hrun : fineRun now es = some f) (hun : interruptions es = 0) :
    Complete now es f.world.connections := by
  refine memory_invariant lawful_sections always_sections ?_ ?_ ?_ hrun
    (uninterrupted_of_interruptions hun)
  · intro i w hpid
    cases hpid
  · intro es e connections hJ i w hpid
    obtain ⟨tmpnam, request, db, path, es₀, es₁, f₀, created, rfl, hrest⟩ := hJ i w hpid
    exact ⟨tmpnam, request, db, path, es₀, es₁ ++ [e], f₀, created,
      by rw [List.append_assoc, List.cons_append], hrest⟩
  · intro es e v f₀ connections connections' hkind hstarted hmoves hJ i w hpid
    obtain ⟨j, hsame, hmove⟩ := hmoves
    by_cases hij : i = j
    · subst hij
      cases hmove with
      | free h =>
        rw [h] at hpid
        cases hpid
      | filled hfree h =>
        obtain ⟨w', tmpnam, request, db, path, rfl, hphase, hpath, created, accessed, hconn⟩ := h
        obtain ⟨es₀, es₁, hes, hrun₀⟩ := hstarted
        have hpid' : (dbPopulateConnection request db path created w').2.pid = some w := by
          rw [hconn] at hpid
          exact hpid
        obtain rfl := pid_populate hpid'
        exact ⟨tmpnam, request, db, path, es₀, es₁, f₀, created, hes, hrun₀, hphase, hpath,
          hconn ▸ rfl⟩
      | used h =>
        have hpid' : (connections i).pid = some w := by
          rw [h] at hpid
          exact hpid
        obtain ⟨tmpnam, request, db, path, es₀, es₁, f₁, created, hes, hrun₁, hphase, hpath,
          hused⟩ := hJ i w hpid'
        exact ⟨tmpnam, request, db, path, es₀, es₁, f₁, created, hes, hrun₁, hphase, hpath,
          hused.trans h⟩
    · rw [hsame i hij] at hpid ⊢
      exact hJ i w hpid

theorem complete_deathInSection :
    ∃ f : FineState Bool, fineRun 0 deathInSection = some f ∧
      (∃ i, (f.world.connections i).pid = some true) ∧
      Complete 0 deathInSection f.world.connections := by
  have hrun : (fineRun 0 deathInSection).isSome = true := by decide +kernel
  have hpid : ∃ i, (((fineRun 0 deathInSection).get hrun).world.connections i).pid =
      some true :=
    ⟨⟨0, Nat.zero_lt_succ _⟩, by decide +kernel +revert⟩
  exact ⟨_, (Option.some_get hrun).symm, hpid,
    complete_of_run (Option.some_get hrun).symm rfl⟩

end DbRelay.Pool
