import DbRelay.Lib.StepSystem
import DbRelay.Pool.Table

/-!
# The workers and the connection table

Every worker process serves one request at a time, and all of them share the
table.  The code between `dbrelay_time_get_shmem` and
`dbrelay_time_release_shmem` is one step, and so is each action between two
such blocks whose outcome the environment decides.  `Phase` is the program
counter of a worker, with the local variables that the code still needs.

`Event` names the worker that moves and the outcome of its step.  `step` is
partial: an event is enabled only in the phase that it leaves.

Five components of the state are not in the memory of the program, and no
step reads them.  `serials` counts how often a slot was populated, and `Held`
records that count, so that two connections in one slot can be told apart.
`lives` counts the processes that had a pid, because a pid is used again.
`opened` and `closed` are the calls of `api->connect` and `api->close` with
the process that made them.  `launched` is the request for which a connector
was launched on a path.

`StepRel` lists what each event does, one constructor for each outcome, and
`stepRel_of_step` is the inversion of `step` that every invariant proof uses.
-/

namespace DbRelay.Pool

open Function

variable {W : Type}

/-! ## The state -/

/-- A slot that a request acquired, and which of its connections it was. -/
structure Held where
  slot : Slot
  serial : Nat
  deriving DecidableEq, Repr

/-- Where a worker is.  The request phases are those of
`dbrelay_db_run_query`, in order, and the last three those of
`dbrelay_admin_kill`. -/
inductive Phase (W : Type)
  /-- No process. -/
  | dead
  /-- Between two requests. -/
  | idle
  /-- At the top of the loop of `dbrelay_wait_for_connection`. -/
  | getConnection (request : Request)
  /-- In `dbrelay_db_alloc_connection`, before the table is locked. -/
  | allocate (request : Request) (db : Option Handle)
  /-- In `dbrelay_db_close_connections`, before the clock is read. -/
  | readClock (request : Request) (held : Option Held)
  /-- In `dbrelay_db_close_connections`, before the table is locked. -/
  | reap (request : Request) (held : Option Held) (now : Int)
  /-- Before the record of the slot is copied. -/
  | copy (request : Request) (held : Held)
  /-- Before `dbrelay_socket_connect` on the path of the copy. -/
  | connect (request : Request) (held : Held) (conn : Connection W)
  /-- The connect failed; before `connections[slot].pid=0`. -/
  | cleanup (request : Request) (held : Held)
  /-- Before `dbrelay_conn_initialize`. -/
  | connInitialize (request : Request) (held : Held) (conn : Connection W)
  /-- Before the helper's pid is written into the table. -/
  | setHelper (request : Request) (held : Held) (conn : Connection W)
      (helperPid : Nat)
  /-- While the query runs. -/
  | query (request : Request) (held : Held) (conn : Connection W)
  /-- Before the final critical section. -/
  | release (request : Request) (held : Held)
  /-- The kill command, before the table is scanned. -/
  | adminFind (sockPath : CString)
  /-- Before the helper is signalled. -/
  | adminSignal (slot : Slot) (pid : Nat)
  /-- Before the slot is closed. -/
  | adminClose (slot : Slot)
  deriving DecidableEq

/-- The slot that a request in this phase acquired and has not given back. -/
def Phase.held : Phase W → Option Held
  | .readClock _ held => held
  | .reap _ held _ => held
  | .copy _ held => some held
  | .connect _ held _ => some held
  | .cleanup _ held => some held
  | .connInitialize _ held _ => some held
  | .setHelper _ held _ _ => some held
  | .query _ held _ => some held
  | .release _ held => some held
  | _ => none

/-- The request that a worker serves. -/
def Phase.request : Phase W → Option Request
  | .getConnection request => some request
  | .allocate request _ => some request
  | .readClock request _ => some request
  | .reap request _ _ => some request
  | .copy request _ => some request
  | .connect request _ _ => some request
  | .cleanup request _ => some request
  | .connInitialize request _ _ => some request
  | .setHelper request _ _ _ => some request
  | .query request _ _ => some request
  | .release request _ => some request
  | _ => none

/-- The copy of the record that the request goes on to use. -/
def Phase.copied : Phase W → Option (Connection W)
  | .connect _ _ conn => some conn
  | .connInitialize _ _ conn => some conn
  | .setHelper _ _ conn _ => some conn
  | .query _ _ conn => some conn
  | _ => none

/-- A copy is made of the slot that the request holds. -/
theorem Phase.exists_held {phase : Phase W} {conn : Connection W}
    (h : phase.copied = some conn) : ∃ held, phase.held = some held := by
  cases phase <;> simp [Phase.copied, Phase.held] at h ⊢

/-- Whether a request in this phase holds slot `i`. -/
def Phase.holds (i : Slot) (phase : Phase W) : Bool :=
  match phase.held with
  | some held => decide (held.slot = i)
  | none => false

/-- A process: its pid, and which of the processes with this pid it is. -/
abbrev Process (W : Type) := W × Nat

structure State (W : Type) where
  connections : Table W
  now : Int
  workers : W → Phase W
  serials : Slot → Nat
  lives : W → Nat
  nextHandle : Handle
  opened : List (Handle × Process W)
  closed : List (Handle × Process W)
  launched : SockPath → Option Request

/-- The state after `dbrelay_create_shmem`, at a given time. -/
def initial (now : Int) : State W :=
  { connections := fun _ => {}
    now := now
    workers := fun _ => .idle
    serials := fun _ => 0
    lives := fun _ => 0
    nextHandle := 0
    opened := []
    closed := []
    launched := fun _ => none }

namespace State

variable [DecidableEq W]

/-- The process that runs under the pid `w`. -/
def process (s : State W) (w : W) : Process W := (w, s.lives w)

def setPhase (s : State W) (w : W) (phase : Phase W) : State W :=
  { s with workers := update s.workers w phase }

def setConnection (s : State W) (i : Slot) (conn : Connection W) : State W :=
  { s with connections := update s.connections i conn }

/-- Worker `w` calls `api->close` on the handles. -/
def logClosed (s : State W) (w : W) (handles : List Handle) : State W :=
  { s with closed := s.closed ++ handles.map fun db => (db, s.process w) }

/-- Worker `w` calls `api->connect`, which returns a new handle. -/
def logOpened (s : State W) (w : W) : State W :=
  { s with
    nextHandle := s.nextHandle + 1
    opened := s.opened ++ [(s.nextHandle, s.process w)] }

/-- `kill(pid, 0) == 0`. -/
def alive (s : State W) (w : W) : Bool := decide (s.workers w ≠ .dead)

/-- `dbrelay_db_alloc_connection` fills slot `i`. -/
def populate (s : State W) (w : W) (i : Slot) (request : Request)
    (db : Option Handle) (path : Option SockPath) : State W :=
  let conn := (dbPopulateConnection request db path s.now w).2
  { s.setConnection i { conn with slot := i } with
    serials := update s.serials i (s.serials i + 1)
    launched :=
      match launchPath request path with
      | some path => update s.launched path (some request)
      | none => s.launched }

/-- `dbrelay_db_close_connections`, run by `w` with the time it read. -/
def reapAll (s : State W) (w : W) (now : Int) : State W :=
  { s with
    connections := fun i => (reapConnection s.alive now (s.connections i)).1
    closed := s.closed ++ (List.finRange maxConn).flatMap fun i =>
      (reapConnection s.alive now (s.connections i)).2.map fun db =>
        (db, s.process w) }

/-- A new process gets the pid `w`. -/
def spawn (s : State W) (w : W) : State W :=
  { s with lives := update s.lives w (s.lives w + 1) }

theorem setPhase_self (s : State W) (w : W) (phase : Phase W) :
    (s.setPhase w phase).workers w = phase :=
  update_self w _ _

theorem setPhase_of_ne (s : State W) {w v : W} (h : v ≠ w) (phase : Phase W) :
    (s.setPhase w phase).workers v = s.workers v :=
  update_of_ne h _ _

omit [DecidableEq W] in
theorem populate_self (s : State W) (w : W) (i : Slot) (request : Request)
    (db : Option Handle) (path : Option SockPath) :
    (s.populate w i request db path).connections i =
      { (dbPopulateConnection request db path s.now w).2 with slot := i } :=
  update_self i _ _

omit [DecidableEq W] in
theorem populate_of_ne (s : State W) (w : W) {i j : Slot} (h : j ≠ i)
    (request : Request) (db : Option Handle) (path : Option SockPath) :
    (s.populate w i request db path).connections j = s.connections j :=
  update_of_ne h _ _

end State

/-! ## The steps -/

inductive Event (W : Type)
  | spawn (w : W)
  | die (w : W)
  /-- Time passes. -/
  | tick (seconds : Nat)
  /-- A request arrives at an idle worker. -/
  | arrive (w : W) (request : Request)
  /-- `dbrelay_db_find_connection`, for a named request. -/
  | find (w : W)
  /-- `dbrelay_db_open_connection`, for an unnamed request. -/
  | openConnection (w : W) (ok : Bool)
  /-- `dbrelay_db_alloc_connection`, with the answer of `tmpnam`. -/
  | alloc (w : W) (tmpnam : Option SockPath)
  | readClock (w : W)
  | reap (w : W)
  | copy (w : W)
  /-- `dbrelay_socket_connect`. -/
  | connect (w : W) (ok : Bool)
  | cleanup (w : W)
  /-- `dbrelay_conn_initialize`: the helper's pid, or a failure. -/
  | connInitialize (w : W) (helperPid : Option Nat)
  | setHelper (w : W)
  /-- The query is over, with any outcome. -/
  | finish (w : W)
  | release (w : W)
  /-- A kill command whose connector answered the connect and the `:DIE`. -/
  | adminArrive (w : W) (sockPath : CString)
  | adminFind (w : W)
  | adminSignal (w : W)
  | adminClose (w : W)

variable [DecidableEq W]

/-- One step of the system. -/
def step (s : State W) : Event W → Option (State W)
  | .spawn w =>
    match s.workers w with
    | .dead => some ((s.spawn w).setPhase w .idle)
    | _ => none
  | .die w =>
    if s.workers w = .dead then none else some (s.setPhase w .dead)
  | .tick seconds => some { s with now := s.now + seconds }
  | .arrive w request =>
    match s.workers w with
    | .idle => some (s.setPhase w (.getConnection request))
    | _ => none
  | .find w =>
    match s.workers w with
    | .getConnection request =>
      if request.named then
        match dbFindSlot s.connections request with
        | some i =>
          some ((s.setConnection i (touchConnection (s.connections i) s.now)).setPhase w
            (.readClock request (some ⟨i, s.serials i⟩)))
        | none => some (s.setPhase w (.allocate request none))
      else none
    | _ => none
  | .openConnection w ok =>
    match s.workers w with
    | .getConnection request =>
      if request.named then none
      else if ok then
        some ((s.logOpened w).setPhase w (.allocate request (some s.nextHandle)))
      else some (s.setPhase w (.allocate request none))
    | _ => none
  | .alloc w tmpnam =>
    match s.workers w with
    | .allocate request db =>
      match newSockPath request tmpnam with
      -- The path does not fit a record.
      | none => none
      | some path =>
        match firstFree s.connections with
        | some i =>
          some ((s.populate w i request db path).setPhase w
            (.readClock (dbPopulateConnection request db path s.now w).1
              (some ⟨i, s.serials i + 1⟩)))
        | none => some ((s.logClosed w db.toList).setPhase w (.readClock request none))
    | _ => none
  | .readClock w =>
    match s.workers w with
    | .readClock request held => some (s.setPhase w (.reap request held s.now))
    | _ => none
  | .reap w =>
    match s.workers w with
    | .reap request held now =>
      match held with
      | some held => some ((s.reapAll w now).setPhase w (.copy request held))
      | none => some ((s.reapAll w now).setPhase w .idle)
    | _ => none
  | .copy w =>
    match s.workers w with
    | .copy request held =>
      let conn := { s.connections held.slot with slot := held.slot }
      if request.named then some (s.setPhase w (.connect request held conn))
      else some (s.setPhase w (.query request held conn))
    | _ => none
  | .connect w ok =>
    match s.workers w with
    | .connect request held conn =>
      if ok then some (s.setPhase w (.connInitialize request held conn))
      else some (s.setPhase w (.cleanup request held))
    | _ => none
  | .cleanup w =>
    match s.workers w with
    | .cleanup request held =>
      some ((s.setConnection held.slot
        { s.connections held.slot with pid := none }).setPhase w (.getConnection request))
    | _ => none
  | .connInitialize w helperPid =>
    match s.workers w with
    | .connInitialize request held conn =>
      match helperPid with
      -- The early return of `dbrelay_db_run_query` gives nothing back.
      | none => some (s.setPhase w .idle)
      | some 0 => some (s.setPhase w (.query request held conn))
      | some pid => some (s.setPhase w (.setHelper request held conn pid))
    | _ => none
  | .setHelper w =>
    match s.workers w with
    | .setHelper request held conn pid =>
      some ((s.setConnection held.slot
        { s.connections held.slot with helperPid := pid }).setPhase w
          (.query request held conn))
    | _ => none
  | .finish w =>
    match s.workers w with
    | .query request held _ => some (s.setPhase w (.release request held))
    | _ => none
  | .release w =>
    match s.workers w with
    | .release _ held =>
      let freed :=
        dbFreeConnection { s.connections held.slot with tmAccessed := s.now }
      some (((s.setConnection held.slot freed.1).logClosed w freed.2).setPhase w .idle)
    | _ => none
  | .adminArrive w sockPath =>
    match s.workers w with
    | .idle => some (s.setPhase w (.adminFind sockPath))
    | _ => none
  | .adminFind w =>
    match s.workers w with
    | .adminFind sockPath =>
      match adminFindSlot s.connections sockPath with
      | some i => some (s.setPhase w (.adminSignal i (s.connections i).helperPid))
      | none => some (s.setPhase w .idle)
    | _ => none
  | .adminSignal w =>
    match s.workers w with
    | .adminSignal i _ => some (s.setPhase w (.adminClose i))
    | _ => none
  | .adminClose w =>
    match s.workers w with
    | .adminClose i =>
      let closed := dbCloseConnection (s.connections i)
      some (((s.setConnection i closed.1).logClosed w closed.2).setPhase w .idle)
    | _ => none

/-! ## What a step does -/

/-- The handle that a worker opened and has not yet stored in a slot. -/
def Phase.pending : Phase W → Option Handle
  | .allocate _ db => db
  | _ => none

/-- The new phase carries on with what the old one had, or drops it. -/
structure Phase.CarriesOn (phase phase' : Phase W) : Prop where
  held : phase'.held = none ∨
    phase'.held = phase.held ∧ phase'.request = phase.request
  copied : phase'.copied = none ∨
    phase'.copied = phase.copied ∧ phase'.held = phase.held ∧
      phase'.request = phase.request
  pending : phase'.pending = none

/-- The effects of the steps. -/
inductive StepRel (s : State W) : Event W → State W → Prop
  /-- Only the phase of one worker changes. -/
  | move {e : Event W} (w : W) {phase' : Phase W}
      (h : (s.workers w).CarriesOn phase') : StepRel s e (s.setPhase w phase')
  | spawn (w : W) (hphase : s.workers w = .dead) :
      StepRel s (.spawn w) ((s.spawn w).setPhase w .idle)
  | tick (seconds : Nat) :
      StepRel s (.tick seconds) { s with now := s.now + seconds }
  | find (w : W) {request : Request} {i : Slot}
      (hphase : s.workers w = .getConnection request)
      (hnamed : request.named = true)
      (hfind : dbFindSlot s.connections request = some i) :
      StepRel s (.find w)
        ((s.setConnection i (touchConnection (s.connections i) s.now)).setPhase w
          (.readClock request (some ⟨i, s.serials i⟩)))
  | openConnection (w : W) {request : Request}
      (hphase : s.workers w = .getConnection request)
      (hnamed : request.named = false) :
      StepRel s (.openConnection w true)
        ((s.logOpened w).setPhase w (.allocate request (some s.nextHandle)))
  | alloc (w : W) {tmpnam path : Option SockPath} {request : Request}
      {db : Option Handle} {i : Slot}
      (hphase : s.workers w = .allocate request db)
      (hpath : newSockPath request tmpnam = some path)
      (hfree : firstFree s.connections = some i) :
      StepRel s (.alloc w tmpnam)
        ((s.populate w i request db path).setPhase w
          (.readClock (dbPopulateConnection request db path s.now w).1
            (some ⟨i, s.serials i + 1⟩)))
  | exhausted (w : W) {tmpnam : Option SockPath} {request : Request}
      {db : Option Handle} (hphase : s.workers w = .allocate request db)
      (hfree : firstFree s.connections = none) :
      StepRel s (.alloc w tmpnam)
        ((s.logClosed w db.toList).setPhase w (.readClock request none))
  | reap (w : W) {request : Request} {held : Option Held} {now : Int}
      {phase' : Phase W} (hphase : s.workers w = .reap request held now)
      (h : (s.workers w).CarriesOn phase') :
      StepRel s (.reap w) ((s.reapAll w now).setPhase w phase')
  | copy (w : W) {request : Request} {held : Held} {phase' : Phase W}
      (hphase : s.workers w = .copy request held)
      (hheld : phase'.held = some held) (hrequest : phase'.request = some request)
      (hcopied : phase'.copied =
        some { s.connections held.slot with slot := held.slot })
      (hpending : phase'.pending = none) :
      StepRel s (.copy w) (s.setPhase w phase')
  | cleanup (w : W) {request : Request} {held : Held}
      (hphase : s.workers w = .cleanup request held) :
      StepRel s (.cleanup w)
        ((s.setConnection held.slot
          { s.connections held.slot with pid := none }).setPhase w
            (.getConnection request))
  | setHelper (w : W) {request : Request} {held : Held} {conn : Connection W}
      {pid : Nat} (hphase : s.workers w = .setHelper request held conn pid) :
      StepRel s (.setHelper w)
        ((s.setConnection held.slot
          { s.connections held.slot with helperPid := pid }).setPhase w
            (.query request held conn))
  | release (w : W) {request : Request} {held : Held}
      (hphase : s.workers w = .release request held) :
      StepRel s (.release w)
        (((s.setConnection held.slot (dbFreeConnection
          { s.connections held.slot with tmAccessed := s.now }).1).logClosed w
            (dbFreeConnection
              { s.connections held.slot with tmAccessed := s.now }).2).setPhase w .idle)
  | adminClose (w : W) {i : Slot} (hphase : s.workers w = .adminClose i) :
      StepRel s (.adminClose w)
        (((s.setConnection i (dbCloseConnection (s.connections i)).1).logClosed w
          (dbCloseConnection (s.connections i)).2).setPhase w .idle)

/-- Every step has one of the listed effects. -/
theorem stepRel_of_step {s s' : State W} {e : Event W} (h : step s e = some s') :
    StepRel s e s' := by
  cases e with
  | tick seconds =>
    obtain rfl := Option.some.inj h
    exact .tick seconds
  | die w =>
    simp only [step] at h
    split at h
    · cases h
    · obtain rfl := Option.some.inj h
      exact .move w ⟨.inl rfl, .inl rfl, rfl⟩
  | find w =>
    simp only [step] at h
    split at h
    · rename_i request hphase
      split at h
      · rename_i hnamed
        split at h
        · rename_i i hfind
          obtain rfl := Option.some.inj h
          exact .find w hphase hnamed hfind
        · obtain rfl := Option.some.inj h
          exact .move w ⟨.inl rfl, .inl rfl, rfl⟩
      · cases h
    · cases h
  | openConnection w ok =>
    simp only [step] at h
    split at h
    · rename_i request hphase
      split at h
      · cases h
      · rename_i hnamed
        split at h
        · rename_i hok
          subst hok
          obtain rfl := Option.some.inj h
          exact .openConnection w hphase (by simpa using hnamed)
        · obtain rfl := Option.some.inj h
          exact .move w ⟨.inl rfl, .inl rfl, rfl⟩
    · cases h
  | alloc w tmpnam =>
    simp only [step] at h
    split at h
    · rename_i request db hphase
      split at h
      · cases h
      · rename_i path hpath
        split at h
        · rename_i i hfree
          obtain rfl := Option.some.inj h
          exact .alloc w hphase hpath hfree
        · rename_i hfree
          obtain rfl := Option.some.inj h
          exact .exhausted w hphase hfree
    · cases h
  | reap w =>
    simp only [step] at h
    split at h
    · rename_i request held now hphase
      split at h
      · obtain rfl := Option.some.inj h
        exact .reap w hphase
          ⟨.inr (by rw [hphase]; exact ⟨rfl, rfl⟩), .inl rfl, rfl⟩
      · obtain rfl := Option.some.inj h
        exact .reap w hphase ⟨.inl rfl, .inl rfl, rfl⟩
    · cases h
  | copy w =>
    simp only [step] at h
    split at h
    · rename_i request held hphase
      split at h
      · obtain rfl := Option.some.inj h
        exact .copy w hphase rfl rfl rfl rfl
      · obtain rfl := Option.some.inj h
        exact .copy w hphase rfl rfl rfl rfl
    · cases h
  | cleanup w =>
    simp only [step] at h
    split at h
    · rename_i request held hphase
      obtain rfl := Option.some.inj h
      exact .cleanup w hphase
    · cases h
  | connInitialize w helperPid =>
    simp only [step] at h
    split at h
    · rename_i request held conn hphase
      split at h
      · obtain rfl := Option.some.inj h
        exact .move w ⟨.inl rfl, .inl rfl, rfl⟩
      · obtain rfl := Option.some.inj h
        exact .move w (by rw [hphase]; exact ⟨.inr ⟨rfl, rfl⟩, .inr ⟨rfl, rfl, rfl⟩, rfl⟩)
      · obtain rfl := Option.some.inj h
        exact .move w (by rw [hphase]; exact ⟨.inr ⟨rfl, rfl⟩, .inr ⟨rfl, rfl, rfl⟩, rfl⟩)
    · cases h
  | setHelper w =>
    simp only [step] at h
    split at h
    · rename_i request held conn pid hphase
      obtain rfl := Option.some.inj h
      exact .setHelper w hphase
    · cases h
  | release w =>
    simp only [step] at h
    split at h
    · rename_i request held hphase
      obtain rfl := Option.some.inj h
      exact .release w hphase
    · cases h
  | adminClose w =>
    simp only [step] at h
    split at h
    · rename_i i hphase
      obtain rfl := Option.some.inj h
      exact .adminClose w hphase
    · cases h
  | connect w ok =>
    simp only [step] at h
    split at h
    · rename_i request held conn hphase
      split at h
      · obtain rfl := Option.some.inj h
        exact .move w (by rw [hphase]; exact ⟨.inr ⟨rfl, rfl⟩, .inr ⟨rfl, rfl, rfl⟩, rfl⟩)
      · obtain rfl := Option.some.inj h
        exact .move w (by rw [hphase]; exact ⟨.inr ⟨rfl, rfl⟩, .inl rfl, rfl⟩)
    · cases h
  | readClock w =>
    simp only [step] at h
    split at h
    · rename_i request held hphase
      obtain rfl := Option.some.inj h
      exact .move w (by rw [hphase]; exact ⟨.inr ⟨rfl, rfl⟩, .inl rfl, rfl⟩)
    · cases h
  | finish w =>
    simp only [step] at h
    split at h
    · rename_i request held conn hphase
      obtain rfl := Option.some.inj h
      exact .move w (by rw [hphase]; exact ⟨.inr ⟨rfl, rfl⟩, .inl rfl, rfl⟩)
    · cases h
  | spawn w =>
    simp only [step] at h
    split at h
    · rename_i hphase
      obtain rfl := Option.some.inj h
      exact .spawn w hphase
    · cases h
  | arrive w request | adminArrive w sockPath | adminSignal w =>
    simp only [step] at h
    split at h
    · obtain rfl := Option.some.inj h
      exact .move w ⟨.inl rfl, .inl rfl, rfl⟩
    · cases h
  | adminFind w =>
    simp only [step] at h
    split at h
    · split at h <;>
      · obtain rfl := Option.some.inj h
        exact .move w ⟨.inl rfl, .inl rfl, rfl⟩
    · cases h

/-! ## What a step keeps -/

/-- Only an allocation changes what connection an occupied slot is.  Every
other step keeps it or frees it, and launches nothing. -/
theorem keeps_or_populates {s s' : State W} {e : Event W} (h : StepRel s e s') :
    ((∀ i, (s'.connections i).pid ≠ none →
        Keeps (s.connections i) (s'.connections i)) ∧ s'.launched = s.launched) ∨
    ∃ w tmpnam request db path i, e = .alloc w tmpnam ∧
      s.workers w = .allocate request db ∧ newSockPath request tmpnam = some path ∧
      firstFree s.connections = some i ∧
      s' = (s.populate w i request db path).setPhase w
        (.readClock (dbPopulateConnection request db path s.now w).1
          (some ⟨i, s.serials i + 1⟩)) := by
  have hsame : ∀ i : Slot, Keeps (s.connections i) (s.connections i) :=
    fun i => Keeps.refl _
  have hupdate : ∀ (j : Slot) (conn : Connection W),
      (conn.pid ≠ none → Keeps (s.connections j) conn) →
      ∀ i, (update s.connections j conn i).pid ≠ none →
        Keeps (s.connections i) (update s.connections j conn i) := by
    intro j conn hconn i hi
    by_cases hij : i = j
    · subst hij
      rw [update_self] at hi ⊢
      exact hconn hi
    · rw [update_of_ne hij]
      exact Keeps.refl _
  cases h with
  | move w hcarries => exact .inl ⟨fun i _ => hsame i, rfl⟩
  | spawn w hphase => exact .inl ⟨fun i _ => hsame i, rfl⟩
  | tick seconds => exact .inl ⟨fun i _ => hsame i, rfl⟩
  | find w hphase hnamed hfind =>
    exact .inl ⟨hupdate _ _ fun _ => ⟨rfl, fun _ => rfl, rfl⟩, rfl⟩
  | openConnection w hphase hnamed => exact .inl ⟨fun i _ => hsame i, rfl⟩
  | alloc w hphase hpath hfree =>
    exact .inr ⟨w, _, _, _, _, _, rfl, hphase, hpath, hfree, rfl⟩
  | exhausted w hphase hfree => exact .inl ⟨fun i _ => hsame i, rfl⟩
  | reap w hphase hcarries =>
    refine .inl ⟨fun i hi => ?_, rfl⟩
    simp only [State.setPhase, State.reapAll] at hi ⊢
    rw [reapConnection_of_pid hi]
    exact Keeps.refl _
  | copy w hphase hheld hrequest hcopied hpending => exact .inl ⟨fun i _ => hsame i, rfl⟩
  | cleanup w hphase => exact .inl ⟨hupdate _ _ fun hpid => absurd rfl hpid, rfl⟩
  | setHelper w hphase =>
    exact .inl ⟨hupdate _ _ fun _ => ⟨rfl, fun _ => rfl, rfl⟩, rfl⟩
  | release w hphase =>
    rename_i request held
    refine .inl ⟨hupdate _ _ fun hpid => ?_, rfl⟩
    cases hset : (s.connections held.slot).connectionName.isSet with
    | true => exact (dbFreeConnection_named hset s.now).1
    | false => exact absurd (dbFreeConnection_unnamed hset s.now).1 hpid
  | adminClose w hphase => exact .inl ⟨hupdate _ _ fun hpid => absurd rfl hpid, rfl⟩

/-! ## Requests of two users -/

def alice : CharBuf objSz := ⟨ascii "alice", by decide, by decide⟩
def bob : CharBuf objSz := ⟨ascii "bob", by decide, by decide⟩

/-- A request without a connection name. -/
def soloRequest (user : CharBuf objSz) : Request :=
  { allocRequest with
    sqlServer := ⟨ascii "db1", by decide, by decide⟩
    sqlUser := user
    sql := some ⟨ascii "select 1", by decide⟩ }

/-- A request for the connection `pool`. -/
def poolRequest (user : CharBuf objSz) : Request :=
  { soloRequest user with connectionName := ⟨ascii "pool", by decide, by decide⟩ }

def firstPath : SockPath := ⟨ascii "/tmp/file1", by decide, by decide⟩
def secondPath : SockPath := ⟨ascii "/tmp/file2", by decide, by decide⟩

end DbRelay.Pool
