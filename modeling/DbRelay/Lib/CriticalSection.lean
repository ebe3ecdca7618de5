import DbRelay.Lib.Semaphore

/-!
# Sections under a lock

Several processes share a memory, and some of their steps are carried out in many
accesses to it between a lock and an unlock.  The other steps of the processes go
on in the meantime, and a process may exit anywhere.

There are two levels.  The atomic system is a partial step function in which such
a section is one step.  The fine system runs the `Code` of a section one access at
a time, under the semaphore of `Semaphore`.  `Sections` says how the two fit
together, and `Lawful` what the first must satisfy.

* `run_refines` is the refinement: a run of the fine system, in the order in which
  its sections ended, is a run of the atomic one.  Its guard `Calm` asks that no
  wait is interrupted, and that the answers of the environment stay the same while
  a section runs.
* `access_rel` needs only the first half of the guard.  Every access changes the
  memory the way that the code of its section changes it alone, also when other
  processes exited in the middle of theirs.
-/

namespace CriticalSection

open Function

variable {P σ ε M X A : Type*}

/-! ## The code of a section -/

/-- What is left of a section.  An access sees an answer of the environment and the
memory, and both the write and what comes next depend on the two. -/
inductive Code (M X A : Type*)
  | done (result : A)
  | act (write : X → M → M) (next : X → M → Code M X A)

namespace Code

/-- All accesses without a break, with the same answer for each. -/
def finish (x : X) : Code M X A → M → M × A
  | .done result, m => (m, result)
  | .act write next, m => (next x m).finish x (write x m)

/-- Each access is in `R`, whatever the answers are. -/
def Always (R : M → M → Prop) : Code M X A → M → Prop
  | .done _, _ => True
  | .act write next, m => ∀ x, R m (write x m) ∧ (next x m).Always R (write x m)

/-- An access that only reads. -/
def look (next : X → M → Code M X A) : Code M X A := .act (fun _ m => m) next

/-- An access that only writes. -/
def put (write : X → M → M) (next : Code M X A) : Code M X A := .act write fun _ _ => next

@[simp] theorem finish_done (x : X) (result : A) (m : M) :
    (Code.done result).finish x m = (m, result) := rfl

@[simp] theorem finish_look (x : X) (next : X → M → Code M X A) (m : M) :
    (look next).finish x m = (next x m).finish x m := rfl

@[simp] theorem finish_put (x : X) (write : X → M → M) (next : Code M X A) (m : M) :
    (put write next).finish x m = next.finish x (write x m) := rfl

theorem Always.mono {R R' : M → M → Prop} (hR : ∀ m m', R m m' → R' m m')
    {code : Code M X A} : ∀ {m : M}, code.Always R m → code.Always R' m := by
  induction code with
  | done result => exact fun _ => trivial
  | act write next ih => exact fun h x => ⟨hR _ _ (h x).1, ih _ _ (h x).2⟩

theorem always_look {R : M → M → Prop} {next : X → M → Code M X A} {m : M} (hR : R m m)
    (h : ∀ x, (next x m).Always R m) : (look next).Always R m :=
  fun x => ⟨hR, h x⟩

theorem always_put {R : M → M → Prop} {write : X → M → M} {next : Code M X A} {m : M}
    (hR : ∀ x, R m (write x m)) (h : ∀ x, next.Always R (write x m)) :
    (put write next).Always R m :=
  fun x => ⟨hR x, h x⟩

end Code

/-! ## The two levels -/

/-- What an event of the atomic system is. -/
inductive Kind (P : Type*)
  /-- The process runs a section. -/
  | locks (p : P)
  /-- The process does something else. -/
  | moves (p : P)
  /-- The process is no more. -/
  | exits (p : P)
  | environment

structure Sections (P σ ε M X A : Type*) where
  /-- The atomic system. -/
  step : σ → ε → Option σ
  kind : ε → Kind P
  memory : σ → M
  setMemory : σ → M → σ
  /-- What the environment answers during an access. -/
  answer : σ → X
  /-- Whether the event leaves the answer as it is. -/
  steady : ε → Bool
  code : σ → ε → Code M X A
  /-- What the process does for itself when it left the section. -/
  leave : σ → ε → A → σ

variable (S : Sections P σ ε M X A)

/-- The event is a step of another process than `p`, or of the environment. -/
def Sections.Apart (e : ε) (p : P) : Prop :=
  match S.kind e with
  | .locks _ => False
  | .moves q => q ≠ p
  | .exits q => q ≠ p
  | .environment => True

structure Lawful : Prop where
  memory_setMemory : ∀ s m, S.memory (S.setMemory s m) = m
  setMemory_memory : ∀ s, S.setMemory s (S.memory s) = s
  setMemory_setMemory : ∀ s m m', S.setMemory (S.setMemory s m) m' = S.setMemory s m'
  answer_setMemory : ∀ s m, S.answer (S.setMemory s m) = S.answer s
  code_setMemory : ∀ s m e, S.code (S.setMemory s m) e = S.code s e
  memory_leave : ∀ s e result, S.memory (S.leave s e result) = S.memory s
  /-- Only the sections look at the memory. -/
  blind : ∀ s m e, (∀ p, S.kind e ≠ .locks p) →
    S.step (S.setMemory s m) e = (S.step s e).map fun s' => S.setMemory s' m
  /-- Whether a section can start does not depend on the memory. -/
  enabled_setMemory : ∀ s m e, (S.step (S.setMemory s m) e).isSome = (S.step s e).isSome
  /-- A step of somebody else leaves a section of `p` to do what it does. -/
  frame : ∀ s s' e e' p, S.kind e' = .locks p → S.Apart e p → S.step s e = some s' →
    (S.step s e').isSome → S.code s' e' = S.code s e' ∧ (S.step s' e').isSome
  steady : ∀ s s' e, (∀ p, S.kind e ≠ .locks p) → S.steady e = true →
    S.step s e = some s' → (∀ p, S.kind e ≠ .exits p) ∧ S.answer s' = S.answer s
  /-- A section without a break is the step. -/
  atomic : ∀ s e p, S.kind e = .locks p → (S.step s e).isSome →
    S.step s e =
      some (S.leave (S.setMemory s ((S.code s e).finish (S.answer s) (S.memory s)).1) e
        ((S.code s e).finish (S.answer s) (S.memory s)).2)

/-- The state of the fine system.  `world` has the memory as it is. -/
structure Fine (P σ ε M X A : Type*) where
  world : σ
  sem : Semaphore.State P
  running : P → Option (ε × Code M X A)

def Fine.initial (s : σ) : Fine P σ ε M X A := ⟨s, Semaphore.initial, fun _ => none⟩

inductive FineEvent (P ε : Type*)
  /-- An event that is not a section. -/
  | plain (e : ε)
  | lock (e : ε)
  /-- A signal ends the wait for the lock, and the section starts without it. -/
  | interrupted (e : ε)
  | access (p : P)
  | unlock (p : P)

variable [DecidableEq P]

def fineStep (f : Fine P σ ε M X A) : FineEvent P ε → Option (Fine P σ ε M X A)
  | .plain e =>
    match S.kind e with
    | .locks _ => none
    | .environment => (S.step f.world e).map fun s => { f with world := s }
    | .moves p =>
      if (f.running p).isSome then none
      else (S.step f.world e).map fun s => { f with world := s }
    | .exits p =>
      (S.step f.world e).bind fun s => (Semaphore.step f.sem (.exit p)).map fun sem =>
        ⟨s, sem, update f.running p none⟩
  | .lock e =>
    match S.kind e with
    | .locks p =>
      if (S.step f.world e).isSome then
        (Semaphore.step f.sem (.lock p)).map fun sem =>
          { f with sem := sem, running := update f.running p (some (e, S.code f.world e)) }
      else none
    | _ => none
  | .interrupted e =>
    match S.kind e with
    | .locks p =>
      if (S.step f.world e).isSome then
        (Semaphore.step f.sem (.interrupted p)).map fun sem =>
          { f with sem := sem, running := update f.running p (some (e, S.code f.world e)) }
      else none
    | _ => none
  | .access p =>
    match f.running p with
    | some (e, .act write next) =>
      let m := S.memory f.world
      let x := S.answer f.world
      some { f with
        world := S.setMemory f.world (write x m)
        running := update f.running p (some (e, next x m)) }
    | _ => none
  | .unlock p =>
    match f.running p with
    | some (e, .done result) =>
      (Semaphore.step f.sem (.unlock p)).map fun sem =>
        ⟨S.leave f.world e result, sem, update f.running p none⟩
    | _ => none

/-- The atomic event that a step of the fine system ends. -/
def label (f : Fine P σ ε M X A) : FineEvent P ε → List ε
  | .plain e => [e]
  | .unlock p => ((f.running p).map Prod.fst).toList
  | _ => []

/-- The atomic events of a run, in the order in which they ended. -/
def trace (f : Fine P σ ε M X A) : List (FineEvent P ε) → List ε
  | [] => []
  | e :: es =>
    match fineStep S f e with
    | none => []
    | some f' => label f e ++ trace f' es

/-! ## What a step does -/

/-- The effects of the steps of the fine system. -/
inductive FineRel (f : Fine P σ ε M X A) : FineEvent P ε → Fine P σ ε M X A → Prop
  | plain (e : ε) (s : σ) (hlocks : ∀ p, S.kind e ≠ .locks p)
      (hout : ∀ p, f.running p ≠ none → S.Apart e p) (hs : S.step f.world e = some s) :
      FineRel f (.plain e) { f with world := s }
  | exits (e : ε) (p : P) (s : σ) (sem : Semaphore.State P) (hkind : S.kind e = .exits p)
      (hs : S.step f.world e = some s) (hsem : Semaphore.step f.sem (.exit p) = some sem) :
      FineRel f (.plain e) ⟨s, sem, update f.running p none⟩
  | lock (e : ε) (p : P) (sem : Semaphore.State P) (hkind : S.kind e = .locks p)
      (henabled : (S.step f.world e).isSome) (hsem : Semaphore.step f.sem (.lock p) = some sem) :
      FineRel f (.lock e)
        { f with sem := sem, running := update f.running p (some (e, S.code f.world e)) }
  | interrupted (e : ε) (f' : Fine P σ ε M X A) : FineRel f (.interrupted e) f'
  | access (p : P) (e : ε) (write : X → M → M) (next : X → M → Code M X A)
      (hrunning : f.running p = some (e, .act write next)) :
      FineRel f (.access p)
        { f with
          world := S.setMemory f.world (write (S.answer f.world) (S.memory f.world))
          running := update f.running p
            (some (e, next (S.answer f.world) (S.memory f.world))) }
  | unlock (p : P) (e : ε) (result : A) (sem : Semaphore.State P)
      (hrunning : f.running p = some (e, .done result))
      (hsem : Semaphore.step f.sem (.unlock p) = some sem) :
      FineRel f (.unlock p) ⟨S.leave f.world e result, sem, update f.running p none⟩

variable {S} {f f' : Fine P σ ε M X A} {e : FineEvent P ε}

theorem fineRel_of_plain {a : ε} (h : fineStep S f (.plain a) = some f') :
    FineRel S f (.plain a) f' := by
  rw [fineStep] at h
  split at h
  · cases h
  · rename_i hkind
    obtain ⟨s, hs, rfl⟩ := Option.map_eq_some_iff.1 h
    refine .plain a s (fun p hp => ?_) (fun p _ => ?_) hs
    · rw [hkind] at hp
      cases hp
    · rw [Sections.Apart, hkind]
      exact trivial
  · rename_i p hkind
    split at h
    · cases h
    · rename_i hout
      obtain ⟨s, hs, rfl⟩ := Option.map_eq_some_iff.1 h
      refine .plain a s (fun q hq => ?_) (fun q hq => ?_) hs
      · rw [hkind] at hq
        cases hq
      · rw [Sections.Apart, hkind]
        rintro rfl
        exact hout (Option.isSome_iff_ne_none.2 hq)
  · rename_i p hkind
    obtain ⟨s, hs, hrest⟩ := Option.bind_eq_some_iff.1 h
    obtain ⟨sem, hsem, rfl⟩ := Option.map_eq_some_iff.1 hrest
    exact .exits a p s sem hkind hs hsem

theorem fineRel_of_step (h : fineStep S f e = some f') : FineRel S f e f' := by
  cases e with
  | plain a => exact fineRel_of_plain h
  | lock a =>
    rw [fineStep] at h
    split at h
    · rename_i p hkind
      split at h
      · rename_i henabled
        obtain ⟨sem, hsem, rfl⟩ := Option.map_eq_some_iff.1 h
        exact .lock a p sem hkind henabled hsem
      · cases h
    · cases h
  | interrupted a => exact .interrupted a f'
  | access p =>
    rw [fineStep] at h
    split at h
    · rename_i a write next hrunning
      obtain rfl := Option.some.inj h
      exact .access p a write next hrunning
    · cases h
  | unlock p =>
    rw [fineStep] at h
    split at h
    · rename_i a result hrunning
      obtain ⟨sem, hsem, rfl⟩ := Option.map_eq_some_iff.1 h
      exact .unlock p a result sem hrunning hsem
    · cases h

/-! ## One process at a time -/

/-- No wait for the lock was interrupted. -/
def Uninterrupted : FineEvent P ε → Prop
  | .interrupted _ => False
  | _ => True

/-- Exactly the process that runs a section is inside, and it is alone. -/
structure WellLocked (S : Sections P σ ε M X A) (f : Fine P σ ε M X A) : Prop where
  bounds : Semaphore.Bounds 0 f.sem
  inside : ∀ p, p ∈ f.sem.inside ↔ f.running p ≠ none
  kind : ∀ p e code, f.running p = some (e, code) → S.kind e = .locks p

theorem wellLocked_initial (s : σ) : WellLocked S (Fine.initial s : Fine P σ ε M X A) := by
  refine ⟨Semaphore.bounds_initial, fun p => ?_, fun p e code h => ?_⟩
  · simp [Fine.initial, Semaphore.initial]
  · cases h

theorem WellLocked.alone (h : WellLocked S f) {p q : P} (hp : f.running p ≠ none)
    (hq : f.running q ≠ none) : p = q := by
  have hone := h.bounds.alone ((h.inside p).2 hp)
  have hmem : q ∈ f.sem.inside := (h.inside q).2 hq
  rw [hone, Finset.mem_singleton] at hmem
  exact hmem.symm

theorem WellLocked.empty_iff (h : WellLocked S f) :
    f.sem.inside = ∅ ↔ ∀ p, f.running p = none := by
  rw [Finset.eq_empty_iff_forall_notMem]
  exact forall_congr' fun p => by rw [h.inside p, not_not]

theorem kind_update {running : P → Option (ε × Code M X A)} {p : P} {e : ε}
    {code : Code M X A} (h : ∀ q e' c, running q = some (e', c) → S.kind e' = .locks q)
    (he : S.kind e = .locks p) (q : P) (e' : ε) (c : Code M X A)
    (hq : update running p (some (e, code)) q = some (e', c)) : S.kind e' = .locks q := by
  by_cases hqp : q = p
  · subst hqp
    rw [update_self] at hq
    obtain ⟨rfl, rfl⟩ := Prod.mk.inj (Option.some.inj hq)
    exact he
  · rw [update_of_ne hqp] at hq
    exact h q e' c hq

theorem kind_update_none {running : P → Option (ε × Code M X A)} {p : P}
    (h : ∀ q e' c, running q = some (e', c) → S.kind e' = .locks q) (q : P) (e' : ε)
    (c : Code M X A) (hq : update running p none q = some (e', c)) : S.kind e' = .locks q := by
  by_cases hqp : q = p
  · subst hqp
    rw [update_self] at hq
    cases hq
  · rw [update_of_ne hqp] at hq
    exact h q e' c hq

theorem ne_none_update {running : P → Option (ε × Code M X A)} {p q : P}
    {v : ε × Code M X A} :
    update running p (some v) q ≠ none ↔ q = p ∨ running q ≠ none := by
  by_cases hqp : q = p
  · subst hqp
    simp
  · simp [hqp]

theorem ne_none_update_none {running : P → Option (ε × Code M X A)} {p q : P} :
    update running p none q ≠ none ↔ q ≠ p ∧ running q ≠ none := by
  by_cases hqp : q = p
  · subst hqp
    simp
  · simp [hqp]

theorem bounds_of_step {sem sem' : Semaphore.State P} {e : Semaphore.Event P}
    (h : Semaphore.Bounds 0 sem) (hs : Semaphore.step sem e = some sem')
    (hcount : Semaphore.interruptions [e] = 0) : Semaphore.Bounds 0 sem' := by
  have hnext := Semaphore.bounds_step h hs
  rwa [hcount] at hnext

/-- An uninterrupted step keeps it so. -/
theorem wellLocked_step (h : WellLocked S f) (he : Uninterrupted e)
    (hs : fineStep S f e = some f') : WellLocked S f' := by
  cases fineRel_of_step hs with
  | plain a s hlocks hout hs => exact ⟨h.bounds, h.inside, h.kind⟩
  | exits a p s sem hkind hs hsem =>
    refine ⟨bounds_of_step h.bounds hsem rfl, fun q => ?_, kind_update_none h.kind⟩
    rw [Semaphore.mem_exit hsem, h.inside, ne_none_update_none]
  | lock a p sem hkind henabled hsem =>
    refine ⟨bounds_of_step h.bounds hsem rfl, fun q => ?_, kind_update h.kind hkind⟩
    rw [Semaphore.mem_lock hsem, h.inside, ne_none_update]
  | interrupted a f' => exact he.elim
  | access p a write next hrunning =>
    have hkind := h.kind p a _ hrunning
    refine ⟨h.bounds, fun q => ?_, kind_update h.kind hkind⟩
    rw [h.inside, ne_none_update, or_iff_right_of_imp]
    rintro rfl
    rw [hrunning]
    exact Option.some_ne_none _
  | unlock p a result sem hrunning hsem =>
    refine ⟨bounds_of_step h.bounds hsem rfl, fun q => ?_, kind_update_none h.kind⟩
    rw [Semaphore.mem_unlock hsem, h.inside, ne_none_update_none]

/-! ## The semaphore in a run -/

/-- The number of waits for the lock that a signal ended. -/
def interruptions : List (FineEvent P ε) → Nat
  | [] => 0
  | .interrupted _ :: es => interruptions es + 1
  | _ :: es => interruptions es

omit [DecidableEq P] in
theorem interruptions_append (es es' : List (FineEvent P ε)) :
    interruptions (es ++ es') = interruptions es + interruptions es' := by
  induction es with
  | nil => simp [interruptions]
  | cons e es ih =>
    cases e <;> simp only [List.cons_append, interruptions, ih]
    omega

/-- A step is at most one operation on the semaphore. -/
theorem sem_step (hs : fineStep S f e = some f') :
    f'.sem = f.sem ∨ ∃ op, Semaphore.step f.sem op = some f'.sem ∧
      Semaphore.interruptions [op] = interruptions [e] := by
  by_cases he : Uninterrupted e
  · cases fineRel_of_step hs with
    | plain a s hlocks hout hs => exact .inl rfl
    | exits a p s sem hkind hs hsem => exact .inr ⟨_, hsem, rfl⟩
    | lock a p sem hkind henabled hsem => exact .inr ⟨_, hsem, rfl⟩
    | interrupted a f' => exact he.elim
    | access p a write next hrunning => exact .inl rfl
    | unlock p a result sem hrunning hsem => exact .inr ⟨_, hsem, rfl⟩
  · cases e with
    | interrupted a =>
      rw [fineStep] at hs
      split at hs
      · rename_i p hkind
        split at hs
        · obtain ⟨sem, hsem, rfl⟩ := Option.map_eq_some_iff.1 hs
          exact .inr ⟨.interrupted p, hsem, rfl⟩
        · cases hs
      · cases hs
    | plain a | lock a | access p | unlock p => exact absurd trivial he

omit [DecidableEq P] in
theorem uninterrupted_of_interruptions {es : List (FineEvent P ε)} (h : interruptions es = 0) :
    ∀ e ∈ es, Uninterrupted e := by
  induction es with
  | nil => exact fun e he => absurd he (List.not_mem_nil)
  | cons e es ih =>
    intro e' he'
    cases e with
    | interrupted a => cases h
    | plain a | lock a | access p | unlock p =>
      obtain rfl | he' := List.mem_cons.1 he'
      · exact trivial
      · exact ih h e' he'

theorem sem_run {es : List (FineEvent P ε)} : ∀ {f f' : Fine P σ ε M X A},
    StepSystem.run (fineStep S) f es = some f' →
    ∃ ops, StepSystem.run Semaphore.step f.sem ops = some f'.sem ∧
      Semaphore.interruptions ops ≤ interruptions es := by
  induction es with
  | nil =>
    intro f f' hrun
    obtain rfl := Option.some.inj hrun
    exact ⟨[], rfl, le_refl 0⟩
  | cons e es ih =>
    intro f f' hrun
    obtain ⟨f₁, hf₁, hrest⟩ := Option.bind_eq_some_iff.1 hrun
    obtain ⟨ops, hops, hcount⟩ := ih hrest
    have hsplit : interruptions (e :: es) = interruptions [e] + interruptions es :=
      interruptions_append [e] es
    obtain hsame | ⟨op, hop, hone⟩ := sem_step hf₁
    · exact ⟨ops, hsame ▸ hops, by omega⟩
    · refine ⟨op :: ops, ?_, ?_⟩
      · rw [StepSystem.run, hop]
        exact hops
      · have hcons : Semaphore.interruptions (op :: ops) =
            Semaphore.interruptions [op] + Semaphore.interruptions ops :=
          Semaphore.interruptions_append [op] ops
        omega

/-- An event that is enabled begins its section as soon as the semaphore lets it. -/
theorem exists_lock_step {a : ε} {p : P} {sem : Semaphore.State P} (hkind : S.kind a = .locks p)
    (henabled : (S.step f.world a).isSome = true)
    (hsem : Semaphore.step f.sem (.lock p) = some sem) :
    ∃ f', fineStep S f (.lock a) = some f' ∧ f'.world = f.world ∧ f'.sem = sem := by
  refine ⟨{ f with sem := sem, running := update f.running p (some (a, S.code f.world a)) },
    ?_, rfl, rfl⟩
  simp only [fineStep, hkind, if_pos henabled, hsem, Option.map_some]

theorem exists_interrupted_step {a : ε} {p : P} {sem : Semaphore.State P}
    (hkind : S.kind a = .locks p) (henabled : (S.step f.world a).isSome = true)
    (hsem : Semaphore.step f.sem (.interrupted p) = some sem) :
    ∃ f', fineStep S f (.interrupted a) = some f' ∧ f'.world = f.world ∧ f'.sem = sem := by
  refine ⟨{ f with sem := sem, running := update f.running p (some (a, S.code f.world a)) },
    ?_, rfl, rfl⟩
  simp only [fineStep, hkind, if_pos henabled, hsem, Option.map_some]

/-- Processes that wait with events that are enabled are interrupted one after the other, as far
as the semaphore lets them. -/
theorem run_interrupted {enter : P → ε} {ps : List P}
    (hkind : ∀ p ∈ ps, S.kind (enter p) = .locks p) :
    ∀ {f : Fine P σ ε M X A} {sem : Semaphore.State P},
    (∀ p ∈ ps, (S.step f.world (enter p)).isSome = true) →
    StepSystem.run Semaphore.step f.sem (ps.map .interrupted) = some sem →
    ∃ f', StepSystem.run (fineStep S) f (ps.map fun p => .interrupted (enter p)) = some f' ∧
      f'.sem = sem := by
  induction ps with
  | nil =>
    intro f sem _ hsem
    exact ⟨f, rfl, Option.some.inj hsem⟩
  | cons p ps ih =>
    intro f sem henabled hsem
    obtain ⟨sem₁, hfirst, hrest⟩ := Option.bind_eq_some_iff.1 hsem
    obtain ⟨f₁, hstep, hworld, rfl⟩ := exists_interrupted_step (hkind p List.mem_cons_self)
      (henabled p List.mem_cons_self) hfirst
    obtain ⟨f', hrun, hlast⟩ := ih (fun q hq => hkind q (List.mem_cons_of_mem p hq))
      (fun q hq => by
        rw [hworld]
        exact henabled q (List.mem_cons_of_mem p hq)) hrest
    refine ⟨f', ?_, hlast⟩
    rw [List.map_cons, StepSystem.run, hstep]
    exact hrun

/-- The same with a first process that takes the lock. -/
theorem run_lock_interrupted (enter : P → ε) {p : P} {ps : List P} {sem : Semaphore.State P}
    (hkind : ∀ q ∈ p :: ps, S.kind (enter q) = .locks q)
    (henabled : ∀ q ∈ p :: ps, (S.step f.world (enter q)).isSome = true)
    (hsem : StepSystem.run Semaphore.step f.sem (.lock p :: ps.map .interrupted) = some sem) :
    ∃ f', StepSystem.run (fineStep S) f
        (.lock (enter p) :: ps.map fun q => .interrupted (enter q)) = some f' ∧
      f'.sem = sem := by
  obtain ⟨sem₁, hfirst, hrest⟩ := Option.bind_eq_some_iff.1 hsem
  obtain ⟨f₁, hstep, hworld, rfl⟩ := exists_lock_step (hkind p List.mem_cons_self)
    (henabled p List.mem_cons_self) hfirst
  rw [StepSystem.run, hstep]
  refine run_interrupted (fun q hq => hkind q (List.mem_cons_of_mem p hq)) (fun q hq => ?_) hrest
  rw [hworld]
  exact henabled q (List.mem_cons_of_mem p hq)

/-! ## The memory -/

/-- Only an access changes the memory. -/
theorem memory_step (hS : Lawful S) (he : Uninterrupted e) (hs : fineStep S f e = some f') :
    S.memory f'.world = S.memory f.world ∨ ∃ p, e = .access p := by
  have hplain : ∀ a s, (∀ p, S.kind a ≠ .locks p) → S.step f.world a = some s →
      S.memory s = S.memory f.world := by
    intro a s hlocks hs
    have hblind := hS.blind f.world (S.memory f.world) a hlocks
    rw [hS.setMemory_memory, hs] at hblind
    have hset : s = S.setMemory s (S.memory f.world) := Option.some.inj hblind
    rw [hset, hS.memory_setMemory]
  cases fineRel_of_step hs with
  | plain a s hlocks hout hstep => exact .inl (hplain a s hlocks hstep)
  | exits a p s sem hkind hstep hsem =>
    refine .inl (hplain a s (fun q hq => ?_) hstep)
    rw [hkind] at hq
    cases hq
  | lock a p sem hkind henabled hsem => exact .inl rfl
  | interrupted a f' => exact he.elim
  | access p a write next hrunning => exact .inr ⟨p, rfl⟩
  | unlock p a result sem hrunning hsem => exact .inl (hS.memory_leave _ _ _)

/-- A plain event changes nothing of it. -/
theorem memory_plain (hS : Lawful S) {a : ε} (hs : fineStep S f (.plain a) = some f') :
    S.memory f'.world = S.memory f.world := by
  obtain hmem | ⟨p, hp⟩ := memory_step (e := .plain a) hS trivial hs
  · exact hmem
  · cases hp

/-- The section of `e` was started in the state `f₀` of a run. -/
def Started (S : Sections P σ ε M X A) (s₀ : σ) (es : List (FineEvent P ε)) (e : ε)
    (f₀ : Fine P σ ε M X A) : Prop :=
  ∃ es₀ es₁, es = es₀ ++ .lock e :: es₁ ∧
    StepSystem.run (fineStep S) (.initial s₀) es₀ = some f₀

theorem Started.append {s₀ : σ} {es : List (FineEvent P ε)} {a : ε}
    {f₀ : Fine P σ ε M X A} (h : Started S s₀ es a f₀) (es' : List (FineEvent P ε)) :
    Started S s₀ (es ++ es') a f₀ := by
  obtain ⟨es₀, es₁, rfl, hrun⟩ := h
  exact ⟨es₀, es₁ ++ es', by rw [List.append_assoc, List.cons_append], hrun⟩

section Access

variable (hS : Lawful S) {R : σ → ε → M → M → Prop}
  (hR : ∀ s e p m, S.kind e = .locks p → (S.step s e).isSome → (S.code s e).Always (R s e) m)
include hS hR

/-- What is left of a section does what the code of the section does. -/
theorem running_always {s₀ : σ} {es : List (FineEvent P ε)} :
    ∀ {f : Fine P σ ε M X A}, StepSystem.run (fineStep S) (.initial s₀) es = some f →
      (∀ e ∈ es, Uninterrupted e) → WellLocked S f ∧
      ∀ p e left, f.running p = some (e, left) →
        ∃ f₀, Started S s₀ es e f₀ ∧ left.Always (R f₀.world e) (S.memory f.world) := by
  induction es using List.reverseRecOn with
  | nil =>
    intro f hrun _
    obtain rfl := Option.some.inj hrun
    exact ⟨wellLocked_initial s₀, fun p e left h => by cases h⟩
  | append_singleton es ev ih =>
    intro f' hrun hun
    rw [StepSystem.run_concat] at hrun
    obtain ⟨f, hf, hstep⟩ := Option.bind_eq_some_iff.1 hrun
    obtain ⟨hlocked, hleft⟩ := ih hf fun e he => hun e (List.mem_append_left _ he)
    have hev : Uninterrupted ev := hun ev (by simp)
    have hlocked' := wellLocked_step hlocked hev hstep
    refine ⟨hlocked', fun p e left hp => ?_⟩
    -- A section that was running before, and whose memory is still the same.
    have hold : S.memory f'.world = S.memory f.world → f.running p = some (e, left) →
        ∃ f₀, Started S s₀ (es ++ [ev]) e f₀ ∧
          left.Always (R f₀.world e) (S.memory f'.world) := by
      intro hmem hold
      obtain ⟨f₀, hstarted, halways⟩ := hleft p e left hold
      exact ⟨f₀, hstarted.append [ev], hmem ▸ halways⟩
    cases fineRel_of_step hstep with
    | plain a s hlocks hout hs =>
      exact hold (memory_plain hS hstep) hp
    | exits a q s sem hkind hs hsem =>
      refine hold (memory_plain hS hstep) ?_
      have hpq : p ≠ q := (ne_none_update_none.1 (hp ▸ Option.some_ne_none _)).1
      have hp' : update f.running q none p = some (e, left) := hp
      rwa [update_of_ne hpq] at hp'
    | lock a q sem hkind henabled hsem =>
      have hp' : update f.running q (some (a, S.code f.world a)) p = some (e, left) := hp
      by_cases hpq : p = q
      · subst hpq
        rw [update_self] at hp'
        obtain ⟨rfl, rfl⟩ := Prod.mk.inj (Option.some.inj hp')
        exact ⟨f, ⟨es, [], rfl, hf⟩, hR _ _ _ _ hkind henabled⟩
      · rw [update_of_ne hpq] at hp'
        exact hold rfl hp'
    | interrupted a f' => exact hev.elim
    | access q a write next hrunning =>
      have hp' : update f.running q
          (some (a, next (S.answer f.world) (S.memory f.world))) p = some (e, left) := hp
      by_cases hpq : p = q
      · subst hpq
        rw [update_self] at hp'
        obtain ⟨rfl, rfl⟩ := Prod.mk.inj (Option.some.inj hp')
        obtain ⟨f₀, hstarted, halways⟩ := hleft p a _ hrunning
        refine ⟨f₀, hstarted.append _, ?_⟩
        show Code.Always _ _ (S.memory (S.setMemory f.world _))
        rw [hS.memory_setMemory]
        exact (halways (S.answer f.world)).2
      · rw [update_of_ne hpq] at hp'
        exact absurd (hlocked.alone (hp' ▸ Option.some_ne_none _)
          (hrunning ▸ Option.some_ne_none _)) hpq
    | unlock q a result sem hrunning hsem =>
      refine hold (hS.memory_leave _ _ _) ?_
      have hpq : p ≠ q := (ne_none_update_none.1 (hp ▸ Option.some_ne_none _)).1
      have hp' : update f.running q none p = some (e, left) := hp
      rwa [update_of_ne hpq] at hp'

/-- An access is one that the section makes when it is alone. -/
theorem access_rel {s₀ : σ} {es : List (FineEvent P ε)} {f f' : Fine P σ ε M X A} {p : P}
    (hrun : StepSystem.run (fineStep S) (.initial s₀) es = some f)
    (hun : ∀ e ∈ es, Uninterrupted e) (hs : fineStep S f (.access p) = some f') :
    ∃ e f₀, S.kind e = .locks p ∧ Started S s₀ es e f₀ ∧
      R f₀.world e (S.memory f.world) (S.memory f'.world) := by
  obtain ⟨hlocked, hleft⟩ := running_always hS hR hrun hun
  cases fineRel_of_step hs with
  | access p a write next hrunning =>
    obtain ⟨f₀, hstarted, halways⟩ := hleft p a _ hrunning
    refine ⟨a, f₀, hlocked.kind p a _ hrunning, hstarted, ?_⟩
    show R _ _ _ (S.memory (S.setMemory f.world _))
    rw [hS.memory_setMemory]
    exact (halways (S.answer f.world)).1

/-- The invariant rule for the memory: what the accesses of a started section keep holds at
every moment. -/
theorem memory_invariant {J : List (FineEvent P ε) → M → Prop} {s₀ : σ}
    (hinit : J [] (S.memory s₀)) (hmono : ∀ es e m, J es m → J (es ++ [e]) m)
    (hkeeps : ∀ es e p f₀ m m', S.kind e = .locks p → Started S s₀ es e f₀ →
      R f₀.world e m m' → J es m → J es m')
    {es : List (FineEvent P ε)} : ∀ {f : Fine P σ ε M X A},
      StepSystem.run (fineStep S) (.initial s₀) es = some f →
      (∀ e ∈ es, Uninterrupted e) → J es (S.memory f.world) := by
  induction es using List.reverseRecOn with
  | nil =>
    intro f hrun _
    obtain rfl := Option.some.inj hrun
    exact hinit
  | append_singleton es ev ih =>
    intro f' hrun hun
    rw [StepSystem.run_concat] at hrun
    obtain ⟨f, hf, hstep⟩ := Option.bind_eq_some_iff.1 hrun
    have hbefore : ∀ e ∈ es, Uninterrupted e := fun e he => hun e (List.mem_append_left _ he)
    have hJ := ih hf hbefore
    obtain hmem | ⟨p, rfl⟩ := memory_step hS (hun ev (by simp)) hstep
    · rw [hmem]
      exact hmono es ev _ hJ
    · obtain ⟨e, f₀, hkind, hstarted, hrel⟩ := access_rel hS hR hf hbefore hstep
      exact hmono es _ _ (hkeeps es e p f₀ _ _ hkind hstarted hrel hJ)

end Access

/-! ## The refinement -/

/-- What the refinement asks of a step of the fine system. -/
def Calm (S : Sections P σ ε M X A) (f : Fine P σ ε M X A) : FineEvent P ε → Prop
  | .interrupted _ => False
  | .plain e => S.steady e = true ∨ ∀ p, f.running p = none
  | _ => True

omit [DecidableEq P] in
instance decidableCalm [Fintype P] (f : Fine P σ ε M X A) :
    ∀ e : FineEvent P ε, Decidable (Calm S f e)
  | .plain e =>
    haveI : Decidable (∀ p, f.running p = none) :=
      decidable_of_iff (∀ p, (f.running p).isNone = true)
        (forall_congr' fun _ => Option.isNone_iff_eq_none)
    inferInstanceAs (Decidable (S.steady e = true ∨ ∀ p, f.running p = none))
  | .lock _ | .access _ | .unlock _ => .isTrue trivial
  | .interrupted _ => .isFalse id

/-- The atomic state has the memory from before the section that is under way. -/
inductive Simulates (S : Sections P σ ε M X A) : σ → Fine P σ ε M X A → Prop
  | outside (f : Fine P σ ε M X A) (h : ∀ p, f.running p = none) : Simulates S f.world f
  | inside (f : Fine P σ ε M X A) (p : P) (e : ε) (left : Code M X A) (m : M)
      (hrunning : f.running p = some (e, left)) (henabled : (S.step f.world e).isSome)
      (hfinish : left.finish (S.answer f.world) (S.memory f.world) =
        (S.code f.world e).finish (S.answer f.world) m) :
      Simulates S (S.setMemory f.world m) f

omit [DecidableEq P] in
theorem Calm.uninterrupted (h : Calm S f e) : Uninterrupted e := by
  cases e with
  | interrupted a => exact h.elim
  | plain a | lock a | access p | unlock p => exact trivial

theorem run_one {step : σ → ε → Option σ} {s s' : σ} {a : ε} (h : step s a = some s') :
    StepSystem.run step s [a] = some s' := by
  rw [StepSystem.run, h]
  rfl

omit [DecidableEq P] in
/-- Between sections the two states are the same. -/
theorem Simulates.eq_world {s : σ} (h : Simulates S s f) (hnone : ∀ p, f.running p = none) :
    s = f.world := by
  cases h with
  | outside f h => rfl
  | inside f p a left m hrunning henabled hfinish =>
    rw [hnone p] at hrunning
    cases hrunning

/-- In a section they differ in the memory, and what is left of the section makes up for it. -/
theorem Simulates.in_section {s : σ} (h : Simulates S s f) (hlocked : WellLocked S f) {p : P}
    {a : ε} {left : Code M X A} (hrunning : f.running p = some (a, left)) :
    ∃ m, s = S.setMemory f.world m ∧ (S.step f.world a).isSome ∧
      left.finish (S.answer f.world) (S.memory f.world) =
        (S.code f.world a).finish (S.answer f.world) m := by
  have hne : f.running p ≠ none := hrunning ▸ Option.some_ne_none _
  cases h with
  | outside f h => exact absurd (h p) hne
  | inside f q a' left' m hrunning' henabled hfinish =>
    obtain rfl := hlocked.alone hne (hrunning' ▸ Option.some_ne_none _)
    rw [hrunning] at hrunning'
    obtain ⟨rfl, rfl⟩ := Prod.mk.inj (Option.some.inj hrunning')
    exact ⟨m, rfl, henabled, hfinish⟩

/-- A step of somebody else is the same step of the atomic system. -/
theorem Simulates.plain (hS : Lawful S) (hlocked : WellLocked S f) {s s' : σ} {a : ε}
    (hsim : Simulates S s f) (hcalm : Calm S f (.plain a)) (hlocks : ∀ p, S.kind a ≠ .locks p)
    (hout : ∀ p, f.running p ≠ none → S.Apart a p) (hstep : S.step f.world a = some s')
    (hmem : S.memory s' = S.memory f.world) :
    ∃ s₁, S.step s a = some s₁ ∧ Simulates S s₁ { f with world := s' } := by
  cases hsim with
  | outside f h => exact ⟨s', hstep, .outside { f with world := s' } h⟩
  | inside f p a' left m hrunning henabled hfinish =>
    have hne : f.running p ≠ none := hrunning ▸ Option.some_ne_none _
    have hsteady : S.steady a = true := hcalm.resolve_right fun h => hne (h p)
    obtain ⟨hcode, hstill⟩ := hS.frame _ _ _ _ p (hlocked.kind p a' _ hrunning)
      (hout p hne) hstep henabled
    have hanswer : S.answer s' = S.answer f.world := (hS.steady _ _ _ hlocks hsteady hstep).2
    refine ⟨S.setMemory s' m, ?_, .inside { f with world := s' } p a' left m hrunning hstill ?_⟩
    · rw [hS.blind _ _ _ hlocks, hstep]
      rfl
    · show left.finish (S.answer s') (S.memory s') = (S.code s' a').finish (S.answer s') m
      rw [hanswer, hmem, hcode, hfinish]

/-- One step of the fine system is no step of the atomic one, or the one that it ends. -/
theorem simulates_step (hS : Lawful S) (hlocked : WellLocked S f) {s : σ}
    (hsim : Simulates S s f) (hcalm : Calm S f e) (hs : fineStep S f e = some f') :
    ∃ s', StepSystem.run S.step s (label f e) = some s' ∧ Simulates S s' f' := by
  cases fineRel_of_step hs with
  | plain a s' hlocks hout hstep =>
    obtain ⟨s₁, hrun, hsim'⟩ :=
      hsim.plain hS hlocked hcalm hlocks hout hstep (memory_plain hS hs)
    exact ⟨s₁, run_one hrun, hsim'⟩
  | exits a p s' sem hkind hstep hsem =>
    have hlocks : ∀ q, S.kind a ≠ .locks q := by
      intro q hq
      rw [hkind] at hq
      cases hq
    have hsteady : ¬ S.steady a = true := fun h => (hS.steady _ _ _ hlocks h hstep).1 p hkind
    have hnone : ∀ q, f.running q = none := hcalm.resolve_left hsteady
    obtain rfl := hsim.eq_world hnone
    refine ⟨s', run_one hstep, .outside ⟨s', sem, _⟩ fun q => ?_⟩
    by_contra hq
    exact (ne_none_update_none.1 hq).2 (hnone q)
  | lock a p sem hkind henabled hsem =>
    obtain rfl := hsim.eq_world (hlocked.empty_iff.1 (hlocked.bounds.lock hsem).1)
    refine ⟨f.world, rfl, ?_⟩
    have hin := Simulates.inside (S := S)
      { f with sem := sem, running := update f.running p (some (a, S.code f.world a)) }
      p a (S.code f.world a) (S.memory f.world) (update_self p _ _) henabled rfl
    rwa [hS.setMemory_memory] at hin
  | interrupted a f' => exact hcalm.elim
  | access p a write next hrunning =>
    obtain ⟨m, rfl, henabled, hfinish⟩ := hsim.in_section hlocked hrunning
    refine ⟨_, rfl, ?_⟩
    have hin := Simulates.inside (S := S)
      { f with
        world := S.setMemory f.world (write (S.answer f.world) (S.memory f.world))
        running := update f.running p
          (some (a, next (S.answer f.world) (S.memory f.world))) }
      p a _ m (update_self p _ _)
      (by rw [hS.enabled_setMemory]; exact henabled)
      (by
        rw [hS.answer_setMemory, hS.memory_setMemory, hS.code_setMemory, ← hfinish]
        rfl)
    rwa [hS.setMemory_setMemory] at hin
  | unlock p a result sem hrunning hsem =>
    obtain ⟨m, rfl, henabled, hfinish⟩ := hsim.in_section hlocked hrunning
    have hlabel : label f (FineEvent.unlock p : FineEvent P ε) = [a] := by
      rw [label, hrunning]
      rfl
    refine ⟨S.leave f.world a result, ?_, .outside ⟨_, sem, _⟩ fun q => ?_⟩
    · rw [hlabel]
      refine run_one ?_
      rw [hS.atomic _ _ p (hlocked.kind p a _ hrunning)
        (by rw [hS.enabled_setMemory]; exact henabled), hS.answer_setMemory,
        hS.memory_setMemory, hS.code_setMemory, hS.setMemory_setMemory, ← hfinish]
      show some (S.leave (S.setMemory f.world (S.memory f.world)) a result) = _
      rw [hS.setMemory_memory]
    · by_contra hq
      obtain ⟨hqp, hq'⟩ := ne_none_update_none.1 hq
      exact hqp (hlocked.alone hq' (hrunning ▸ Option.some_ne_none _))

/-- The refinement: a calm run of the fine system is a run of the atomic one. -/
theorem run_refines (hS : Lawful S) {es : List (FineEvent P ε)} :
    ∀ {f f' : Fine P σ ε M X A} {s : σ}, WellLocked S f → Simulates S s f →
      StepSystem.AllSteps (fineStep S) (Calm S) f es →
      StepSystem.run (fineStep S) f es = some f' →
      WellLocked S f' ∧
        ∃ s', StepSystem.run S.step s (trace S f es) = some s' ∧ Simulates S s' f' := by
  induction es with
  | nil =>
    intro f f' s hlocked hsim _ hrun
    obtain rfl := Option.some.inj hrun
    exact ⟨hlocked, s, rfl, hsim⟩
  | cons e es ih =>
    intro f f' s hlocked hsim hcalm hrun
    obtain ⟨f₁, hf₁, hrest⟩ := Option.bind_eq_some_iff.1 hrun
    obtain ⟨hcalm₁, hcalms⟩ := hcalm f₁ hf₁
    obtain ⟨s₁, hs₁, hsim₁⟩ := simulates_step hS hlocked hsim hcalm₁ hf₁
    obtain ⟨hlocked', s', hs', hsim'⟩ :=
      ih (wellLocked_step hlocked hcalm₁.uninterrupted hf₁) hsim₁ hcalms hrest
    refine ⟨hlocked', s', ?_, hsim'⟩
    rw [trace, hf₁]
    show StepSystem.run S.step s (label f e ++ trace S f₁ es) = some s'
    rw [StepSystem.run_append, hs₁]
    exact hs'

end CriticalSection
