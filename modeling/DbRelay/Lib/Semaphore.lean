import DbRelay.Lib.StepSystem
import Mathlib.Algebra.BigOperators.Ring.Finset
import Mathlib.Algebra.Order.BigOperators.Group.Finset

/-!
# A semaphore with undo counts

A System V semaphore that starts at one and guards one critical section.  A
process takes it with `semop(-1)` and gives it back with `semop(+1)`, both with
`SEM_UNDO`: the kernel keeps for each process the negated sum of its operations,
adds it to the value when the process exits, and stops at zero.

A process that waits may be interrupted by a signal.  Then `semop` fails, and a
caller that does not look at the error goes on into the section without the
semaphore.  `interrupted` is that step.

The value and the number of processes inside add up to at most one more than the
number of interruptions (`Bounds`), so those alone decide how many can be inside
at once, and `crowd_run` shows that the bound is met.  They add up to at least
one (`Kept`), so nothing that happens locks the section for ever.
-/

namespace Semaphore

open Function

variable {P : Type*}

structure State (P : Type*) where
  value : Nat
  /-- What the kernel adds to the value when the process exits. -/
  undo : P → Int
  /-- The processes between their lock and their unlock. -/
  inside : Finset P

def initial : State P := ⟨1, fun _ => 0, ∅⟩

inductive Event (P : Type*)
  | lock (p : P)
  /-- A signal ends the wait, and the process goes on. -/
  | interrupted (p : P)
  | unlock (p : P)
  | exit (p : P)

variable [DecidableEq P]

def step (s : State P) : Event P → Option (State P)
  | .lock p =>
    if p ∉ s.inside ∧ 0 < s.value then
      some ⟨s.value - 1, update s.undo p (s.undo p + 1), insert p s.inside⟩
    else none
  | .interrupted p =>
    if p ∉ s.inside ∧ s.value = 0 then some { s with inside := insert p s.inside }
    else none
  | .unlock p =>
    if p ∈ s.inside then
      some ⟨s.value + 1, update s.undo p (s.undo p - 1), s.inside.erase p⟩
    else none
  | .exit p =>
    some ⟨(s.value + s.undo p).toNat, update s.undo p 0, s.inside.erase p⟩

/-- The number of waits that a signal ended. -/
def interruptions : List (Event P) → Nat
  | [] => 0
  | .interrupted _ :: es => interruptions es + 1
  | _ :: es => interruptions es

omit [DecidableEq P] in
theorem interruptions_append (es es' : List (Event P)) :
    interruptions (es ++ es') = interruptions es + interruptions es' := by
  induction es with
  | nil => simp [interruptions]
  | cons e es ih =>
    cases e <;> simp only [List.cons_append, interruptions, ih]
    omega

/-! ## How many are inside -/

/-- The invariant after `k` interruptions. -/
structure Bounds (k : Nat) (s : State P) : Prop where
  /-- A process is owed at most the one operation of its lock. -/
  undo : ∀ p, s.undo p ≤ if p ∈ s.inside then 1 else 0
  upper : s.value + s.inside.card ≤ 1 + k

theorem bounds_initial : Bounds 0 (initial : State P) := by
  refine ⟨fun p => ?_, ?_⟩
  · simp [initial]
  · simp [initial]

theorem undo_update {undo : P → Int} {inside : Finset P} (p : P) (x : Int)
    {inside' : Finset P} (h : ∀ q, undo q ≤ if q ∈ inside then 1 else 0)
    (hsame : ∀ q, q ≠ p → (q ∈ inside' ↔ q ∈ inside))
    (hp : x ≤ if p ∈ inside' then 1 else 0) (q : P) :
    update undo p x q ≤ if q ∈ inside' then 1 else 0 := by
  by_cases hq : q = p
  · subst hq
    rwa [update_self]
  · rw [update_of_ne hq]
    simpa only [hsame q hq] using h q

/-- One step keeps the invariant, and an interruption raises its count. -/
theorem bounds_step {k : Nat} {s s' : State P} {e : Event P} (h : Bounds k s)
    (hs : step s e = some s') : Bounds (k + interruptions [e]) s' := by
  have hupper := h.upper
  cases e with
  | lock p =>
    rw [step] at hs
    split at hs
    · rename_i hguard
      obtain rfl := Option.some.inj hs
      have hp := h.undo p
      rw [if_neg hguard.1] at hp
      refine ⟨fun q => ?_, ?_⟩
      · refine undo_update p _ h.undo (fun q hq => by simp [hq]) ?_ q
        simp only [Finset.mem_insert_self, if_true]
        omega
      · rw [Finset.card_insert_of_notMem hguard.1]
        show s.value - 1 + (s.inside.card + 1) ≤ 1 + (k + 0)
        omega
    · cases hs
  | interrupted p =>
    rw [step] at hs
    split at hs
    · rename_i hguard
      obtain rfl := Option.some.inj hs
      refine ⟨fun q => ?_, ?_⟩
      · refine (h.undo q).trans ?_
        show _ ≤ if q ∈ insert p s.inside then (1 : Int) else 0
        by_cases hq : q ∈ s.inside
        · rw [if_pos hq, if_pos (Finset.mem_insert_of_mem hq)]
        · rw [if_neg hq]
          split <;> omega
      · show s.value + (insert p s.inside).card ≤ 1 + (k + 1)
        rw [Finset.card_insert_of_notMem hguard.1]
        omega
    · cases hs
  | unlock p =>
    rw [step] at hs
    split at hs
    · rename_i hin
      obtain rfl := Option.some.inj hs
      have hp := h.undo p
      rw [if_pos hin] at hp
      have hcard := Finset.card_erase_add_one hin
      refine ⟨fun q => ?_, ?_⟩
      · refine undo_update p _ h.undo (fun q hq => by simp [hq]) ?_ q
        simp only [Finset.notMem_erase, if_false]
        omega
      · show s.value + 1 + (s.inside.erase p).card ≤ 1 + (k + 0)
        omega
    · cases hs
  | exit p =>
    rw [step] at hs
    obtain rfl := Option.some.inj hs
    have hp := h.undo p
    refine ⟨fun q => ?_, ?_⟩
    · exact undo_update p 0 h.undo (fun q hq => by simp [hq]) (by split <;> omega) q
    · show (s.value + s.undo p).toNat + (s.inside.erase p).card ≤ 1 + (k + 0)
      by_cases hin : p ∈ s.inside
      · have hcard := Finset.card_erase_add_one hin
        rw [if_pos hin] at hp
        omega
      · rw [Finset.erase_eq_of_notMem hin]
        rw [if_neg hin] at hp
        omega

/-- The invariant along a run. -/
theorem bounds_run {es : List (Event P)} : ∀ {k : Nat} {s s' : State P}, Bounds k s →
    StepSystem.run step s es = some s' → Bounds (k + interruptions es) s' := by
  induction es with
  | nil =>
    intro k s s' h hrun
    obtain rfl : s = s' := Option.some.inj hrun
    exact h
  | cons e es ih =>
    intro k s s' h hrun
    obtain ⟨s₁, hs₁, hrest⟩ := Option.bind_eq_some_iff.1 hrun
    have hnext := ih (bounds_step h hs₁) hrest
    rwa [Nat.add_assoc, ← interruptions_append, List.singleton_append] at hnext

/-- Without an interruption a process inside is alone. -/
theorem Bounds.alone {s : State P} (h : Bounds 0 s) {p : P} (hp : p ∈ s.inside) :
    s.inside = {p} := by
  have hupper := h.upper
  refine Finset.eq_singleton_iff_unique_mem.2 ⟨hp, fun q hq => ?_⟩
  exact Finset.card_le_one.1 (show s.inside.card ≤ 1 by omega) q hq p hp

/-- The semaphore is taken only when nobody is inside. -/
theorem Bounds.lock {s s' : State P} (h : Bounds 0 s) {p : P}
    (hs : step s (.lock p) = some s') : s.inside = ∅ ∧ s'.inside = {p} := by
  have hupper := h.upper
  rw [step] at hs
  split at hs
  · rename_i hguard
    obtain rfl := Option.some.inj hs
    have hempty : s.inside = ∅ := Finset.card_eq_zero.1 (by omega)
    refine ⟨hempty, ?_⟩
    show insert p s.inside = {p}
    rw [hempty, insert_empty_eq]
  · cases hs

theorem mem_lock {s s' : State P} {p : P} (hs : step s (.lock p) = some s') (q : P) :
    q ∈ s'.inside ↔ q = p ∨ q ∈ s.inside := by
  rw [step] at hs
  split at hs
  · obtain rfl := Option.some.inj hs
    exact Finset.mem_insert
  · cases hs

theorem mem_unlock {s s' : State P} {p : P} (hs : step s (.unlock p) = some s') (q : P) :
    q ∈ s'.inside ↔ q ≠ p ∧ q ∈ s.inside := by
  rw [step] at hs
  split at hs
  · obtain rfl := Option.some.inj hs
    exact Finset.mem_erase
  · cases hs

theorem mem_exit {s s' : State P} {p : P} (hs : step s (.exit p) = some s') (q : P) :
    q ∈ s'.inside ↔ q ≠ p ∧ q ∈ s.inside := by
  obtain rfl := Option.some.inj hs
  exact Finset.mem_erase

/-! ## The semaphore is not lost -/

section Lost

variable [Fintype P]

/-- What the exits of all processes would leave is at least one. -/
def Kept (s : State P) : Prop := 1 ≤ (s.value : Int) + ∑ p, s.undo p

omit [DecidableEq P] in
theorem kept_initial : Kept (initial : State P) := by
  simp [Kept, initial]

theorem sum_update (f : P → Int) (p : P) (x : Int) :
    ∑ q, update f p x q = (∑ q, f q) - f p + x := by
  rw [Finset.sum_update_of_mem (Finset.mem_univ p),
    ← Finset.add_sum_erase _ f (Finset.mem_univ p), Finset.erase_eq]
  omega

theorem kept_step {s s' : State P} {e : Event P} (h : Kept s) (hs : step s e = some s') :
    Kept s' := by
  unfold Kept at h ⊢
  cases e with
  | lock p =>
    rw [step] at hs
    split at hs
    · rename_i hguard
      obtain rfl := Option.some.inj hs
      have hpos := hguard.2
      rw [sum_update]
      show 1 ≤ ((s.value - 1 : Nat) : Int) + _
      omega
    · cases hs
  | interrupted p =>
    rw [step] at hs
    split at hs
    · obtain rfl := Option.some.inj hs
      exact h
    · cases hs
  | unlock p =>
    rw [step] at hs
    split at hs
    · obtain rfl := Option.some.inj hs
      rw [sum_update]
      show 1 ≤ ((s.value + 1 : Nat) : Int) + _
      omega
    · cases hs
  | exit p =>
    rw [step] at hs
    obtain rfl := Option.some.inj hs
    rw [sum_update]
    show 1 ≤ (((s.value + s.undo p).toNat : Nat) : Int) + _
    omega

theorem kept_run {es : List (Event P)} {s s' : State P} (h : Kept s)
    (hrun : StepSystem.run step s es = some s') : Kept s' :=
  StepSystem.run_keeps (fun _ _ _ _ => kept_step) hrun h

/-- The value and the processes inside are at least one. -/
theorem Bounds.lower {k : Nat} {s : State P} (h : Bounds k s) (hkept : Kept s) :
    1 ≤ s.value + s.inside.card := by
  have hsum : ∑ p, s.undo p ≤ ∑ p : P, if p ∈ s.inside then (1 : Int) else 0 :=
    Finset.sum_le_sum fun p _ => h.undo p
  have hcard : (∑ p : P, if p ∈ s.inside then (1 : Int) else 0) = s.inside.card := by
    simp
  unfold Kept at hkept
  omega

end Lost

/-! ## The bound is met -/

/-- Waiters that are interrupted one after the other are all inside. -/
theorem run_interrupted (ps : List P) : ∀ (s : State P), s.value = 0 → ps.Nodup →
    (∀ p ∈ ps, p ∉ s.inside) →
    ∃ s', StepSystem.run step s (ps.map .interrupted) = some s' ∧
      s'.inside.card = s.inside.card + ps.length := by
  induction ps with
  | nil => exact fun s _ _ _ => ⟨s, rfl, rfl⟩
  | cons p ps ih =>
    intro s hvalue hnodup hout
    have hp : p ∉ s.inside := hout p List.mem_cons_self
    obtain ⟨hnew, hrest⟩ := List.nodup_cons.1 hnodup
    obtain ⟨s', hrun, hcard⟩ := ih { s with inside := insert p s.inside } hvalue hrest
      (fun q hq => by
        rw [Finset.mem_insert, not_or]
        exact ⟨fun heq => hnew (heq ▸ hq), hout q (List.mem_cons_of_mem p hq)⟩)
    refine ⟨s', ?_, ?_⟩
    · rw [List.map_cons, StepSystem.run, step, if_pos ⟨hp, hvalue⟩]
      exact hrun
    · rw [hcard, Finset.card_insert_of_notMem hp, List.length_cons]
      omega

/-- One process that holds the semaphore and `k` interrupted ones are inside together. -/
theorem crowd_run {p : P} {ps : List P} (h : (p :: ps).Nodup) :
    ∃ s', StepSystem.run step initial (.lock p :: ps.map .interrupted) = some s' ∧
      s'.inside.card = ps.length + 1 := by
  obtain ⟨hnew, hrest⟩ := List.nodup_cons.1 h
  obtain ⟨s', hrun, hcard⟩ := run_interrupted ps
    ⟨0, update (fun _ => 0) p 1, insert p ∅⟩ rfl hrest fun q hq => by
      simp only [insert_empty_eq, Finset.mem_singleton]
      exact fun heq => hnew (heq ▸ hq)
  refine ⟨s', ?_, ?_⟩
  · rw [StepSystem.run, step]
    simpa [initial] using hrun
  · rw [hcard]
    simp [Nat.add_comm]

end Semaphore
