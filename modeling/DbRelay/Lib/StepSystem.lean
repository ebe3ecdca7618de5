import Mathlib.Data.Finset.Card
import Mathlib.Data.Fintype.Basic
import Mathlib.Algebra.BigOperators.Ring.Finset

/-!
# Runs of an event-driven system

A system is a partial function `step : σ → ε → Option σ`: an event either
takes a state to the next one or is not enabled there.  A run is a list of
events.  Safety results quantify over every state that a run visits, and
their hypotheses over every step that it takes, so both are predicates on
the pair of a start state and a list of events.

`allStates_of_step` is the invariant rule, and `allStates_iff_allSteps` is
its exact form, for a guard whose violation breaks the property at once.

The last section counts the parties of a finite family that satisfy a
predicate, and says how the count moves when one party changes.
-/

namespace StepSystem

section Runs

variable {σ ε : Type*} (step : σ → ε → Option σ)

/-- The state after a list of events, when every one of them is enabled. -/
def run : σ → List ε → Option σ
  | s, [] => some s
  | s, e :: es => (step s e).bind fun s' => run s' es

theorem run_concat (s : σ) (es : List ε) (e : ε) :
    run step s (es ++ [e]) = (run step s es).bind fun s' => step s' e := by
  induction es generalizing s with
  | nil =>
    rw [List.nil_append, run, run, Option.bind_some]
    exact Option.bind_fun_some (step s e)
  | cons e' es ih =>
    rw [List.cons_append, run, run, Option.bind_assoc]
    exact congrArg _ (funext ih)

theorem run_append (s : σ) (es es' : List ε) :
    run step s (es ++ es') = (run step s es).bind fun s' => run step s' es' := by
  induction es generalizing s with
  | nil => rfl
  | cons e es ih =>
    rw [List.cons_append, run, run, Option.bind_assoc]
    exact congrArg _ (funext ih)

/-- `P` holds in every state that the run visits, the first included. -/
def AllStates (P : σ → Prop) : σ → List ε → Prop
  | s, [] => P s
  | s, e :: es => P s ∧ ∀ s', step s e = some s' → AllStates P s' es

/-- `G` holds at every step that the run takes, of the state before the
step and the event. -/
def AllSteps (G : σ → ε → Prop) : σ → List ε → Prop
  | _, [] => True
  | s, e :: es => ∀ s', step s e = some s' → G s e ∧ AllSteps G s' es

/-- `G` holds at every event that the run comes to, also at one that is not
enabled. -/
def AllEvents (G : σ → ε → Prop) : σ → List ε → Prop
  | _, [] => True
  | s, e :: es => G s e ∧ ∀ s', step s e = some s' → AllEvents G s' es

variable {step} {P Q : σ → Prop} {G : σ → ε → Prop}

/-- Two guards that agree in the states of an invariant agree along a run. -/
theorem allEvents_iff_of_inv {G' : σ → ε → Prop}
    (hstep : ∀ s e s', P s → step s e = some s' → P s')
    (hG : ∀ s e, P s → (G s e ↔ G' s e)) {es : List ε} :
    ∀ {s : σ}, P s → (AllEvents step G s es ↔ AllEvents step G' s es) := by
  induction es with
  | nil => exact fun _ => Iff.rfl
  | cons e es ih =>
    intro s hP
    exact and_congr (hG s e hP) (forall₂_congr fun s' hs => ih (hstep s e s' hP hs))

theorem allEvents_congr {G' : σ → ε → Prop} (hG : ∀ s e, G s e ↔ G' s e) {es : List ε}
    {s : σ} : AllEvents step G s es ↔ AllEvents step G' s es :=
  allEvents_iff_of_inv (P := fun _ => True) (fun _ _ _ _ _ => trivial) (fun s e _ => hG s e)
    trivial

theorem AllStates.head {s : σ} {es : List ε} (h : AllStates step P s es) :
    P s := by
  cases es with
  | nil => exact h
  | cons e es => exact h.1

theorem AllStates.mono (hPQ : ∀ s, P s → Q s) {es : List ε} :
    ∀ {s : σ}, AllStates step P s es → AllStates step Q s es := by
  induction es with
  | nil => exact fun h => hPQ _ h
  | cons e es ih => exact fun h => ⟨hPQ _ h.1, fun s' hs => ih (h.2 s' hs)⟩

theorem AllSteps.mono {G' : σ → ε → Prop} (hG : ∀ s e, G s e → G' s e)
    {es : List ε} :
    ∀ {s : σ}, AllSteps step G s es → AllSteps step G' s es := by
  induction es with
  | nil => exact fun _ => trivial
  | cons e es ih =>
    intro s h s' hs
    exact ⟨hG _ _ (h s' hs).1, ih (h s' hs).2⟩

/-- A guard that can be evaluated can be evaluated along a run. -/
instance decidableAllSteps [∀ s e, Decidable (G s e)] :
    ∀ (s : σ) (es : List ε), Decidable (AllSteps step G s es)
  | _, [] => .isTrue trivial
  | s, e :: es =>
    match hs : step s e with
    | none => .isTrue fun s' h => by rw [hs] at h; cases h
    | some s₁ =>
      match (inferInstance : Decidable (G s e)), decidableAllSteps s₁ es with
      | .isTrue hG, .isTrue hrest =>
        .isTrue fun s' h => by
          rw [hs] at h
          obtain rfl := Option.some.inj h
          exact ⟨hG, hrest⟩
      | .isFalse hG, _ => .isFalse fun h => hG (h s₁ hs).1
      | _, .isFalse hrest => .isFalse fun h => hrest (h s₁ hs).2

/-- The states of a run are the states after its prefixes. -/
theorem allStates_iff_run {es : List ε} : ∀ {s : σ},
    AllStates step P s es ↔
      ∀ es₁ es₂ s', es = es₁ ++ es₂ → run step s es₁ = some s' → P s' := by
  induction es with
  | nil =>
    intro s
    constructor
    · rintro h es₁ es₂ s' hes hrun
      obtain ⟨rfl, rfl⟩ := List.append_eq_nil_iff.1 hes.symm
      obtain rfl : s = s' := Option.some.inj hrun
      exact h
    · exact fun h => h [] [] s rfl rfl
  | cons e es ih =>
    intro s
    constructor
    · rintro ⟨hs, hnext⟩ es₁ es₂ s' hes hrun
      cases es₁ with
      | nil =>
        obtain rfl : s = s' := Option.some.inj hrun
        exact hs
      | cons e₁ es₁ =>
        obtain ⟨rfl, rfl⟩ := List.cons_eq_cons.1 hes
        obtain ⟨s₁, hstep, hrun₁⟩ := Option.bind_eq_some_iff.1 hrun
        exact ih.1 (hnext s₁ hstep) es₁ es₂ s' rfl hrun₁
    · intro h
      refine ⟨h [] (e :: es) s rfl rfl, fun s₁ hstep => ih.2 ?_⟩
      intro es₁ es₂ s' hes hrun
      refine h (e :: es₁) es₂ s' (by rw [hes]; rfl) ?_
      rw [run, hstep]
      exact hrun

/-- What each step keeps holds at the end. -/
theorem run_keeps {es : List ε}
    (hstep : ∀ s e s', e ∈ es → P s → step s e = some s' → P s') :
    ∀ {s s' : σ}, run step s es = some s' → P s → P s' := by
  induction es with
  | nil =>
    intro s s' hrun hP
    obtain rfl : s = s' := Option.some.inj hrun
    exact hP
  | cons e es ih =>
    intro s s' hrun hP
    obtain ⟨s₁, hs₁, hrest⟩ := Option.bind_eq_some_iff.1 hrun
    exact ih (fun s e' s' he' => hstep s e' s' (List.mem_cons_of_mem e he')) hrest
      (hstep s e s₁ List.mem_cons_self hP hs₁)

/-- When a step outside the guard loses the property for good, the property holds at the end
exactly when every step met the guard. -/
theorem run_iff_allSteps {es : List ε}
    (hstep : ∀ s e s', P s → G s e → step s e = some s' → P s')
    (hbreak : ∀ s e s', P s → ¬ G s e → step s e = some s' → Q s')
    (hlost : ∀ s e s', Q s → step s e = some s' → Q s') (hnot : ∀ s, Q s → ¬ P s) :
    ∀ {s s' : σ}, P s → run step s es = some s' → (P s' ↔ AllSteps step G s es) := by
  induction es with
  | nil =>
    intro s s' hP hrun
    obtain rfl : s = s' := Option.some.inj hrun
    exact iff_of_true hP trivial
  | cons e es ih =>
    intro s s' hP hrun
    obtain ⟨s₁, hs₁, hrest⟩ := Option.bind_eq_some_iff.1 hrun
    by_cases hG : G s e
    · rw [ih (hstep s e s₁ hP hG hs₁) hrest]
      constructor
      · intro h s₂ hs₂
        obtain rfl : s₁ = s₂ := Option.some.inj (hs₁.symm.trans hs₂)
        exact ⟨hG, h⟩
      · exact fun h => (h s₁ hs₁).2
    · refine iff_of_false (hnot s' ?_) fun h => hG (h s₁ hs₁).1
      exact run_keeps (fun s e s' _ => hlost s e s') hrest (hbreak s e s₁ hP hG hs₁)

/-- A run that ends in a state where a test for `¬ P` succeeds refutes `P`
along that run.  The test and the run can both be evaluated. -/
theorem not_allStates_of_run {p : σ → Bool} (hp : ∀ s, p s = true → ¬ P s)
    {s : σ} {es : List ε} (hrun : (run step s es).any p = true) :
    ¬ AllStates step P s es := by
  obtain ⟨s', hs', hps⟩ := (Option.any_eq_true _ _).1 hrun
  exact fun h => hp s' hps (allStates_iff_run.1 h es [] s' (by simp) hs')

/-- The invariant rule.  A property that every guarded step keeps holds in
every state of a run whose steps all meet the guard. -/
theorem allStates_of_step
    (hstep : ∀ s e s', P s → G s e → step s e = some s' → P s')
    {es : List ε} : ∀ {s : σ}, P s → AllSteps step G s es →
      AllStates step P s es := by
  induction es with
  | nil => exact fun hP _ => hP
  | cons e es ih =>
    intro s hP hG
    refine ⟨hP, fun s' hs => ?_⟩
    have hnext := hG s' hs
    exact ih (hstep s e s' hP hnext.1 hs) hnext.2

/-- The exact invariant rule.  When a step outside the guard always breaks
the property, the property holds along a run exactly when every step meets
the guard. -/
theorem allStates_iff_allSteps
    (hstep : ∀ s e s', P s → G s e → step s e = some s' → P s')
    (hbreak : ∀ s e s', P s → ¬ G s e → step s e = some s' → ¬ P s')
    {es : List ε} : ∀ {s : σ}, P s →
      (AllStates step P s es ↔ AllSteps step G s es) := by
  induction es with
  | nil => exact fun hP => ⟨fun _ => trivial, fun _ => hP⟩
  | cons e es ih =>
    intro s hP
    constructor
    · intro h s' hs
      have hP' : P s' := (h.2 s' hs).head
      refine ⟨?_, (ih hP').1 (h.2 s' hs)⟩
      by_contra hG
      exact hbreak s e s' hP hG hs hP'
    · exact allStates_of_step hstep hP

end Runs

section Counting

variable {ι α : Type*} [Fintype ι] [DecidableEq ι]

/-- The number of members of a finite family whose value satisfies `p`. -/
def countOf (f : ι → α) (p : α → Bool) : Nat :=
  (Finset.univ.filter fun i => p (f i)).card

/-- How the count moves when one member changes. -/
theorem countOf_update (f : ι → α) (p : α → Bool) (i : ι) (x : α) :
    countOf (Function.update f i x) p + (p (f i)).toNat =
      countOf f p + (p x).toNat := by
  have hsplit : ∀ g : ι → α,
      countOf g p = (p (g i)).toNat + ∑ j ∈ Finset.univ.erase i, (p (g j)).toNat := by
    intro g
    have hbool : ∀ b : Bool, (if b = true then 1 else 0) = b.toNat := by
      intro b
      cases b <;> rfl
    rw [countOf, Finset.card_filter, ← Finset.add_sum_erase _ _ (Finset.mem_univ i)]
    simp only [hbool]
  have hrest : ∑ j ∈ Finset.univ.erase i, (p (Function.update f i x j)).toNat =
      ∑ j ∈ Finset.univ.erase i, (p (f j)).toNat := by
    refine Finset.sum_congr rfl fun j hj => ?_
    rw [Function.update_of_ne (Finset.ne_of_mem_erase hj)]
  rw [hsplit, hsplit f, hrest, Function.update_self]
  omega

/-- A member that does not start to satisfy the predicate does not raise the
count. -/
theorem countOf_update_le (f : ι → α) (p : α → Bool) (i : ι) (x : α)
    (h : p x = true → p (f i) = true) :
    countOf (Function.update f i x) p ≤ countOf f p := by
  have hmove := countOf_update f p i x
  have hle : (p x).toNat ≤ (p (f i)).toNat := Bool.toNat_le_toNat h
  omega

omit [DecidableEq ι] in
/-- A member that satisfies the predicate is counted. -/
theorem countOf_pos (f : ι → α) (p : α → Bool) {i : ι} (h : p (f i) = true) :
    0 < countOf f p :=
  Finset.card_pos.2 ⟨i, by simp [h]⟩

end Counting

end StepSystem
