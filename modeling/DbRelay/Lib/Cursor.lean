import Mathlib.Data.List.Basic
import Mathlib.Tactic.Common

/-!
# Loops over a cursor

A loop `while (next) body` where `next` moves a cursor on and tells if something was left.
Such a loop need not end, so `Cursor.loop` counts the tests of its condition, and a result
says that the loop ended.

* `Ends`: a computation with a bound has this result if the bound is large enough.
* `Delivers`: the items that the calls of `next` come to before they end, as a derivation
  without any bound.
* `loop_ends_iff`: a loop ends exactly if its cursor delivers finitely many items, and it
  then comes to the fold over them.  Its body may be such a loop too.
* `each`: such a computation on each item of a list.
-/

namespace Cursor

variable {S A B C : Type}

/-! ## Bounds -/

/-- A computation with a bound has this result from some bound on. -/
def Ends (run : Nat → Option C) (c : C) : Prop := ∃ fuel, run fuel = some c

/-- A larger bound does not change a result. -/
def Steady (run : Nat → Option C) : Prop :=
  ∀ fuel fuel' c, fuel ≤ fuel' → run fuel = some c → run fuel' = some c

theorem steady_const (r : Option C) : Steady fun _ => r := fun _ _ _ _ h => h

theorem ends_const {r : Option C} {c : C} : Ends (fun _ => r) c ↔ r = some c :=
  ⟨fun ⟨_, h⟩ => h, fun h => ⟨0, h⟩⟩

theorem Steady.map {run : Nat → Option B} (h : Steady run) (f : B → C) :
    Steady fun fuel => (run fuel).map f := by
  intro fuel fuel' c hle hrun
  obtain ⟨b, hb, rfl⟩ := Option.map_eq_some_iff.1 hrun
  show (run fuel').map f = some (f b)
  rw [h fuel fuel' b hle hb]
  rfl

theorem ends_map_iff {run : Nat → Option B} {f : B → C} {c : C} :
    Ends (fun fuel => (run fuel).map f) c ↔ ∃ b, Ends run b ∧ f b = c := by
  constructor
  · intro h
    obtain ⟨fuel, hrun⟩ := h
    obtain ⟨b, hb, hc⟩ := Option.map_eq_some_iff.1 hrun
    exact ⟨b, ⟨fuel, hb⟩, hc⟩
  · intro h
    obtain ⟨b, ⟨fuel, hb⟩, hc⟩ := h
    exact ⟨fuel, Option.map_eq_some_iff.2 ⟨b, hb, hc⟩⟩

/-- Something without a bound that comes first. -/
theorem ends_bind_const_iff {r : Option B} {run : B → Nat → Option C} {c : C} :
    Ends (fun fuel => r.bind fun b => run b fuel) c ↔ ∃ b, r = some b ∧ Ends (run b) c := by
  constructor
  · intro h
    obtain ⟨fuel, hrun⟩ := h
    obtain ⟨b, hb, hc⟩ := Option.bind_eq_some_iff.1 hrun
    exact ⟨b, hb, fuel, hc⟩
  · intro h
    obtain ⟨b, hb, fuel, hc⟩ := h
    exact ⟨fuel, Option.bind_eq_some_iff.2 ⟨b, hb, hc⟩⟩

theorem Steady.bind {run : Nat → Option B} (hrun : Steady run) {next : B → Nat → Option C}
    (hnext : ∀ b, Steady (next b)) : Steady fun fuel => (run fuel).bind fun b => next b fuel := by
  intro fuel fuel' c hle h
  obtain ⟨b, hb, hc⟩ := Option.bind_eq_some_iff.1 h
  exact Option.bind_eq_some_iff.2
    ⟨b, hrun fuel fuel' b hle hb, hnext b fuel fuel' c hle hc⟩

/-- The larger of two bounds serves both parts. -/
theorem ends_bind_iff {run : Nat → Option B} (hrun : Steady run) {next : B → Nat → Option C}
    (hnext : ∀ b, Steady (next b)) {c : C} :
    Ends (fun fuel => (run fuel).bind fun b => next b fuel) c ↔
      ∃ b, Ends run b ∧ Ends (next b) c := by
  constructor
  · intro h
    obtain ⟨fuel, h⟩ := h
    obtain ⟨b, hb, hc⟩ := Option.bind_eq_some_iff.1 h
    exact ⟨b, ⟨fuel, hb⟩, fuel, hc⟩
  · intro h
    obtain ⟨b, ⟨fuel₁, hb⟩, fuel₂, hc⟩ := h
    exact ⟨max fuel₁ fuel₂, Option.bind_eq_some_iff.2
      ⟨b, hrun _ _ b (Nat.le_max_left _ _) hb, hnext b _ _ c (Nat.le_max_right _ _) hc⟩⟩

/-! ## Loops -/

/-- `while (next) body` from a state `s`, for at most `fuel` tests.  The body changes what the
loop works on and the state, and what is left of the bound is the bound for the loops in it.
`none` from `next` or from the body ends the program. -/
def loop (next : S → Option (Bool × S)) (body : Nat → B → S → Option (B × S)) :
    Nat → B → S → Option (B × S)
  | 0, _, _ => none
  | fuel + 1, acc, s =>
    match next s with
    | none => none
    | some (false, s) => some (acc, s)
    | some (true, s) => (body fuel acc s).bind fun (acc, s) => loop next body fuel acc s

/-- From a state, the calls of `next` come to these items and end in another state.
`item s a s'` says that a body that starts in `s` finds the item `a`, and leaves `s'`. -/
inductive Delivers (next : S → Option (Bool × S)) (item : S → A → S → Prop) :
    S → List A → S → Prop
  | done {s s' : S} (h : next s = some (false, s')) : Delivers next item s [] s'
  | more {s s₁ s₂ s' : S} {a : A} {as : List A} (h : next s = some (true, s₁))
      (ha : item s₁ a s₂) (rest : Delivers next item s₂ as s') :
      Delivers next item s (a :: as) s'

variable {next : S → Option (Bool × S)} {item : S → A → S → Prop}

theorem Delivers.eq_nil {s s₁ s' : S} {as : List A} (h : Delivers next item s as s')
    (hnext : next s = some (false, s₁)) : as = [] ∧ s' = s₁ := by
  cases h with
  | done h =>
    rw [h] at hnext
    cases hnext
    exact ⟨rfl, rfl⟩
  | more h =>
    rw [h] at hnext
    cases hnext

theorem Delivers.eq_cons {s s₁ s' : S} {as : List A} (h : Delivers next item s as s')
    (hnext : next s = some (true, s₁)) :
    ∃ a rest s₂, as = a :: rest ∧ item s₁ a s₂ ∧ Delivers next item s₂ rest s' := by
  cases h with
  | done h =>
    rw [h] at hnext
    cases hnext
  | more h ha rest =>
    rw [h] at hnext
    cases hnext
    exact ⟨_, _, _, rfl, ha, rest⟩

theorem not_delivers_of_none {s : S} (hnext : next s = none) (as : List A) (s' : S) :
    ¬Delivers next item s as s' := by
  intro h
  cases h with
  | done h =>
    rw [h] at hnext
    cases hnext
  | more h =>
    rw [h] at hnext
    cases hnext

theorem loop_succ_false {body : Nat → B → S → Option (B × S)} {s s' : S}
    (h : next s = some (false, s')) (fuel : Nat) (acc : B) :
    loop next body (fuel + 1) acc s = some (acc, s') := by
  rw [loop, h]

theorem loop_succ_true {body : Nat → B → S → Option (B × S)} {s s' : S}
    (h : next s = some (true, s')) (fuel : Nat) (acc : B) :
    loop next body (fuel + 1) acc s =
      (body fuel acc s').bind fun (acc, s) => loop next body fuel acc s := by
  rw [loop, h]

theorem loop_steady {body : Nat → B → S → Option (B × S)}
    (hbody : ∀ acc s, Steady fun fuel => body fuel acc s) (acc : B) (s : S) :
    Steady fun fuel => loop next body fuel acc s := by
  intro fuel fuel' c hle hrun
  induction fuel generalizing fuel' acc s with
  | zero => cases hrun
  | succ fuel ih =>
    obtain ⟨n, rfl⟩ : ∃ n, fuel' = n + 1 := ⟨fuel' - 1, by omega⟩
    have hn : fuel ≤ n := by omega
    change loop next body (fuel + 1) acc s = some c at hrun
    show loop next body (n + 1) acc s = some c
    rcases hnext : next s with _ | ⟨_ | _, s₁⟩
    · rw [loop, hnext] at hrun
      cases hrun
    · rw [loop_succ_false hnext] at hrun ⊢
      exact hrun
    · rw [loop_succ_true hnext] at hrun ⊢
      obtain ⟨⟨acc₁, s₂⟩, hfirst, hrest⟩ := Option.bind_eq_some_iff.1 hrun
      exact Option.bind_eq_some_iff.2 ⟨_, hbody acc s₁ fuel n _ hn hfirst, ih acc₁ s₂ n hn hrest⟩

/-- A loop ends exactly if its cursor delivers finitely many items.  `P` is an invariant of the
states in which the body starts and ends. -/
theorem loop_ends_iff {body : Nat → B → S → Option (B × S)} {write : B → A → Option B}
    {P : S → Prop} (hnext : ∀ {s s'}, next s = some (true, s') → P s → P s')
    (hitem : ∀ {s a s'}, item s a s' → P s → P s')
    (hsteady : ∀ acc s, Steady fun fuel => body fuel acc s)
    (hbody : ∀ acc s acc' s', P s → (Ends (fun fuel => body fuel acc s) (acc', s') ↔
      ∃ a, item s a s' ∧ write acc a = some acc'))
    (acc : B) {s : S} (hs : P s) (acc' : B) (s' : S) :
    Ends (fun fuel => loop next body fuel acc s) (acc', s') ↔
      ∃ as, Delivers next item s as s' ∧ as.foldlM write acc = some acc' := by
  constructor
  · intro h
    obtain ⟨fuel, hrun⟩ := h
    change loop next body fuel acc s = some (acc', s') at hrun
    induction fuel generalizing acc s with
    | zero => cases hrun
    | succ fuel ih =>
      rcases htest : next s with _ | ⟨_ | _, s₁⟩
      · rw [loop, htest] at hrun
        cases hrun
      · rw [loop_succ_false htest] at hrun
        cases hrun
        exact ⟨[], .done htest, rfl⟩
      · rw [loop_succ_true htest] at hrun
        obtain ⟨⟨acc₁, s₂⟩, hfirst, hrest⟩ := Option.bind_eq_some_iff.1 hrun
        have hs₁ := hnext htest hs
        obtain ⟨a, ha, hwrite⟩ := (hbody acc s₁ acc₁ s₂ hs₁).1 ⟨fuel, hfirst⟩
        obtain ⟨as, has, hfold⟩ := ih acc₁ (hitem ha hs₁) hrest
        exact ⟨a :: as, .more htest ha has, by
          rw [List.foldlM_cons, hwrite]
          exact hfold⟩
  · intro h
    obtain ⟨as, has, hfold⟩ := h
    induction has generalizing acc with
    | done htest =>
      rw [← show acc = acc' from Option.some.inj hfold]
      exact ⟨1, loop_succ_false htest 0 acc⟩
    | @more s s₁ s₂ s' a as htest ha rest ih =>
      rw [List.foldlM_cons] at hfold
      obtain ⟨acc₁, hwrite, hrest⟩ := Option.bind_eq_some_iff.1 hfold
      have hs₁ := hnext htest hs
      obtain ⟨fuel₁, hfirst⟩ := (hbody acc s₁ acc₁ s₂ hs₁).2 ⟨a, ha, hwrite⟩
      obtain ⟨fuel₂, hlast⟩ := ih acc₁ (hitem ha hs₁) hrest
      -- The larger of the two bounds serves the body and the rest of the loop.
      refine ⟨max fuel₁ fuel₂ + 1, ?_⟩
      show loop next body (max fuel₁ fuel₂ + 1) acc s = some (acc', s')
      rw [loop_succ_true htest]
      exact Option.bind_eq_some_iff.2 ⟨_, hsteady acc s₁ _ _ _ (Nat.le_max_left _ _) hfirst,
        loop_steady hsteady acc₁ s₂ _ _ _ (Nat.le_max_right _ _) hlast⟩

/-! ## Cursors that do not end -/

/-- A cursor that stays in a set of states and always has something left delivers no finite
list. -/
theorem not_delivers_of_always {P : S → Prop} {s : S} (hs : P s)
    (hnext : ∀ s, P s → ∃ s₁, next s = some (true, s₁) ∧ ∀ a s₂, item s₁ a s₂ → P s₂)
    (as : List A) (s' : S) : ¬Delivers next item s as s' := by
  intro h
  induction h with
  | done h =>
    obtain ⟨s₁, htrue, -⟩ := hnext _ hs
    rw [h] at htrue
    cases htrue
  | more h ha rest ih =>
    obtain ⟨s₁, htrue, hstays⟩ := hnext _ hs
    rw [h] at htrue
    cases htrue
    exact ih (hstays _ _ ha)

/-! ## One after another -/

/-- A computation with a bound on each item of a list, with what each comes to. -/
def each (run : Nat → S → A → Option (B × S)) (fuel : Nat) : S → List A → Option (List B × S)
  | s, [] => some ([], s)
  | s, a :: as =>
    (run fuel s a).bind fun first =>
      (each run fuel first.2 as).map fun rest => (first.1 :: rest.1, rest.2)

variable {run : Nat → S → A → Option (B × S)} (hrun : ∀ s a, Steady fun fuel => run fuel s a)

include hrun in
theorem each_steady (s : S) (as : List A) : Steady fun fuel => each run fuel s as := by
  induction as generalizing s with
  | nil => exact steady_const _
  | cons a as ih => exact (hrun s a).bind fun first => (ih first.2).map _

theorem each_nil_ends_iff {s s' : S} {bs : List B} :
    Ends (fun fuel => each run fuel s []) (bs, s') ↔ bs = [] ∧ s' = s := by
  show Ends (fun _ => some ([], s)) (bs, s') ↔ _
  rw [ends_const, Option.some.injEq, Prod.mk.injEq]
  exact and_congr eq_comm eq_comm

include hrun in
theorem each_cons_ends_iff {s s' : S} {a : A} {as : List A} {bs : List B} :
    Ends (fun fuel => each run fuel s (a :: as)) (bs, s') ↔
      ∃ b rest s₁, bs = b :: rest ∧ Ends (fun fuel => run fuel s a) (b, s₁) ∧
        Ends (fun fuel => each run fuel s₁ as) (rest, s') := by
  have hrest : ∀ first : B × S, Steady fun fuel =>
      (each run fuel first.2 as).map fun last => (first.1 :: last.1, last.2) :=
    fun first => (each_steady hrun first.2 as).map _
  refine (ends_bind_iff (hrun s a) hrest).trans ?_
  simp only [ends_map_iff, Prod.exists, Prod.mk.injEq]
  constructor
  · intro h
    obtain ⟨b, s₁, hfirst, rest, s₂, hlast, rfl, rfl⟩ := h
    exact ⟨b, rest, s₁, rfl, hfirst, hlast⟩
  · intro h
    obtain ⟨b, rest, s₁, rfl, hfirst, hlast⟩ := h
    exact ⟨b, s₁, hfirst, rest, s', hlast, rfl, rfl⟩

end Cursor
