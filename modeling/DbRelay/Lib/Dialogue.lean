import DbRelay.Lib.StepSystem

/-!
# Two parties that take turns

Two parties exchange bytes over a pair of streams.  Each party is a state with the
`Action` that it takes next: it puts an element on its stream, or it takes a piece off
the other one, or it is done.  The reader `take` says what a piece is.  It gets the
elements that arrived, and a `Reader` is one that waits for more when there is no
whole piece yet.

The four events of `step` are a move of either party, and the arrival of one element
in either direction.  A run is any order of them, so all ways of cutting the streams
into fragments are covered.

`Script` says that the parties take turns: one puts what the other takes in whole
pieces, and then the other way round.  `Within` is the invariant.  From it come the
three results about all runs of such a pair: `run_length_le`, no run goes on for ever,
`run_final`, a run that cannot go on is at the end of the script, and `run_quiet`, a
party that is about to put something has taken all that the other one put.
-/

namespace Dialogue

variable {β σ τ : Type*}

inductive Action (β σ : Type*)
  | put (x : β) (next : σ)
  | get (next : List β → σ)
  | stop

/-- A reader takes the first piece of what arrived, and returns it with the rest. -/
structure Reader (take : List β → Option (List β × List β)) : Prop where
  nil : take [] = none
  append : ∀ s p r t, take s = some (p, r) → take (s ++ t) = some (p, r ++ t)
  shorter : ∀ s p r, take s = some (p, r) → r.length < s.length

/-- The parties, and for each direction what is on the way and what arrived. -/
structure Link (β σ τ : Type*) where
  a : σ
  b : τ
  toB : List β := []
  atB : List β := []
  toA : List β := []
  atA : List β := []

inductive Event
  | a | b
  /-- An element arrives. -/
  | arriveA | arriveB
  deriving DecidableEq

variable (take : List β → Option (List β × List β)) (actA : σ → Action β σ)
  (actB : τ → Action β τ)

def step (l : Link β σ τ) : Event → Option (Link β σ τ)
  | .a =>
    match actA l.a with
    | .put x a => some { l with a := a, toB := l.toB ++ [x] }
    | .get next => (take l.atA).map fun pr => { l with a := next pr.1, atA := pr.2 }
    | .stop => none
  | .b =>
    match actB l.b with
    | .put x b => some { l with b := b, toA := l.toA ++ [x] }
    | .get next => (take l.atB).map fun pr => { l with b := next pr.1, atB := pr.2 }
    | .stop => none
  | .arriveA =>
    match l.toA with
    | [] => none
    | x :: xs => some { l with toA := xs, atA := l.atA ++ [x] }
  | .arriveB =>
    match l.toB with
    | [] => none
    | x :: xs => some { l with toB := xs, atB := l.atB ++ [x] }

/-! ## Turns -/

/-- A party puts a list, and is then in another state. -/
inductive Puts (act : σ → Action β σ) : σ → List β → σ → Prop
  | nil (s : σ) : Puts act s [] s
  | cons {s s₁ s' : σ} {x : β} {xs : List β} (h : act s = .put x s₁)
      (hrest : Puts act s₁ xs s') : Puts act s (x :: xs) s'

/-- A party takes all of a list, piece by piece, and is then in another state. -/
inductive Gets (act : σ → Action β σ) : σ → List β → σ → Prop
  | nil (s : σ) : Gets act s [] s
  | cons {s s' : σ} {next : List β → σ} {xs p r : List β} (h : act s = .get next)
      (hpiece : take xs = some (p, r)) (hrest : Gets act (next p) r s') : Gets act s xs s'

/-- What is left of the turns of two parties, up to a pair of final states.  The number is
the number of elements in them. -/
inductive Script : σ → τ → Nat → σ → τ → Prop
  | nil {a : σ} {b : τ} (ha : actA a = .stop) (hb : actB b = .stop) : Script a b 0 a b
  | cons {a a₁ a₂ a' : σ} {b b₁ b₂ b' : τ} {xs ys : List β} {n : Nat}
      (hask : Puts actA a xs a₁) (hheard : Gets take actB b xs b₁)
      (hanswer : Puts actB b₁ ys b₂) (hread : Gets take actA a₁ ys a₂)
      (hxs : xs ≠ []) (hys : ys ≠ []) (hrest : Script a₂ b₂ n a' b') :
      Script a b (xs.length + ys.length + n) a' b'

/-- The states that two parties with a script go through.  The number is an upper bound of
the steps that are left. -/
inductive Within (a' : σ) (b' : τ) : Link β σ τ → Nat → Prop
  /-- The first party puts, and the second takes. -/
  | asking {l : Link β σ τ} {a₁ a₂ : σ} {b₁ b₂ : τ} {xs ys : List β} {n : Nat}
      (hask : Puts actA l.a xs a₁) (hheard : Gets take actB l.b (l.atB ++ l.toB ++ xs) b₁)
      (hanswer : Puts actB b₁ ys b₂) (hread : Gets take actA a₁ ys a₂) (hys : ys ≠ [])
      (hrest : Script take actA actB a₂ b₂ n a' b') (htoA : l.toA = []) (hatA : l.atA = []) :
      Within a' b' l (3 * xs.length + 2 * l.toB.length + l.atB.length + 3 * ys.length + 3 * n)
  /-- The second party puts, and the first takes. -/
  | answering {l : Link β σ τ} {a₂ : σ} {b₂ : τ} {ys : List β} {n : Nat}
      (hanswer : Puts actB l.b ys b₂) (hread : Gets take actA l.a (l.atA ++ l.toA ++ ys) a₂)
      (hrest : Script take actA actB a₂ b₂ n a' b') (htoB : l.toB = []) (hatB : l.atB = []) :
      Within a' b' l (3 * ys.length + 2 * l.toA.length + l.atA.length + 3 * n)

variable {take actA actB} {l l' : Link β σ τ} {a a' : σ} {b b' : τ} {n : Nat}

theorem within_of_script (h : Script take actA actB a b n a' b') :
    Within take actA actB a' b' { a := a, b := b } (3 * n) := by
  have hread : Gets take actA a (([] : List β) ++ [] ++ []) a := .nil a
  have hwithin := Within.answering (l := { a := a, b := b }) (.nil b) hread h rfl rfl
  simpa using hwithin

/-- A party that still has something to put does that next. -/
theorem Puts.act {act : σ → Action β σ} {s s' : σ} {x : β} {xs : List β}
    (h : Puts act s (x :: xs) s') : ∃ s₁, act s = .put x s₁ ∧ Puts act s₁ xs s' := by
  cases h with
  | cons h hrest => exact ⟨_, h, hrest⟩

theorem Puts.append {act : σ → Action β σ} {s s₁ s' : σ} {xs ys : List β}
    (h : Puts act s xs s₁) (h' : Puts act s₁ ys s') : Puts act s (xs ++ ys) s' := by
  induction h with
  | nil s => exact h'
  | cons hact _ ih => exact .cons hact (ih h')

/-- A party that still has something to take waits for it. -/
theorem Gets.act {act : σ → Action β σ} {s s' : σ} {xs : List β} (h : Gets take act s xs s')
    (hxs : xs ≠ []) : ∃ next p r, act s = .get next ∧ take xs = some (p, r) ∧
      Gets take act (next p) r s' := by
  cases h with
  | nil => exact absurd rfl hxs
  | cons h hpiece hrest => exact ⟨_, _, _, h, hpiece, hrest⟩

theorem Gets.eq {act : σ → Action β σ} {s s' : σ} (htake : Reader take)
    (h : Gets take act s [] s') : s' = s := by
  cases h with
  | nil => rfl
  | cons h hpiece hrest =>
    rw [htake.nil] at hpiece
    cases hpiece

/-- Taking one list after the other. -/
theorem Gets.append {act : σ → Action β σ} (htake : Reader take) {s s₁ s' : σ} {xs ys : List β}
    (h : Gets take act s xs s₁) (h' : Gets take act s₁ ys s') :
    Gets take act s (xs ++ ys) s' := by
  induction h with
  | nil s => exact h'
  | cons h hpiece hrest ih => exact .cons h (htake.append _ _ _ ys hpiece) (ih h')

/-- A party that takes something is as good as any other with the same action. -/
theorem Gets.congr {act : σ → Action β σ} {s s₁ s' : σ} {xs : List β} (hact : act s = act s₁)
    (hxs : xs ≠ []) (h : Gets take act s₁ xs s') : Gets take act s xs s' := by
  obtain ⟨next, p, r, hget, hpiece, hrest⟩ := h.act hxs
  exact .cons (hact.trans hget) hpiece hrest

/-- A piece of what arrived is a piece of all that comes. -/
theorem Gets.of_arrived {act : σ → Action β σ} (htake : Reader take) {s s' : σ}
    {next : List β → σ} {xs ys p r : List β} (h : Gets take act s (xs ++ ys) s')
    (hact : act s = .get next) (hpiece : take xs = some (p, r)) :
    Gets take act (next p) (r ++ ys) s' := by
  have hne : xs ≠ [] := by
    rintro rfl
    rw [htake.nil] at hpiece
    cases hpiece
  obtain ⟨next', p', r', hact', hpiece', hrest⟩ := h.act (List.append_ne_nil_of_left_ne_nil hne ys)
  rw [hact] at hact'
  rw [htake.append _ _ _ ys hpiece] at hpiece'
  cases hact'
  cases hpiece'
  exact hrest

/-! ## The steps -/

theorem step_a_put {x : β} (h : actA l.a = .put x a) :
    step take actA actB l .a = some { l with a := a, toB := l.toB ++ [x] } := by
  rw [step, h]

theorem step_a_get {next : List β → σ} (h : actA l.a = .get next) :
    step take actA actB l .a =
      (take l.atA).map fun pr => { l with a := next pr.1, atA := pr.2 } := by
  rw [step, h]

theorem step_b_put {x : β} (h : actB l.b = .put x b) :
    step take actA actB l .b = some { l with b := b, toA := l.toA ++ [x] } := by
  rw [step, h]

theorem step_b_get {next : List β → τ} (h : actB l.b = .get next) :
    step take actA actB l .b =
      (take l.atB).map fun pr => { l with b := next pr.1, atB := pr.2 } := by
  rw [step, h]

theorem three_lists_nil {xs ys zs : List β} (h : xs ++ ys ++ zs = []) :
    xs = [] ∧ ys = [] ∧ zs = [] := by
  rw [List.append_eq_nil_iff, List.append_eq_nil_iff] at h
  exact ⟨h.1.1, h.1.2, h.2⟩

/-- The second party takes a piece, or answers when it has taken all. -/
theorem within_b_asking (htake : Reader take) {a₁ a₂ : σ} {b₁ b₂ : τ} {xs ys : List β}
    (hask : Puts actA l.a xs a₁) (hheard : Gets take actB l.b (l.atB ++ l.toB ++ xs) b₁)
    (hanswer : Puts actB b₁ ys b₂) (hread : Gets take actA a₁ ys a₂) (hys : ys ≠ [])
    (hrest : Script take actA actB a₂ b₂ n a' b') (htoA : l.toA = []) (hatA : l.atA = [])
    (hs : step take actA actB l .b = some l') :
    ∃ m, m < 3 * xs.length + 2 * l.toB.length + l.atB.length + 3 * ys.length + 3 * n ∧
      Within take actA actB a' b' l' m := by
  by_cases hempty : l.atB ++ l.toB ++ xs = []
  · obtain ⟨hatB, htoB, rfl⟩ := three_lists_nil hempty
    rw [hempty] at hheard
    obtain rfl := hheard.eq htake
    cases hask
    cases ys with
    | nil => exact absurd rfl hys
    | cons y ys =>
      obtain ⟨b₃, hact, hmore⟩ := hanswer.act
      rw [step_b_put hact] at hs
      obtain rfl := Option.some.inj hs
      refine ⟨_, ?_, .answering hmore ?_ hrest htoB hatB⟩
      · show 3 * ys.length + 2 * (l.toA ++ [y]).length + l.atA.length + 3 * n < _
        rw [htoA, hatA, htoB, hatB]
        simp only [List.length_cons, List.length_nil, List.nil_append]
        omega
      · show Gets take actA l.a (l.atA ++ (l.toA ++ [y]) ++ ys) a₂
        rw [htoA, hatA]
        exact hread
  · obtain ⟨next, _, _, hact, _, _⟩ := hheard.act hempty
    rw [step_b_get hact] at hs
    obtain ⟨⟨p, r⟩, hpiece, rfl⟩ := Option.map_eq_some_iff.1 hs
    rw [List.append_assoc] at hheard
    have hnext := hheard.of_arrived htake hact hpiece
    rw [← List.append_assoc] at hnext
    have hlen := htake.shorter _ _ _ hpiece
    refine ⟨_, ?_, .asking hask hnext hanswer hread hys hrest htoA hatA⟩
    show 3 * xs.length + 2 * l.toB.length + r.length + 3 * ys.length + 3 * n < _
    omega

/-- The first party takes a piece, or asks again when it has taken all. -/
theorem within_a_answering (htake : Reader take) {a₂ : σ} {b₂ : τ} {ys : List β}
    (hanswer : Puts actB l.b ys b₂) (hread : Gets take actA l.a (l.atA ++ l.toA ++ ys) a₂)
    (hrest : Script take actA actB a₂ b₂ n a' b') (htoB : l.toB = []) (hatB : l.atB = [])
    (hs : step take actA actB l .a = some l') :
    ∃ m, m < 3 * ys.length + 2 * l.toA.length + l.atA.length + 3 * n ∧
      Within take actA actB a' b' l' m := by
  by_cases hempty : l.atA ++ l.toA ++ ys = []
  · obtain ⟨hatA, htoA, rfl⟩ := three_lists_nil hempty
    rw [hempty] at hread
    obtain rfl := hread.eq htake
    cases hanswer
    cases hrest with
    | nil ha hb =>
      rw [step, ha] at hs
      cases hs
    | cons hask hheard hanswer hread hxs hys hrest =>
      rename_i xs ys n
      cases xs with
      | nil => exact absurd rfl hxs
      | cons x xs =>
        obtain ⟨a₃, hact, hmore⟩ := hask.act
        rw [step_a_put hact] at hs
        obtain rfl := Option.some.inj hs
        refine ⟨_, ?_, .asking hmore ?_ hanswer hread hys hrest htoA hatA⟩
        · show 3 * xs.length + 2 * (l.toB ++ [x]).length + l.atB.length + 3 * ys.length +
            3 * n < _
          rw [htoA, hatA, htoB, hatB]
          simp only [List.length_cons, List.length_nil, List.nil_append]
          omega
        · show Gets take actB l.b (l.atB ++ (l.toB ++ [x]) ++ xs) _
          rw [htoB, hatB]
          exact hheard
  · obtain ⟨next, _, _, hact, _, _⟩ := hread.act hempty
    rw [step_a_get hact] at hs
    obtain ⟨⟨p, r⟩, hpiece, rfl⟩ := Option.map_eq_some_iff.1 hs
    rw [List.append_assoc] at hread
    have hnext := hread.of_arrived htake hact hpiece
    rw [← List.append_assoc] at hnext
    have hlen := htake.shorter _ _ _ hpiece
    refine ⟨_, ?_, .answering hanswer hnext hrest htoB hatB⟩
    show 3 * ys.length + 2 * l.toA.length + r.length + 3 * n < _
    omega

/-- Every step keeps the invariant, and there is less left to do. -/
theorem within_step (htake : Reader take) {e : Event} (h : Within take actA actB a' b' l n)
    (hs : step take actA actB l e = some l') :
    ∃ m, m < n ∧ Within take actA actB a' b' l' m := by
  cases h with
  | asking hask hheard hanswer hread hys hrest htoA hatA =>
    rename_i a₁ a₂ b₁ b₂ xs ys n
    cases e with
    | a =>
      cases xs with
      | nil =>
        cases hask
        obtain ⟨next, _, _, hact, _, _⟩ := hread.act hys
        rw [step_a_get hact, hatA, htake.nil] at hs
        cases hs
      | cons x xs =>
        obtain ⟨a₃, hact, hmore⟩ := hask.act
        rw [step_a_put hact] at hs
        obtain rfl := Option.some.inj hs
        refine ⟨_, ?_, .asking hmore ?_ hanswer hread hys hrest htoA hatA⟩
        · show 3 * xs.length + 2 * (l.toB ++ [x]).length + l.atB.length + 3 * ys.length +
            3 * n < _
          simp only [List.length_append, List.length_cons, List.length_nil]
          omega
        · show Gets take actB l.b (l.atB ++ (l.toB ++ [x]) ++ xs) b₁
          rwa [← List.append_assoc, List.append_assoc (l.atB ++ l.toB)]
    | b => exact within_b_asking htake hask hheard hanswer hread hys hrest htoA hatA hs
    | arriveA =>
      rw [step, htoA] at hs
      cases hs
    | arriveB =>
      rw [step] at hs
      split at hs
      · cases hs
      · rename_i x rest htoB
        obtain rfl := Option.some.inj hs
        refine ⟨_, ?_, .asking hask ?_ hanswer hread hys hrest htoA hatA⟩
        · show 3 * xs.length + 2 * rest.length + (l.atB ++ [x]).length + 3 * ys.length +
            3 * n < _
          rw [htoB]
          simp only [List.length_append, List.length_cons, List.length_nil]
          omega
        · show Gets take actB l.b (l.atB ++ [x] ++ rest ++ xs) b₁
          rw [htoB] at hheard
          rwa [List.append_assoc l.atB, List.singleton_append]
  | answering hanswer hread hrest htoB hatB =>
    rename_i a₂ b₂ ys n
    cases e with
    | a => exact within_a_answering htake hanswer hread hrest htoB hatB hs
    | b =>
      cases ys with
      | nil =>
        cases hanswer
        cases hrest with
        | nil ha hb =>
          rw [step, hb] at hs
          cases hs
        | cons hask hheard hanswer hread hxs hys hrest =>
          obtain ⟨next, _, _, hact, _, _⟩ := hheard.act hxs
          rw [step_b_get hact, hatB, htake.nil] at hs
          cases hs
      | cons y ys =>
        obtain ⟨b₃, hact, hmore⟩ := hanswer.act
        rw [step_b_put hact] at hs
        obtain rfl := Option.some.inj hs
        refine ⟨_, ?_, .answering hmore ?_ hrest htoB hatB⟩
        · show 3 * ys.length + 2 * (l.toA ++ [y]).length + l.atA.length + 3 * n < _
          simp only [List.length_append, List.length_cons, List.length_nil]
          omega
        · show Gets take actA l.a (l.atA ++ (l.toA ++ [y]) ++ ys) a₂
          rwa [← List.append_assoc, List.append_assoc (l.atA ++ l.toA)]
    | arriveA =>
      rw [step] at hs
      split at hs
      · cases hs
      · rename_i x rest htoA
        obtain rfl := Option.some.inj hs
        refine ⟨_, ?_, .answering hanswer ?_ hrest htoB hatB⟩
        · show 3 * ys.length + 2 * rest.length + (l.atA ++ [x]).length + 3 * n < _
          rw [htoA]
          simp only [List.length_append, List.length_cons, List.length_nil]
          omega
        · show Gets take actA l.a (l.atA ++ [x] ++ rest ++ ys) a₂
          rw [htoA] at hread
          rwa [List.append_assoc l.atA, List.singleton_append]
    | arriveB =>
      rw [step, htoB] at hs
      cases hs

/-! ## The runs -/

section Runs

variable {es : List Event} {l₀ : Link β σ τ}

theorem within_run (htake : Reader take) : ∀ {l₀ : Link β σ τ} {n : Nat},
    Within take actA actB a' b' l₀ n →
    StepSystem.run (step take actA actB) l₀ es = some l →
    ∃ m, m + es.length ≤ n ∧ Within take actA actB a' b' l m := by
  induction es with
  | nil =>
    intro l₀ n h hrun
    obtain rfl := Option.some.inj hrun
    exact ⟨n, le_refl n, h⟩
  | cons e es ih =>
    intro l₀ n h hrun
    obtain ⟨l₁, hl₁, hrest⟩ := Option.bind_eq_some_iff.1 hrun
    obtain ⟨m₁, hm₁, hwithin⟩ := within_step htake h hl₁
    obtain ⟨m, hm, hfinal⟩ := ih hwithin hrest
    refine ⟨m, ?_, hfinal⟩
    rw [List.length_cons]
    omega

/-- A run is no longer than three times the elements of the script. -/
theorem run_length_le (htake : Reader take) (h : Script take actA actB a b n a' b')
    (hrun : StepSystem.run (step take actA actB) { a := a, b := b } es = some l) :
    es.length ≤ 3 * n := by
  obtain ⟨m, hm, _⟩ := within_run htake (within_of_script h) hrun
  omega

/-- A party that cannot go on has put everything. -/
theorem Puts.stuck_a {xs : List β} {s : σ} (h : Puts actA l.a xs s)
    (hstuck : step take actA actB l .a = none) : xs = [] := by
  cases xs with
  | nil => rfl
  | cons x xs =>
    obtain ⟨s₁, hact, _⟩ := h.act
    rw [step_a_put hact] at hstuck
    cases hstuck

theorem Puts.stuck_b {xs : List β} {s : τ} (h : Puts actB l.b xs s)
    (hstuck : step take actA actB l .b = none) : xs = [] := by
  cases xs with
  | nil => rfl
  | cons x xs =>
    obtain ⟨s₁, hact, _⟩ := h.act
    rw [step_b_put hact] at hstuck
    cases hstuck

/-- A party that cannot go on has taken everything that arrived. -/
theorem Gets.stuck_a (htake : Reader take) {s : σ} (h : Gets take actA l.a l.atA s)
    (hstuck : step take actA actB l .a = none) : l.atA = [] ∧ s = l.a := by
  by_cases hatA : l.atA = []
  · rw [hatA] at h
    exact ⟨hatA, h.eq htake⟩
  · obtain ⟨next, p, r, hact, hpiece, _⟩ := h.act hatA
    rw [step_a_get hact, hpiece] at hstuck
    cases hstuck

theorem Gets.stuck_b (htake : Reader take) {s : τ} (h : Gets take actB l.b l.atB s)
    (hstuck : step take actA actB l .b = none) : l.atB = [] ∧ s = l.b := by
  by_cases hatB : l.atB = []
  · rw [hatB] at h
    exact ⟨hatB, h.eq htake⟩
  · obtain ⟨next, p, r, hact, hpiece, _⟩ := h.act hatB
    rw [step_b_get hact, hpiece] at hstuck
    cases hstuck

/-- Two parties that cannot go on have come to the end. -/
theorem Within.final (htake : Reader take) (h : Within take actA actB a' b' l n)
    (hstuck : ∀ e, step take actA actB l e = none) : l = { a := a', b := b' } := by
  have harriveA : l.toA = [] := by
    have hnone := hstuck .arriveA
    rw [step] at hnone
    split at hnone
    · assumption
    · cases hnone
  have harriveB : l.toB = [] := by
    have hnone := hstuck .arriveB
    rw [step] at hnone
    split at hnone
    · assumption
    · cases hnone
  cases h with
  | asking hask hheard hanswer hread hys hrest htoA hatA =>
    rename_i a₁ a₂ b₁ b₂ xs ys n
    obtain rfl : xs = [] := hask.stuck_a (hstuck .a)
    rw [harriveB, List.append_nil, List.append_nil] at hheard
    obtain ⟨-, rfl⟩ := hheard.stuck_b htake (hstuck .b)
    exact absurd (hanswer.stuck_b (hstuck .b)) hys
  | answering hanswer hread hrest htoB hatB =>
    rename_i a₂ b₂ ys n
    obtain rfl : ys = [] := hanswer.stuck_b (hstuck .b)
    cases hanswer
    rw [harriveA, List.append_nil, List.append_nil] at hread
    obtain ⟨hatA, rfl⟩ := hread.stuck_a htake (hstuck .a)
    cases hrest with
    | nil ha hb =>
      obtain ⟨la, lb, ltoB, latB, ltoA, latA⟩ := l
      subst harriveA harriveB hatA hatB
      rfl
    | cons hask hheard hanswer hread hxs hys hrest =>
      exact absurd (hask.stuck_a (hstuck .a)) hxs

theorem run_final (htake : Reader take) (h : Script take actA actB a b n a' b')
    (hrun : StepSystem.run (step take actA actB) { a := a, b := b } es = some l)
    (hstuck : ∀ e, step take actA actB l e = none) : l = { a := a', b := b' } := by
  obtain ⟨m, _, hwithin⟩ := within_run htake (within_of_script h) hrun
  exact hwithin.final htake hstuck

/-- The first party has taken all that the second one put when it puts something. -/
theorem run_quiet (htake : Reader take) (h : Script take actA actB a b n a' b')
    (hrun : StepSystem.run (step take actA actB) { a := a, b := b } es = some l) {x : β}
    {next : σ} (hact : actA l.a = .put x next) : l.toA = [] ∧ l.atA = [] := by
  obtain ⟨m, hle, hwithin⟩ := within_run htake (within_of_script h) hrun
  cases hwithin with
  | asking hask hheard hanswer hread hys hrest htoA hatA => exact ⟨htoA, hatA⟩
  | answering hanswer hread hrest htoB hatB =>
    rename_i a₂ b₂ ys n'
    by_cases hempty : l.atA ++ l.toA ++ ys = []
    · obtain ⟨hatA, htoA, _⟩ := three_lists_nil hempty
      exact ⟨htoA, hatA⟩
    · obtain ⟨next', _, _, hact', _, _⟩ := hread.act hempty
      rw [hact] at hact'
      cases hact'

end Runs

end Dialogue
