import Mathlib.Data.Finset.Option
import Mathlib.Data.Finset.Union
import Mathlib.Data.Fintype.Basic
import Mathlib.Logic.Function.Basic

/-!
# A heap of blocks

Memory that a program allocates and frees block by block.  A block keeps its address until it is
freed, and an address is not given out again, so an access through a pointer that has become
stale has no result.  A result of a program therefore says that it frees no block twice and
uses none after it was freed.

* `Heap.alloc`, `Heap.write` and `Heap.free`, with what each does to the live blocks.
* A table of pointers `p : ι → Option Nat` owns the blocks of `Heap.targets p`.  Its pointers are
  `Heap.Apart` if no two of them have the same target.
* `Heap.release` frees what a table owns and clears it.  `release_spec` says that it frees just
  that.
-/

/-- Blocks with contents in `V`, at the addresses below `top`. -/
structure Heap (V : Type) where
  block : Nat → Option V
  top : Nat
  above : ∀ a, top ≤ a → block a = none

namespace Heap

variable {V : Type}

def empty : Heap V := ⟨fun _ => none, 0, fun _ _ => rfl⟩

/-- The addresses that are in use. -/
def live (h : Heap V) : Finset Nat := (Finset.range h.top).filter fun a => (h.block a).isSome

/-- `malloc`. -/
def alloc (h : Heap V) (v : V) : Nat × Heap V :=
  (h.top, ⟨Function.update h.block h.top (some v), h.top + 1, fun a ha => by
    rw [Function.update_of_ne (by omega)]
    exact h.above a (by omega)⟩)

/-- An assignment to a whole block. -/
def write (h : Heap V) (a : Nat) (v : V) : Option (Heap V) :=
  if ha : (h.block a).isSome = true then
    some ⟨Function.update h.block a (some v), h.top, fun b hb => by
      have hab : b ≠ a := fun heq => by
        rw [← heq, h.above b hb] at ha
        cases ha
      rw [Function.update_of_ne hab]
      exact h.above b hb⟩
  else none

/-- `free`. -/
def free (h : Heap V) (a : Nat) : Option (Heap V) :=
  if (h.block a).isSome then
    some ⟨Function.update h.block a none, h.top, fun b hb => by
      rcases eq_or_ne b a with rfl | hab
      · exact Function.update_self _ _ _
      · rw [Function.update_of_ne hab]
        exact h.above b hb⟩
  else none

@[simp] theorem mem_live {h : Heap V} {a : Nat} : a ∈ h.live ↔ (h.block a).isSome = true := by
  rw [live, Finset.mem_filter, Finset.mem_range, and_iff_right_iff_imp]
  intro ha
  by_contra hle
  rw [h.above a (by omega)] at ha
  cases ha

theorem mem_live_of_eq {h : Heap V} {a : Nat} {v : V} (ha : h.block a = some v) :
    a ∈ h.live := by
  rw [mem_live, ha]
  rfl

/-! ## Allocation -/

theorem alloc_not_mem (h : Heap V) (v : V) : (h.alloc v).1 ∉ h.live := by
  rw [mem_live, alloc, h.above _ (Nat.le_refl _)]
  exact Bool.false_ne_true

theorem block_alloc (h : Heap V) (v : V) : (h.alloc v).2.block (h.alloc v).1 = some v :=
  Function.update_self _ _ _

theorem block_alloc_of_ne (h : Heap V) (v : V) {a : Nat} (ha : a ≠ (h.alloc v).1) :
    (h.alloc v).2.block a = h.block a :=
  Function.update_of_ne ha _ _

/-- A block stays where it is. -/
theorem block_alloc_of_mem (h : Heap V) (v : V) {a : Nat} (ha : a ∈ h.live) :
    (h.alloc v).2.block a = h.block a := by
  rw [block_alloc_of_ne]
  rintro rfl
  exact h.alloc_not_mem v ha

theorem block_alloc_of_eq (h : Heap V) (v : V) {a : Nat} {w : V} (ha : h.block a = some w) :
    (h.alloc v).2.block a = some w :=
  (h.block_alloc_of_mem v (mem_live_of_eq ha)).trans ha

theorem live_alloc (h : Heap V) (v : V) : (h.alloc v).2.live = insert (h.alloc v).1 h.live := by
  ext a
  rw [Finset.mem_insert, mem_live, mem_live]
  rcases eq_or_ne a (h.alloc v).1 with rfl | ha
  · rw [block_alloc]
    exact iff_of_true rfl (.inl rfl)
  · rw [block_alloc_of_ne h v ha, or_iff_right ha]

/-! ## Writing -/

theorem write_isSome_iff {h : Heap V} {a : Nat} {v : V} :
    (h.write a v).isSome = true ↔ a ∈ h.live := by
  rw [write, mem_live]
  split
  · rename_i ha
    exact iff_of_true rfl ha
  · rename_i ha
    exact iff_of_false Bool.false_ne_true ha

theorem block_write {h h' : Heap V} {a : Nat} {v : V} (hw : h.write a v = some h') :
    h'.block a = some v ∧ ∀ b ≠ a, h'.block b = h.block b := by
  rw [write] at hw
  split at hw
  · cases hw
    exact ⟨Function.update_self _ _ _, fun b hb => Function.update_of_ne hb _ _⟩
  · cases hw

theorem live_write {h h' : Heap V} {a : Nat} {v : V} (hw : h.write a v = some h') :
    h'.live = h.live := by
  have ha : a ∈ h.live := write_isSome_iff.1 (by rw [hw]; rfl)
  ext b
  rw [mem_live, mem_live]
  rcases eq_or_ne b a with rfl | hb
  · rw [(block_write hw).1]
    exact iff_of_true rfl (mem_live.1 ha)
  · rw [(block_write hw).2 b hb]

/-! ## Freeing -/

theorem free_isSome_iff {h : Heap V} {a : Nat} : (h.free a).isSome = true ↔ a ∈ h.live := by
  rw [free, mem_live]
  split
  · rename_i ha
    exact iff_of_true rfl ha
  · rename_i ha
    exact iff_of_false Bool.false_ne_true ha

theorem block_free {h h' : Heap V} {a : Nat} (hf : h.free a = some h') :
    h'.block a = none ∧ ∀ b ≠ a, h'.block b = h.block b := by
  rw [free] at hf
  split at hf
  · cases hf
    exact ⟨Function.update_self _ _ _, fun b hb => Function.update_of_ne hb _ _⟩
  · cases hf

theorem live_free {h h' : Heap V} {a : Nat} (hf : h.free a = some h') :
    h'.live = h.live.erase a := by
  ext b
  rw [Finset.mem_erase, mem_live, mem_live]
  rcases eq_or_ne b a with rfl | hb
  · rw [(block_free hf).1]
    exact iff_of_false Bool.false_ne_true fun hgiven => hgiven.1 rfl
  · rw [(block_free hf).2 b hb, and_iff_right hb]

/-- A block that is in use can be freed. -/
theorem exists_free {h : Heap V} {a : Nat} (ha : a ∈ h.live) :
    ∃ h', h.free a = some h' ∧ h'.live = h.live.erase a ∧ ∀ b ≠ a, h'.block b = h.block b := by
  obtain ⟨h', hfree⟩ := Option.isSome_iff_exists.1 (free_isSome_iff.2 ha)
  exact ⟨h', hfree, live_free hfree, (block_free hfree).2⟩

/-- What was added to a heap is taken away again. -/
theorem exists_free_of_insert {h : Heap V} {a : Nat} {rest : Finset Nat}
    (hlive : h.live = insert a rest) (ha : a ∉ rest) :
    ∃ h', h.free a = some h' ∧ h'.live = rest ∧ ∀ b ≠ a, h'.block b = h.block b := by
  obtain ⟨h', hfree, hlive', hblock⟩ := exists_free (hlive ▸ Finset.mem_insert_self a rest)
  refine ⟨h', hfree, ?_, hblock⟩
  rw [hlive', hlive, Finset.erase_insert ha]

/-! ## Tables of pointers -/

section Tables

variable {ι : Type}

/-- No two pointers of a table have the same target. -/
def Apart (p : ι → Option Nat) : Prop := ∀ i j a, p i = some a → p j = some a → i = j

theorem apart_none : Apart fun _ : ι => none := fun _ _ _ h => nomatch h

theorem Apart.update_none [DecidableEq ι] {p : ι → Option Nat} (hp : Apart p) (i : ι) :
    Apart (Function.update p i none) := by
  intro j k a hj hk
  have hne : ∀ {l}, Function.update p i none l = some a → p l = some a := by
    intro l hl
    rcases eq_or_ne l i with rfl | hli
    · rw [Function.update_self] at hl
      cases hl
    · rwa [Function.update_of_ne hli] at hl
  exact hp j k a (hne hj) (hne hk)

variable [Fintype ι]

/-- The addresses that a table has. -/
def targets (p : ι → Option Nat) : Finset Nat := Finset.univ.biUnion fun i => (p i).toFinset

@[simp] theorem mem_targets {p : ι → Option Nat} {a : Nat} :
    a ∈ targets p ↔ ∃ i, p i = some a := by
  simp only [targets, Finset.mem_biUnion, Finset.mem_univ, true_and, Option.mem_toFinset,
    Option.mem_def]

theorem targets_none : targets (fun _ : ι => none) = ∅ := by
  ext a
  simp

variable [DecidableEq ι]

theorem targets_update_none {p : ι → Option Nat} (hp : Apart p) {i : ι} {a : Nat}
    (hi : p i = some a) : targets (Function.update p i none) = (targets p).erase a := by
  ext b
  rw [Finset.mem_erase, mem_targets, mem_targets]
  constructor
  · intro h
    obtain ⟨j, hj⟩ := h
    have hji : j ≠ i := fun heq => by
      rw [heq, Function.update_self] at hj
      cases hj
    rw [Function.update_of_ne hji] at hj
    exact ⟨fun heq => hji (hp j i a (heq ▸ hj) hi), j, hj⟩
  · intro h
    obtain ⟨hne, j, hj⟩ := h
    have hji : j ≠ i := fun heq => by
      rw [heq, hi] at hj
      exact hne (Option.some.inj hj).symm
    exact ⟨j, by rwa [Function.update_of_ne hji]⟩

theorem targets_update_some {p : ι → Option Nat} {i : ι} (hi : p i = none) (a : Nat) :
    targets (Function.update p i (some a)) = insert a (targets p) := by
  ext b
  rw [Finset.mem_insert, mem_targets, mem_targets]
  constructor
  · intro h
    obtain ⟨j, hj⟩ := h
    rcases eq_or_ne j i with rfl | hji
    · rw [Function.update_self] at hj
      exact .inl (Option.some.inj hj).symm
    · rw [Function.update_of_ne hji] at hj
      exact .inr ⟨j, hj⟩
  · intro h
    rcases h with rfl | ⟨j, hj⟩
    · exact ⟨i, Function.update_self _ _ _⟩
    · have hji : j ≠ i := fun heq => by
        rw [heq, hi] at hj
        cases hj
      exact ⟨j, by rwa [Function.update_of_ne hji]⟩

theorem Apart.update_some {p : ι → Option Nat} (hp : Apart p) (i : ι) {a : Nat}
    (ha : a ∉ targets p) : Apart (Function.update p i (some a)) := by
  have hcases : ∀ {l b}, Function.update p i (some a) l = some b →
      l = i ∧ b = a ∨ l ≠ i ∧ p l = some b := by
    intro l b hl
    rcases eq_or_ne l i with rfl | hli
    · rw [Function.update_self] at hl
      exact .inl ⟨rfl, (Option.some.inj hl).symm⟩
    · exact .inr ⟨hli, by rwa [Function.update_of_ne hli] at hl⟩
  intro j k b hj hk
  rcases hcases hj with ⟨rfl, rfl⟩ | ⟨-, hpj⟩
  · rcases hcases hk with ⟨rfl, -⟩ | ⟨-, hpk⟩
    · rfl
    · exact absurd (mem_targets.2 ⟨k, hpk⟩) ha
  · rcases hcases hk with ⟨rfl, rfl⟩ | ⟨-, hpk⟩
    · exact absurd (mem_targets.2 ⟨j, hpj⟩) ha
    · exact hp j k b hpj hpk

/-- A loop that frees the pointers of a table that are not null, and sets them to null. -/
def release (h : Heap V) (p : ι → Option Nat) : List ι → Option (Heap V × (ι → Option Nat))
  | [] => some (h, p)
  | i :: is =>
    match p i with
    | none => release h p is
    | some a => (h.free a).bind fun h => release h (Function.update p i none) is

/-- The loop frees the blocks of the table and no others. -/
theorem release_spec {h : Heap V} {p : ι → Option Nat} (hp : Apart p)
    (hlive : targets p ⊆ h.live) (is : List ι) (his : ∀ i, p i ≠ none → i ∈ is) :
    ∃ h', release h p is = some (h', fun _ => none) ∧ h'.live = h.live \ targets p ∧
      ∀ a ∉ targets p, h'.block a = h.block a := by
  induction is generalizing h p with
  | nil =>
    have hnone : p = fun _ => none := by
      funext i
      by_contra hi
      exact absurd (his i hi) List.not_mem_nil
    rw [hnone, release, targets_none, Finset.sdiff_empty]
    exact ⟨h, rfl, rfl, fun _ _ => rfl⟩
  | cons i is ih =>
    rw [release]
    split
    · rename_i hi
      refine ih hp hlive fun j hj => ?_
      rcases List.mem_cons.1 (his j hj) with rfl | hmem
      · exact absurd hi hj
      · exact hmem
    · rename_i a hi
      have ha : a ∈ targets p := mem_targets.2 ⟨i, hi⟩
      obtain ⟨h₁, hfree, hlive₁, hblock₁⟩ := exists_free (hlive ha)
      have htargets := targets_update_none hp hi
      have hrest := ih (h := h₁) (hp.update_none i)
        (by
          rw [htargets, hlive₁]
          exact Finset.erase_subset_erase a hlive)
        (by
          intro j hj
          have hji : j ≠ i := fun heq => hj (by rw [heq, Function.update_self])
          rw [Function.update_of_ne hji] at hj
          exact (List.mem_cons.1 (his j hj)).resolve_left hji)
      obtain ⟨h', hrun, hlive', hblock⟩ := hrest
      refine ⟨h', by rw [hfree]; exact hrun, ?_, ?_⟩
      · rw [hlive', htargets, hlive₁]
        ext b
        simp only [Finset.mem_sdiff, Finset.mem_erase]
        rcases eq_or_ne b a with rfl | hb
        · simp [ha]
        · simp [hb]
      · intro b hb
        have hba : b ≠ a := fun heq => hb (heq ▸ ha)
        rw [hblock b (by rw [htargets]; exact fun hmem => hb (Finset.mem_of_mem_erase hmem))]
        exact hblock₁ b hba

end Tables

end Heap
