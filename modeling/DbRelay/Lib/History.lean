import Mathlib.Data.List.Induction

/-!
# Histories

A history is a list of events, the oldest first.  `AtEach P l` says `P` of each event
together with the events before it.
-/

namespace History

variable {α : Type*} {P Q : List α → α → Prop} {l m : List α} {a : α}

/-- `P` holds at each event, of the history before it. -/
def AtEach (P : List α → α → Prop) (l : List α) : Prop :=
  ∀ before a after, l = before ++ a :: after → P before a

theorem atEach_nil : AtEach P [] := by
  intro before a after h
  simp at h

theorem AtEach.left (h : AtEach P (l ++ m)) : AtEach P l := by
  intro before a after hl
  refine h before a (after ++ m) ?_
  rw [hl, List.append_assoc]
  rfl

theorem AtEach.last (h : AtEach P (l ++ [a])) : P l a := h l a [] rfl

theorem AtEach.snoc (h : AtEach P l) (ha : P l a) : AtEach P (l ++ [a]) := by
  intro before b after hl
  induction after using List.reverseRecOn with
  | nil =>
    obtain ⟨rfl, hab⟩ := List.append_inj' hl rfl
    obtain rfl : a = b := List.singleton_inj.1 hab
    exact ha
  | append_singleton after c =>
    rw [← List.cons_append, ← List.append_assoc] at hl
    exact h before b after (List.append_inj' hl rfl).1

/-- Several events that `P` holds at already, and that stay so. -/
theorem AtEach.append (hmono : ∀ l more a, P l a → P (l ++ more) a) (h : AtEach P l)
    (hm : ∀ a ∈ m, P l a) : AtEach P (l ++ m) := by
  induction m generalizing l with
  | nil => rwa [List.append_nil]
  | cons a m ih =>
    have hnext : AtEach P (l ++ [a]) := h.snoc (hm a List.mem_cons_self)
    have hrest := ih hnext fun b hb => hmono l [a] b (hm b (List.mem_cons_of_mem a hb))
    rwa [List.append_assoc, List.singleton_append] at hrest

/-- What each of several events keeps, all of them keep. -/
theorem append_of_snoc {K : List α → Prop} (hK : ∀ l, K l → ∀ a ∈ m, K (l ++ [a]))
    (h : K l) : K (l ++ m) := by
  induction m generalizing l with
  | nil => rwa [List.append_nil]
  | cons a m ih =>
    have hnext : K (l ++ [a]) := hK l h a List.mem_cons_self
    have hrest := ih (fun l hl b hb => hK l hl b (List.mem_cons_of_mem a hb)) hnext
    rwa [List.append_assoc, List.singleton_append] at hrest

end History
