import Mathlib.Data.List.TakeWhile
import Mathlib.Data.Nat.Init

/-!
# `strtok`

The next token of a list: what comes before the next delimiter, once the delimiters in front
of it are skipped.  A token is never empty.

`tokens_eq` says what a loop over all tokens sees: the non-empty parts of the list.
-/

namespace Strtok

variable {α : Type*} (delim : α → Bool)

/-- `strtok`: the next token, and what is behind the delimiter that ends it. -/
def strtok (s : List α) : Option (List α × List α) :=
  match s.dropWhile delim with
  | [] => none
  | c :: s => some (c :: s.takeWhile fun c => !delim c, (s.dropWhile fun c => !delim c).tail)

theorem length_lt_of_strtok {s token rest : List α} (h : strtok delim s = some (token, rest)) :
    rest.length < s.length := by
  unfold strtok at h
  have hskip := (List.dropWhile_suffix (l := s) delim).length_le
  split at h
  · cases h
  · rename_i c t hdrop
    obtain ⟨-, rfl⟩ := Prod.mk.inj (Option.some.inj h)
    rw [hdrop, List.length_cons] at hskip
    have hrest := (List.dropWhile_suffix (l := t) fun c => !delim c).length_le
    rw [List.length_tail]
    omega

/-- All tokens, in order. -/
def tokens (s : List α) : List (List α) :=
  match _h : strtok delim s with
  | none => []
  | some (token, rest) => token :: tokens rest
termination_by s.length
decreasing_by exact length_lt_of_strtok delim _h

theorem tokens_unfold (s : List α) :
    tokens delim s = match strtok delim s with
      | none => []
      | some (token, rest) => token :: tokens delim rest := by
  rw [tokens]
  split <;> rename_i h <;> rw [h]

variable {delim}

theorem strtok_cons_delim {c : α} (hc : delim c = true) (s : List α) :
    strtok delim (c :: s) = strtok delim s := by
  rw [strtok, List.dropWhile_cons_of_pos hc, strtok]

/-- A loop over the tokens sees the non-empty parts. -/
theorem tokens_eq (s : List α) :
    tokens delim s = (s.splitOnP delim).filter fun part => !part.isEmpty := by
  induction hn : s.length using Nat.strong_induction_on generalizing s with
  | _ n ih =>
    cases s with
    | nil =>
      rw [tokens_unfold]
      rfl
    | cons c s =>
      cases hc : delim c with
      | true =>
        have hrest := ih s.length (hn ▸ Nat.lt_succ_self _) s rfl
        have hsplit := List.splitOnP_append_cons [] s hc
        rw [tokens_unfold, strtok_cons_delim hc, ← tokens_unfold, hrest]
        rw [List.nil_append, List.splitOnP_nil] at hsplit
        rw [hsplit]
        rfl
      | false =>
        have hword : ∀ x ∈ c :: s.takeWhile fun c => !delim c, delim x = false := by
          intro x hx
          rcases List.mem_cons.1 hx with rfl | hx
          · exact hc
          · simpa using List.mem_takeWhile_imp hx
        have hparts : s.takeWhile (fun c => !delim c) ++ s.dropWhile (fun c => !delim c) = s :=
          List.takeWhile_append_dropWhile
        have hnot : ¬delim c = true := by
          rw [hc]
          exact Bool.false_ne_true
        rw [tokens_unfold, strtok, List.dropWhile_cons_of_neg hnot]
        simp only
        cases hdrop : s.dropWhile fun c => !delim c with
        | nil =>
          rw [hdrop, List.append_nil] at hparts
          rw [hparts] at hword ⊢
          rw [List.splitOnP_eq_singleton hword, List.tail_nil, tokens_unfold]
          rfl
        | cons d rest =>
          have hd : delim d = true := by
            have hhead := List.head_dropWhile_not (fun c => !delim c) (l := s)
              (by rw [hdrop]; exact List.cons_ne_nil d rest)
            simpa [hdrop] using hhead
          have hlen : rest.length < n := by
            have hle := congrArg List.length hparts
            rw [hdrop, List.length_append, List.length_cons] at hle
            rw [← hn, List.length_cons]
            omega
          have hsplit : (c :: s).splitOnP delim =
              (c :: s.takeWhile fun c => !delim c) :: rest.splitOnP delim := by
            have happend : (c :: s.takeWhile fun c => !delim c) ++ d :: rest = c :: s := by
              rw [List.cons_append, ← hdrop, hparts]
            rw [← happend]
            exact List.splitOnP_append_cons_of_forall_mem hword d hd rest
          rw [List.tail_cons, ih rest.length hlen rest rfl, hsplit]
          rfl

end Strtok
