import DbRelay.Json.Escape

/-!
# Texts on one line

Without the pretty printer the writer escapes every control character and adds none, so the
text of a well-formed tree is one line of the protocol.

* `Tree.onLine_text`: one case for each constructor.
-/

namespace DbRelay

open Json

variable {enc : Encoding}

/-- No control character. -/
def OnLine (s : List UInt8) : Prop := ∀ b ∈ s, 32 ≤ b

instance (s : List UInt8) : Decidable (OnLine s) :=
  decidable_of_iff (s.all (fun b => decide (32 ≤ b)) = true) (by simp [OnLine])

theorem OnLine.append {s t : List UInt8} (hs : OnLine s) (ht : OnLine t) : OnLine (s ++ t) :=
  List.forall_mem_append.2 ⟨hs, ht⟩

theorem OnLine.not_mem {s : List UInt8} (hs : OnLine s) {b : UInt8} (hb : b < 32) : b ∉ s :=
  fun hmem => absurd (hs b hmem) (UInt8.not_le.2 hb)

theorem onLine_escaped (s : List UInt8) : OnLine (escaped s) := by
  intro b hb
  obtain ⟨c, -, hb⟩ := List.mem_flatMap.1 hb
  exact (InPlace.inRange_escapeUnit hb).1

theorem onLine_isKey {key : List UInt8} (h : IsKey enc key) : OnLine key := by
  intro b hb
  have hplain := h b hb
  simp only [isPlain, decide_eq_true_eq] at hplain
  exact hplain.1

theorem onLine_isNumber {s : List UInt8} (h : isNumber s = true) : OnLine s := by
  intro b hb
  have hchar := (isNumberChar_of_isNumber h).2 b hb
  simp only [isNumberChar, Bool.or_eq_true, decide_eq_true_eq, Decimal.isDigit_iff] at hchar
  rw [UInt8.le_iff_toNat_le]
  have h32 : (32 : UInt8).toNat = 32 := rfl
  rcases hchar with hdigit | rfl | rfl | rfl | rfl | rfl
  · omega
  all_goals decide

theorem onLine_keyText {key : List UInt8} (h : IsKey enc key) : OnLine (keyText false key) := by
  have hquote : OnLine (ascii "\"") := by decide
  have hcolon : OnLine (ascii ":") := by decide
  have hnil : OnLine [] := by decide
  exact ((((hquote.append (onLine_isKey h)).append hquote).append hnil).append hcolon).append hnil

mutual

/-- Without the pretty printer a well-formed tree is one line. -/
theorem Tree.onLine_text (tree : Tree) (h : tree.WellFormed enc) (level : Int) :
    OnLine (tree.text false level) := by
  have hnil : OnLine [] := by decide
  cases tree with
  | object members =>
    have hopen : OnLine (ascii "\x7b") := by decide
    have hclose : OnLine (ascii "\x7d") := by decide
    exact ((((hopen.append hnil).append
      (Members.onLine_text members h (level + 1) true)).append hnil).append hnil).append hclose
  | array items =>
    have hopen : OnLine (ascii "[") := by decide
    have hclose : OnLine (ascii "]") := by decide
    exact ((((hopen.append hnil).append
      (Items.onLine_text items h (level + 1) true)).append hnil).append hnil).append hclose

theorem Member.onLine_text (member : Member) (h : member.WellFormed enc) (level : Int) :
    OnLine (member.text false level) := by
  cases member with
  | string value =>
    have hquote : OnLine (ascii "\"") := by decide
    exact (hquote.append (onLine_escaped value)).append hquote
  | number value => exact onLine_isNumber h
  | null => exact show OnLine (ascii "null") by decide
  | tree value => exact Tree.onLine_text value h level

theorem Members.onLine_text (members : Members) (h : members.WellFormed enc) (level : Int)
    (first : Bool) : OnLine (members.text false level first) := by
  cases members with
  | nil => exact List.forall_mem_nil _
  | cons key value rest =>
    have hlead : OnLine (if first then tabs false level else ascii ", ") := by
      cases first
      · show OnLine (ascii ", ")
        decide
      · exact List.forall_mem_nil _
    exact ((hlead.append (onLine_keyText h.1)).append
      (Member.onLine_text value h.2.1 level)).append (Members.onLine_text rest h.2.2 level false)

theorem Items.onLine_text (items : Items) (h : items.WellFormed enc) (level : Int) (first : Bool) :
    OnLine (items.text false level first) := by
  cases items with
  | nil => exact List.forall_mem_nil _
  | cons item rest =>
    have hlead : OnLine (if first then [] else ascii "," ++ pretty false (ascii "\n")) := by
      cases first
      · show OnLine (ascii ",")
        decide
      · exact List.forall_mem_nil _
    exact ((hlead.append (List.forall_mem_nil _)).append
      (Tree.onLine_text item h.1 level)).append (Items.onLine_text rest h.2 level false)

end

end DbRelay
