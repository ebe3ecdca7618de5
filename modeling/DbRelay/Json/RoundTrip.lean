import DbRelay.Json.Tree
import DbRelay.Lib.JsonString

/-!
# The written text reads back as the tree

A tree is well formed when its keys need no escape and its numbers are JSON
numbers; strings may hold any bytes.  Well-formed trees are exactly those whose
text a JSON parser maps back to the tree:

* `Tree.derives`: the text of a well-formed tree is in the grammar.
* `Tree.wellFormed_of_parseValue`: nothing else reads back, not even in parts.
* `parse_run_calls`: what the calls of a well-formed tree write is JSON and stands
  for the tree, with the pretty printer or without it.
-/

namespace DbRelay

open JsonWriter Json

variable {enc : Encoding}

/-! ## Well-formed trees and their values -/

/-- A key that needs no escape. -/
def IsKey (enc : Encoding) (key : List UInt8) : Prop := ∀ b ∈ key, isPlain enc b = true

instance (enc : Encoding) (key : List UInt8) : Decidable (IsKey enc key) :=
  decidable_of_iff (key.all (isPlain enc) = true) List.all_eq_true

/-- An ASCII key is one in both readings. -/
theorem IsKey.of_utf8 {key : List UInt8} (h : IsKey .utf8 key) : IsKey enc key :=
  fun b hb => isPlain_of_utf8 (h b hb)

/-- Digits and a sign need no escape. -/
theorem isKey_decimalInt (z : Int) : IsKey enc (Decimal.decimalInt z) := by
  intro b hb
  refine isPlain_of_utf8 ?_
  have hchar := (isNumberChar_of_isNumber (isNumber_decimalInt z)).2 b hb
  simp only [isNumberChar, Bool.or_eq_true, decide_eq_true_eq, Decimal.isDigit_iff] at hchar
  simp only [isPlain, decide_eq_true_eq, UInt8.le_iff_toNat_le]
  rcases hchar with hdigit | rfl | rfl | rfl | rfl | rfl
  · have h32 : (32 : UInt8).toNat = 32 := rfl
    refine ⟨by omega, ?_, ?_, fun _ => ?_⟩
    · intro h
      rw [h] at hdigit
      exact absurd hdigit.1 (by decide)
    · intro h
      rw [h] at hdigit
      exact absurd hdigit.2 (by decide)
    · rw [UInt8.lt_iff_toNat_lt]
      have h128 : (128 : UInt8).toNat = 128 := rfl
      omega
  all_goals decide

theorem IsKey.append {key key' : List UInt8} (h : IsKey enc key) (h' : IsKey enc key') :
    IsKey enc (key ++ key') :=
  List.forall_mem_append.2 ⟨h, h'⟩

mutual

def Tree.WellFormed (enc : Encoding) : Tree → Prop
  | .object members => members.WellFormed enc
  | .array items => items.WellFormed enc

def Member.WellFormed (enc : Encoding) : Member → Prop
  | .string _ => True
  | .number value => isNumber value = true
  | .null => True
  | .tree value => value.WellFormed enc

def Members.WellFormed (enc : Encoding) : Members → Prop
  | .nil => True
  | .cons key value rest => IsKey enc key ∧ value.WellFormed enc ∧ rest.WellFormed enc

def Items.WellFormed (enc : Encoding) : Items → Prop
  | .nil => True
  | .cons item rest => item.WellFormed enc ∧ rest.WellFormed enc

end

mutual

/-- A tree with ASCII keys is well formed in both readings. -/
theorem Tree.WellFormed.of_utf8 {tree : Tree} (h : tree.WellFormed .utf8) :
    tree.WellFormed enc := by
  cases tree with
  | object members => exact @Members.WellFormed.of_utf8 members h
  | array items => exact @Items.WellFormed.of_utf8 items h

theorem Member.WellFormed.of_utf8 {member : Member} (h : member.WellFormed .utf8) :
    member.WellFormed enc := by
  cases member with
  | string value => exact trivial
  | number value => exact h
  | null => exact trivial
  | tree value => exact @Tree.WellFormed.of_utf8 value h

theorem Members.WellFormed.of_utf8 {members : Members} (h : members.WellFormed .utf8) :
    members.WellFormed enc := by
  cases members with
  | nil => exact trivial
  | cons key value rest =>
    exact ⟨IsKey.of_utf8 h.1, Member.WellFormed.of_utf8 h.2.1, Members.WellFormed.of_utf8 h.2.2⟩

theorem Items.WellFormed.of_utf8 {items : Items} (h : items.WellFormed .utf8) :
    items.WellFormed enc := by
  cases items with
  | nil => exact trivial
  | cons item rest =>
    exact ⟨Tree.WellFormed.of_utf8 h.1, Items.WellFormed.of_utf8 h.2⟩

end

/-- A tree that is well formed. -/
structure JsonTree where
  tree : Tree
  wellFormed : tree.WellFormed .bytes

mutual

/-- The value for which a tree stands. -/
def Tree.toJson : Tree → Value
  | .object members => .object members.toJson
  | .array items => .array items.toJson

def Member.toJson : Member → Value
  | .string value => .string (codeUnits value)
  | .number value => .number value
  | .null => .null
  | .tree value => value.toJson

def Members.toJson : Members → List (List UInt16 × Value)
  | .nil => []
  | .cons key value rest => (codeUnits key, value.toJson) :: rest.toJson

def Items.toJson : Items → List Value
  | .nil => []
  | .cons item rest => item.toJson :: rest.toJson

end

/-! ## Leaves -/

theorem isSpace_pretty {s : List UInt8} (hs : IsSpace s) (pp : Bool) :
    IsSpace (pretty pp s) := by
  cases pp
  · intro b hb
    cases hb
  · exact hs

theorem isSpace_nil : IsSpace [] := by decide

theorem isSpace_newline (pp : Bool) : IsSpace (pretty pp (ascii "\n")) :=
  isSpace_pretty (by decide) pp

theorem isSpace_blank (pp : Bool) : IsSpace (pretty pp (ascii " ")) :=
  isSpace_pretty (by decide) pp

theorem isSpace_tabs (pp : Bool) (level : Int) : IsSpace (tabs pp level) := by
  refine isSpace_pretty ?_ pp
  intro b hb
  rcases List.mem_flatten.1 hb with ⟨s, hs, hb⟩
  rw [(List.mem_replicate.1 hs).2] at hb
  have hblank : IsSpace (ascii "   ") := by decide
  exact hblank b hb

/-- What `json_add_string` writes for one byte. -/
def escapeUnit (c : UInt8) : List UInt8 := if isPrintable c then [c] else nonprintable c

/-- The escape of a byte, one case for each value. -/
theorem isUnit_escapeUnit (c : UInt8) : IsUnit enc (escapeUnit c) c.toUInt16 := by
  have hdefault : ∀ i : Fin 256, let c := UInt8.ofFin i
      hexCode 48 48 (hexDigit (c.toNat / 16)) (hexDigit (c.toNat % 16)) = some c.toUInt16 := by
    decide +kernel
  unfold escapeUnit
  by_cases hc : isPrintable c = true
  · rw [if_pos hc]
    refine .plain ?_
    simp only [isPrintable, Bool.not_eq_true', decide_eq_false_iff_not, not_or,
      UInt8.not_lt] at hc
    simp only [isPlain, decide_eq_true_eq]
    exact ⟨hc.1, hc.2.2.1, hc.2.2.2, fun _ => UInt8.not_le.1 hc.2.1⟩
  · rw [if_neg hc]
    unfold nonprintable
    split_ifs with h34 h92 h47 h8 h12 h10 h13 h9
    · exact h34 ▸ .escape rfl
    · exact h92 ▸ .escape rfl
    · exact h47 ▸ .escape rfl
    · exact h8 ▸ .escape rfl
    · exact h12 ▸ .escape rfl
    · exact h10 ▸ .escape rfl
    · exact h13 ▸ .escape rfl
    · exact h9 ▸ .escape rfl
    · exact .unicode (hdefault c.toFin)

/-- `json_add_string` escapes every string. -/
theorem isChars_escaped (s : List UInt8) : IsChars enc (escaped s) (codeUnits s) :=
  isChars_flatMap isUnit_escapeUnit s

theorem escaped_injective : Function.Injective escaped := by
  intro s t h
  have hs := readChars_of_isChars (@isChars_escaped .bytes s) []
  have ht := readChars_of_isChars (@isChars_escaped .bytes t) []
  rw [h, ht, Option.some.injEq, Prod.mk.injEq] at hs
  exact List.map_injective_iff.2 toUInt16_injective hs.1.symm

theorem derives_string (s : List UInt8) :
    Derives enc (.value (.string (codeUnits s))) (ascii "\"" ++ escaped s ++ ascii "\"") :=
  .string (isChars_escaped s)

/-! ## Texts of well-formed trees -/

theorem keyText_append (pp : Bool) (key s : List UInt8) :
    keyText pp key ++ s =
      quote :: (key ++ quote ::
        (pretty pp (ascii " ") ++ colon :: (pretty pp (ascii " ") ++ s))) := by
  simp [keyText, ascii, pretty]

mutual

/-- The text of a well-formed tree is JSON for its value. -/
theorem Tree.derives (tree : Tree) (h : tree.WellFormed enc) (pp : Bool) (level : Int) :
    Derives enc (.value tree.toJson) (tree.text pp level) := by
  cases tree with
  | object members =>
    rcases Members.derives members h pp (level + 1) with rfl | ⟨t, ht, htext⟩
    · have hspace := ((isSpace_newline pp).append (isSpace_newline pp)).append
        (isSpace_tabs pp level)
      rw [Tree.text, Members.text, List.append_nil]
      simpa [Tree.toJson, Members.toJson, ascii] using Derives.emptyObject hspace
    · have hbody := ((ht.space_members (isSpace_tabs pp (level + 1))).space_members
        (isSpace_newline pp)).members_space ((isSpace_newline pp).append (isSpace_tabs pp level))
      rw [Tree.text, htext]
      simpa [Tree.toJson, ascii] using Derives.object hbody
  | array items =>
    rcases Items.derives items h pp (level + 1) with rfl | ⟨t, ht, htext⟩
    · have hspace := ((isSpace_newline pp).append (isSpace_newline pp)).append
        (isSpace_tabs pp level)
      rw [Tree.text, Items.text, List.append_nil]
      simpa [Tree.toJson, Items.toJson, ascii] using Derives.emptyArray hspace
    · have hbody := (ht.space_elements (isSpace_newline pp)).elements_space
        ((isSpace_newline pp).append (isSpace_tabs pp level))
      rw [Tree.text, htext]
      simpa [Tree.toJson, ascii] using Derives.array hbody

theorem Member.derives (member : Member) (h : member.WellFormed enc) (pp : Bool) (level : Int) :
    Derives enc (.value member.toJson) (member.text pp level) := by
  cases member with
  | string value => exact derives_string value
  | number value => exact .number h
  | null => exact .null
  | tree value => exact Tree.derives value h pp level

/-- Members that are there, without what comes before the first one. -/
theorem Members.derives (members : Members) (h : members.WellFormed enc) (pp : Bool) (level : Int) :
    members = .nil ∨ ∃ t, Derives enc (.members members.toJson) t ∧
      ∀ first, members.text pp level first =
        (if first then tabs pp level else ascii ", ") ++ t := by
  cases members with
  | nil => exact .inl rfl
  | cons key value rest =>
    have hvalue := Member.derives value h.2.1 pp level
    have hkey := isChars_codeUnits h.1
    refine .inr ⟨keyText pp key ++ value.text pp level ++ rest.text pp level false, ?_, ?_⟩
    · rw [List.append_assoc, keyText_append]
      rcases Members.derives rest h.2.2 pp level with rfl | ⟨t, ht, htext⟩
      · have := Derives.lastMember isSpace_nil hkey (isSpace_blank pp)
          (isSpace_blank pp) hvalue isSpace_nil
        simpa [Members.text, Members.toJson] using this
      · have := Derives.member isSpace_nil hkey (isSpace_blank pp)
          (isSpace_blank pp) hvalue isSpace_nil
          (ht.space_members (isSpace_blank true))
        rw [htext]
        simpa [Members.toJson, ascii, pretty] using this
    · intro first
      rw [Members.text]
      simp only [List.append_assoc]

/-- Items that are there, without the comma before the first one. -/
theorem Items.derives (items : Items) (h : items.WellFormed enc) (pp : Bool) (level : Int) :
    items = .nil ∨ ∃ t, Derives enc (.elements items.toJson) t ∧
      ∀ first, items.text pp level first =
        (if first then [] else ascii "," ++ pretty pp (ascii "\n")) ++ t := by
  cases items with
  | nil => exact .inl rfl
  | cons item rest =>
    have hitem := Tree.derives item h.1 pp level
    refine .inr ⟨tabs pp level ++ item.text pp level ++ rest.text pp level false, ?_, ?_⟩
    · rcases Items.derives rest h.2 pp level with rfl | ⟨t, ht, htext⟩
      · have := Derives.lastElement (isSpace_tabs pp level) hitem isSpace_nil
        simpa [Items.text, Items.toJson] using this
      · have := Derives.element (isSpace_tabs pp level) hitem isSpace_nil
          (ht.space_elements (isSpace_newline pp))
        rw [htext]
        simpa [Items.toJson, ascii] using this
    · intro first
      rw [Items.text]
      simp only [List.append_assoc]

end

/-! ## Nothing else reads back -/

theorem Members.text_cons_true (pp : Bool) (level : Int) (key : List UInt8) (value : Member)
    (rest : Members) (s : List UInt8) :
    (Members.cons key value rest).text pp level true ++ s =
      tabs pp level ++ (quote :: (key ++ quote :: (pretty pp (ascii " ") ++ colon ::
        (pretty pp (ascii " ") ++ value.text pp level)))) ++ [] ++
        (rest.text pp level false ++ s) := by
  simp [Members.text, keyText, ascii, pretty]

/-- After its comma, a member is written as the first one would be. -/
theorem Members.text_cons_false (pp : Bool) (level : Int) (key : List UInt8) (value : Member)
    (rest : Members) (s : List UInt8) :
    ∃ t, (Members.cons key value rest).text pp level false ++ s = comma :: t ∧
      skipSpace t = skipSpace ((Members.cons key value rest).text pp level true ++ s) := by
  refine ⟨ascii " " ++ (keyText pp key ++ value.text pp level ++ rest.text pp level false ++ s),
    by simp [Members.text, ascii], ?_⟩
  have hblank : IsSpace (ascii " ") := isSpace_blank true
  rw [skipSpace_append hblank, Members.text, if_pos rfl]
  simp only [List.append_assoc]
  rw [skipSpace_append (isSpace_tabs pp level)]

theorem Items.text_cons_true (pp : Bool) (level : Int) (item : Tree) (rest : Items)
    (s : List UInt8) :
    (Items.cons item rest).text pp level true ++ s =
      tabs pp level ++ item.text pp level ++ [] ++ (rest.text pp level false ++ s) := by
  simp [Items.text]

theorem Items.text_cons_false (pp : Bool) (level : Int) (item : Tree) (rest : Items)
    (s : List UInt8) :
    ∃ t, (Items.cons item rest).text pp level false ++ s = comma :: t ∧
      skipSpace t = skipSpace ((Items.cons item rest).text pp level true ++ s) := by
  refine ⟨pretty pp (ascii "\n") ++ (tabs pp level ++ item.text pp level ++
    rest.text pp level false ++ s), by simp [Items.text, ascii], ?_⟩
  rw [skipSpace_append (isSpace_newline pp), Items.text, if_pos rfl, List.nil_append]

/-- A tree starts with a bracket. -/
theorem Tree.skipSpace_text (tree : Tree) (pp : Bool) (level : Int) (s : List UInt8) :
    skipSpace (tree.text pp level ++ s) = tree.text pp level ++ s := by
  cases tree with
  | object members => exact skipSpace_cons rfl _
  | array items => exact skipSpace_cons rfl _

theorem Members.length_text_false (members : Members) (pp : Bool) (level : Int) :
    (members.text pp level false).length ≤ (members.text pp level true).length + 2 := by
  cases members with
  | nil => exact Nat.zero_le _
  | cons key value rest =>
    have hcomma : (ascii ", ").length = 2 := rfl
    simp only [Members.text, if_neg Bool.false_ne_true, List.length_append, hcomma]
    omega

theorem Items.length_text_false (items : Items) (pp : Bool) (level : Int) :
    (items.text pp level false).length ≤
      (items.text pp level true).length + (pretty pp (ascii "\n")).length + 1 := by
  cases items with
  | nil => exact Nat.zero_le _
  | cons item rest =>
    have hcomma : (ascii ",").length = 1 := rfl
    simp only [Items.text, if_neg Bool.false_ne_true, List.length_append, hcomma]
    omega

mutual

/-- Wherever a tree is not well formed, `v` has its shape, its keys and its
numbers.  What stands behind a value agrees if the value is the one of the tree. -/
def Tree.Agrees (enc : Encoding) : Tree → Value → Prop
  | .object members, v =>
    (Tree.object members).WellFormed enc ∨ ∃ ms, v = .object ms ∧ members.Agrees enc ms
  | .array items, v =>
    (Tree.array items).WellFormed enc ∨ ∃ vs, v = .array vs ∧ items.Agrees enc vs

def Member.Agrees (enc : Encoding) : Member → Value → Prop
  | .string _, _ => True
  | .number value, v => isNumber value = true ∨ v = .number value
  | .null, _ => True
  | .tree value, v => value.Agrees enc v

def Members.Agrees (enc : Encoding) : Members → List (List UInt16 × Value) → Prop
  | .nil, _ => True
  | .cons key value rest, ms => (Members.cons key value rest).WellFormed enc ∨
      ∃ v ms', ms = (codeUnits key, v) :: ms' ∧ value.Agrees enc v ∧
        (v = value.toJson → rest.Agrees enc ms')

def Items.Agrees (enc : Encoding) : Items → List Value → Prop
  | .nil, _ => True
  | .cons item rest, vs => (Items.cons item rest).WellFormed enc ∨
      ∃ v vs', vs = v :: vs' ∧ item.Agrees enc v ∧ (v = item.toJson → rest.Agrees enc vs')

end

mutual

theorem Tree.agrees_toJson (tree : Tree) : tree.Agrees enc tree.toJson := by
  cases tree with
  | object members => exact .inr ⟨_, rfl, members.agrees_toJson⟩
  | array items => exact .inr ⟨_, rfl, items.agrees_toJson⟩

theorem Member.agrees_toJson (member : Member) : member.Agrees enc member.toJson := by
  cases member with
  | string value => exact trivial
  | number value => exact .inr rfl
  | null => exact trivial
  | tree value => exact value.agrees_toJson

theorem Members.agrees_toJson (members : Members) : members.Agrees enc members.toJson := by
  cases members with
  | nil => exact trivial
  | cons key value rest =>
    exact .inr ⟨_, _, rfl, value.agrees_toJson, fun _ => rest.agrees_toJson⟩

theorem Items.agrees_toJson (items : Items) : items.Agrees enc items.toJson := by
  cases items with
  | nil => exact trivial
  | cons item rest =>
    exact .inr ⟨_, _, rfl, item.agrees_toJson, fun _ => rest.agrees_toJson⟩

end

mutual

/-- A tree whose text reads as a value that agrees with it is well formed. -/
theorem Tree.wellFormed_of_parseValue (tree : Tree) (pp : Bool) (level : Int) {fuel : Nat}
    {v : Value} {rest rest' : List UInt8} (hagrees : tree.Agrees enc v)
    (hfuel : 2 * (tree.text pp level).length ≤ fuel)
    (h : parseValue enc fuel (tree.text pp level ++ rest) = some (v, rest')) :
    tree.WellFormed enc := by
  have hspace := (isSpace_newline pp).append (isSpace_tabs pp level)
  cases tree with
  | object members =>
    rcases hagrees with hwf | ⟨ms, rfl, hagrees⟩
    · exact hwf
    have htext : (Tree.object members).text pp level ++ rest = openBrace ::
        (pretty pp (ascii "\n") ++ (members.text pp (level + 1) true ++
          (pretty pp (ascii "\n") ++ tabs pp level ++ closeBrace :: rest))) := by
      simp [Tree.text, ascii]
    have hlen : max 1 (members.text pp (level + 1) false).length ≤
        ((Tree.object members).text pp level).length := by
      have hle := members.length_text_false pp (level + 1)
      have hopening : (ascii "\x7b").length = 1 := rfl
      have hclosing : (ascii "\x7d").length = 1 := rfl
      simp only [Tree.text, List.length_append, hopening, hclosing]
      omega
    rcases fuel with _ | fuel
    · omega
    rw [htext, parseValue, if_neg (by decide), if_neg (by decide), if_pos rfl,
      skipSpace_append (isSpace_newline pp)] at h
    split at h
    · rename_i hclose
      cases members with
      | nil => exact trivial
      | cons key value tail =>
        rw [Members.text_cons_true, List.append_nil, List.append_assoc,
          skipSpace_append (isSpace_tabs pp (level + 1)), List.cons_append,
          skipSpace_cons rfl] at hclose
        cases hclose
    · rcases Option.map_eq_some_iff.1 h with ⟨⟨ms', t⟩, hms, heq⟩
      cases heq
      exact Members.wellFormed_of_parseMembers members pp (level + 1) hspace hagrees (by omega) hms
  | array items =>
    rcases hagrees with hwf | ⟨vs, rfl, hagrees⟩
    · exact hwf
    have htext : (Tree.array items).text pp level ++ rest = openBracket ::
        (pretty pp (ascii "\n") ++ (items.text pp (level + 1) true ++
          (pretty pp (ascii "\n") ++ tabs pp level ++ closeBracket :: rest))) := by
      simp [Tree.text, ascii]
    have hlen : (items.text pp (level + 1) false).length + 1 ≤
        ((Tree.array items).text pp level).length := by
      have hle := items.length_text_false pp (level + 1)
      have hopening : (ascii "[").length = 1 := rfl
      have hclosing : (ascii "]").length = 1 := rfl
      simp only [Tree.text, List.length_append, hopening, hclosing]
      omega
    rcases fuel with _ | fuel
    · omega
    rw [htext, parseValue, if_neg (by decide), if_pos rfl,
      skipSpace_append (isSpace_newline pp)] at h
    split at h
    · rename_i hclose
      cases items with
      | nil => exact trivial
      | cons item tail =>
        rw [Items.text_cons_true, List.append_nil, List.append_assoc,
          skipSpace_append (isSpace_tabs pp (level + 1)), Tree.skipSpace_text] at hclose
        cases item
        · cases hclose
        · cases hclose
    · rcases Option.map_eq_some_iff.1 h with ⟨⟨vs', t⟩, hitems, heq⟩
      cases heq
      exact Items.wellFormed_of_parseElements items pp (level + 1) hspace hagrees (by omega) hitems

theorem Member.wellFormed_of_parseValue (member : Member) (pp : Bool) (level : Int) {fuel : Nat}
    {v : Value} {rest rest' : List UInt8} (hagrees : member.Agrees enc v)
    (hfuel : 2 * (member.text pp level).length ≤ fuel)
    (h : parseValue enc fuel (skipSpace (member.text pp level ++ rest)) = some (v, rest')) :
    member.WellFormed enc := by
  cases member with
  | string value => exact trivial
  | number value =>
    rcases hagrees with hnumber | rfl
    · exact hnumber
    · exact isNumber_of_parseValue h
  | null => exact trivial
  | tree value =>
    rw [Member.text, Tree.skipSpace_text] at h
    exact Tree.wellFormed_of_parseValue value pp level hagrees hfuel h

theorem Members.wellFormed_of_parseMembers (members : Members) (pp : Bool) (level : Int)
    {fuel : Nat} {ms : List (List UInt16 × Value)} {w rest rest' : List UInt8} (hw : IsSpace w)
    (hagrees : members.Agrees enc ms)
    (hfuel : 2 * (members.text pp level false).length ≤ fuel + 1)
    (h : parseMembers enc fuel
        (skipSpace (members.text pp level true ++ (w ++ closeBrace :: rest))) =
      some (ms, rest')) : members.WellFormed enc := by
  cases members with
  | nil => exact trivial
  | cons key value tail =>
    rcases hagrees with hwf | ⟨v, ms', rfl, hagrees, hagrees'⟩
    · exact hwf
    have hlen : (value.text pp level).length + (tail.text pp level false).length + 3 ≤
        ((Members.cons key value tail).text pp level false).length := by
      have hquote : (ascii "\"").length = 1 := rfl
      have hcolon : (ascii ":").length = 1 := rfl
      simp only [Members.text, keyText, List.length_append, hquote, hcolon]
      omega
    rcases fuel with _ | fuel
    · omega
    rw [Members.text_cons_true] at h
    have hfirst := h
    rw [List.append_nil, List.append_assoc, skipSpace_append (isSpace_tabs pp level),
      List.cons_append, skipSpace_cons rfl] at hfirst
    simp only [List.append_assoc, List.cons_append] at hfirst
    rcases parseMembers_cons hfirst with ⟨t, t', hkey, hvalue⟩
    have hplain := parseKey_codeUnits (isSpace_blank pp) hkey
    rw [hplain.2, skipSpace_append (isSpace_blank pp)] at hvalue
    have hmember := Member.wellFormed_of_parseValue value pp level hagrees (by omega) hvalue
    refine ⟨hplain.1, hmember, ?_⟩
    cases tail with
    | nil => exact trivial
    | cons key' value' tail' =>
      have hderives := Member.derives value hmember pp level
      rcases Members.text_cons_false pp level key' value' tail' (w ++ closeBrace :: rest)
        with ⟨u, hu, hskip⟩
      rw [hu, parsed_members (isSpace_tabs pp level) (isChars_codeUnits hplain.1)
        (isSpace_blank pp) (isSpace_blank pp) hderives isSpace_nil (parsed_of_derives hderives)
        (by omega) rfl rfl, if_neg (by decide), if_pos rfl, hskip] at h
      rcases Option.map_eq_some_iff.1 h with ⟨⟨ms'', t⟩, hms, heq⟩
      cases heq
      exact Members.wellFormed_of_parseMembers (.cons key' value' tail') pp level hw
        (hagrees' rfl) (by omega) hms

theorem Items.wellFormed_of_parseElements (items : Items) (pp : Bool) (level : Int)
    {fuel : Nat} {vs : List Value} {w rest rest' : List UInt8} (hw : IsSpace w)
    (hagrees : items.Agrees enc vs)
    (hfuel : 2 * (items.text pp level false).length ≤ fuel + 1)
    (h : parseElements enc fuel
        (skipSpace (items.text pp level true ++ (w ++ closeBracket :: rest))) =
      some (vs, rest')) : items.WellFormed enc := by
  cases items with
  | nil => exact trivial
  | cons item tail =>
    rcases hagrees with hwf | ⟨v, vs', rfl, hagrees, hagrees'⟩
    · exact hwf
    have hlen : (item.text pp level).length + (tail.text pp level false).length + 1 ≤
        ((Items.cons item tail).text pp level false).length := by
      have hcomma : (ascii ",").length = 1 := rfl
      simp only [Items.text, if_neg Bool.false_ne_true, List.length_append, hcomma]
      omega
    rcases fuel with _ | fuel
    · omega
    rw [Items.text_cons_true] at h
    have hfirst := h
    rw [List.append_nil, List.append_assoc, skipSpace_append (isSpace_tabs pp level),
      Tree.skipSpace_text] at hfirst
    rcases parseElements_cons hfirst with ⟨t, hvalue⟩
    have hitem := Tree.wellFormed_of_parseValue item pp level hagrees (by omega) hvalue
    refine ⟨hitem, ?_⟩
    cases tail with
    | nil => exact trivial
    | cons item' tail' =>
      have hderives := Tree.derives item hitem pp level
      rcases Items.text_cons_false pp level item' tail' (w ++ closeBracket :: rest)
        with ⟨u, hu, hskip⟩
      rw [hu, parsed_elements (isSpace_tabs pp level) hderives isSpace_nil
        (parsed_of_derives hderives) (by omega) rfl rfl, if_neg (by decide), if_pos rfl,
        hskip] at h
      rcases Option.map_eq_some_iff.1 h with ⟨⟨vs'', t⟩, hitems, heq⟩
      cases heq
      exact Items.wellFormed_of_parseElements (.cons item' tail') pp level hw
        (hagrees' rfl) (by omega) hitems

end

/-! ## The round trip -/

/-- The text of a tree is JSON that stands for the tree exactly when the tree is
well formed. -/
theorem isText_text_iff (tree : Tree) (pp : Bool) (level : Int) :
    IsText enc (tree.text pp level) tree.toJson ↔ tree.WellFormed enc := by
  constructor
  · intro h
    have hparse := parse_of_isText h
    have htext := tree.skipSpace_text pp level []
    rw [List.append_nil] at htext
    rw [parse, htext] at hparse
    rcases Option.bind_eq_some_iff.1 hparse with ⟨⟨v, rest⟩, hv, hrest⟩
    simp only at hrest
    split at hrest
    · cases hrest
      refine Tree.wellFormed_of_parseValue tree pp level tree.agrees_toJson ?_
        (by rw [List.append_nil]; exact hv)
      omega
    · cases hrest
  · intro h
    refine ⟨[], tree.text pp level, [], ?_, isSpace_nil, tree.derives h pp level, isSpace_nil⟩
    rw [List.nil_append, List.append_nil]

/-- What the calls of a well-formed tree write is JSON, and a parser reads it back
as the tree. -/
theorem parse_run_calls (json : JsonTree) (prettyprint : Bool) :
    IsText .bytes ((JsonWriter.new prettyprint).run json.tree.calls).toString json.tree.toJson ∧
      parse .bytes ((JsonWriter.new prettyprint).run json.tree.calls).toString =
        some json.tree.toJson := by
  rw [toString_run_new]
  have htext := (isText_text_iff json.tree prettyprint 0).2 json.wellFormed
  exact ⟨htext, parse_of_isText htext⟩

/-! ## A member between braces -/

/-- A key and a value, between braces, are an object. -/
theorem isText_between {key s : List UInt8} (hkey : IsKey enc key) {v : Value}
    (h : Derives enc (.value v) s) (pp : Bool) :
    IsText enc (ascii "\x7b" ++ (keyText pp key ++ s) ++ ascii "\x7d")
      (.object [(codeUnits key, v)]) := by
  have hmember := Derives.lastMember isSpace_nil (isChars_codeUnits hkey) (isSpace_blank pp)
    (isSpace_blank pp) h isSpace_nil
  refine ⟨[], _, [], ?_, isSpace_nil, .object hmember, isSpace_nil⟩
  rw [keyText_append]
  simp [ascii]

/-- The value that the parser reads after the key. -/
theorem parseValue_of_isText_between {key s : List UInt8} {pp : Bool} {v : Value}
    (hs : ∀ t, skipSpace (s ++ t) = s ++ t)
    (h : IsText enc (ascii "\x7b" ++ (keyText pp key ++ s) ++ ascii "\x7d")
      (.object [(codeUnits key, v)])) :
    ∃ fuel rest, 2 * s.length ≤ fuel ∧
      parseValue enc fuel (s ++ [closeBrace]) = some (v, rest) := by
  have htext : ascii "\x7b" ++ (keyText pp key ++ s) ++ ascii "\x7d" =
      openBrace :: quote :: (key ++ quote :: (pretty pp (ascii " ") ++ colon ::
        (pretty pp (ascii " ") ++ (s ++ [closeBrace])))) := by
    rw [keyText_append]
    simp [ascii]
  have hparse := parse_of_isText h
  rw [htext, parse, skipSpace_cons rfl, parseValue, if_neg (by decide), if_neg (by decide),
    if_pos rfl, skipSpace_cons rfl, if_neg (by rw [List.head?_cons]; decide)] at hparse
  rcases Option.bind_eq_some_iff.1 hparse with ⟨⟨v', rest⟩, hv, hrest⟩
  rcases Option.map_eq_some_iff.1 hv with ⟨⟨ms, t⟩, hms, heq⟩
  simp only at hrest
  split at hrest
  · cases hrest
    cases heq
    simp only [List.length_cons, List.length_append] at hms
    rcases parseMembers_cons hms with ⟨t, t', hkey, hvalue⟩
    have hplain := parseKey_codeUnits (isSpace_blank pp) hkey
    rw [hplain.2, skipSpace_append (isSpace_blank pp), hs] at hvalue
    exact ⟨_, t', by omega, hvalue⟩
  · cases hrest

end DbRelay
