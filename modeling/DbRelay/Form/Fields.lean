import DbRelay.Form.Parser
import Mathlib.Data.List.DropRight

/-!
# The parsers field by field

The loops, seen as steps from one field to the next.  `ValueBuf.field` says what a field
leaves in the buffer, and `fieldCalls` lists the calls that the fields make.  Neither has
cursors that move.

* `run_fields`: the loop is these steps, as long as each field fits.
* `endGet_eq` and `endPost_eq`: the last field, whose value gets its newlines trimmed.
* `parseGetQueryString_eq`, `parsePostQueryString_eq` and `parsePostQueryFile_eq` are the
  parsers.
-/

namespace DbRelay

/-! ## Fields -/

/-- The `&`-separated parts of a text. -/
def fieldsOf (text : List UInt8) : List (List UInt8) := text.splitOn ampersand

/-- The text before the first `=`. -/
def fieldKey (field : List UInt8) : List UInt8 := (field.splitOn equalsSign).headD []

/-- The texts that follow the `=` signs, each up to the next one. -/
def fieldSegments (field : List UInt8) : List (List UInt8) := (field.splitOn equalsSign).tail

/-- The key leaves room for its terminator, and so does the last segment. -/
def FieldFits (size : Nat) (field : List UInt8) : Prop :=
  (fieldKey field).length < keySz ∧ (∀ w ∈ fieldSegments field, w.length ≤ size) ∧
    ∀ w ∈ (fieldSegments field).getLast?, w.length < size

instance (size : Nat) (field : List UInt8) : Decidable (FieldFits size field) :=
  inferInstanceAs (Decidable (_ ∧ (∀ w ∈ fieldSegments field, _) ∧
    ∀ w ∈ (fieldSegments field).getLast?, _))

namespace ValueBuf

/-- A segment starts at the start of the buffer. -/
def segment (buf : ValueBuf) (w : List UInt8) : ValueBuf :=
  ⟨w ++ buf.bytes.drop w.length, w.length⟩

def segments (buf : ValueBuf) (ws : List (List UInt8)) : ValueBuf := ws.foldl segment buf

/-- `*v='\0'`. -/
def closed (buf : ValueBuf) : ValueBuf := { buf with bytes := buf.bytes.set buf.v 0 }

/-- The buffer after a call of `write_value`. -/
def unescaped (u : Unescape) (buf : ValueBuf) : ValueBuf :=
  { buf with bytes := unescapeBytes u buf.bytes }

/-- The buffer after a field that `&` ends. -/
def field (u : Unescape) (buf : ValueBuf) (f : List UInt8) : ValueBuf :=
  ((buf.segments (fieldSegments f)).closed).unescaped u

end ValueBuf

/-- The calls for fields that `&` ends. -/
def fieldCalls (u : Unescape) (buf : ValueBuf) : List (List UInt8) → List (CString × CString)
  | [] => []
  | f :: fs =>
    (.ofBytes (fieldKey f), (buf.segments (fieldSegments f)).closed.text) ::
      fieldCalls u (buf.field u f) fs

/-- What the fields leave in the buffer. -/
def valueLeft (u : Unescape) (buf : ValueBuf) (fs : List (List UInt8)) : ValueBuf :=
  fs.foldl (ValueBuf.field u) buf

/-- No part contains the byte that the text was cut at. -/
theorem not_mem_of_mem_splitOn {a : UInt8} {text w : List UInt8} (h : w ∈ text.splitOn a) :
    a ∉ w := by
  induction text generalizing w with
  | nil =>
    rw [List.splitOn_nil, List.mem_singleton] at h
    rw [h]
    exact List.not_mem_nil
  | cons b text ih =>
    rw [List.splitOn_cons_eq_if_modifyHead] at h
    split at h
    · rcases List.mem_cons.1 h with rfl | h
      · exact List.not_mem_nil
      · exact ih h
    · rename_i hb
      rcases hsplit : text.splitOn a with _ | ⟨x, xs⟩
      · exact absurd hsplit (List.splitOn_ne_nil a text)
      · rw [hsplit] at h ih
        rcases List.mem_cons.1 h with rfl | h
        · rw [List.mem_cons, not_or]
          exact ⟨fun hab => hb (by rw [hab]; exact beq_self_eq_true b),
            ih List.mem_cons_self⟩
        · exact ih (List.mem_cons_of_mem _ h)

/-- The parts, each with the byte before it. -/
theorem intercalate_cons (a : UInt8) (x : List UInt8) (xs : List (List UInt8)) :
    [a].intercalate (x :: xs) = x ++ xs.flatMap (a :: ·) := by
  induction xs generalizing x with
  | nil => simp
  | cons y xs ih =>
    rw [List.intercalate_cons_cons, ih, List.flatMap_cons]
    simp

theorem length_lt_flatMap (a : UInt8) {w : List UInt8} {xs : List (List UInt8)} (hw : w ∈ xs) :
    w.length < (xs.flatMap (a :: ·)).length := by
  have hle : (a :: w).length ≤ (xs.flatMap (a :: ·)).length :=
    (List.sublist_flatten_of_mem (List.mem_map_of_mem hw)).length_le
  rwa [List.length_cons] at hle

theorem not_mem_of_mem_fieldsOf {text f : List UInt8} (h : f ∈ fieldsOf text) :
    ampersand ∉ f :=
  not_mem_of_mem_splitOn h

theorem splitOn_field (f : List UInt8) :
    f.splitOn equalsSign = fieldKey f :: fieldSegments f := by
  rw [fieldKey, fieldSegments]
  cases h : f.splitOn equalsSign with
  | nil => exact absurd h (List.splitOn_ne_nil equalsSign f)
  | cons key segments => rfl

/-- A field is its key and its segments. -/
theorem field_eq (f : List UInt8) :
    f = fieldKey f ++ (fieldSegments f).flatMap (equalsSign :: ·) := by
  rw [← intercalate_cons, ← splitOn_field, List.intercalate_splitOn]

/-! ## The loop over a field -/

namespace FormState

theorem run_append (u : Unescape) (s : FormState) (text text' : List UInt8) :
    s.run u (text ++ text') = (s.run u text).bind fun s => s.run u text' :=
  List.foldlM_append

/-- The bytes of a key. -/
theorem run_key (u : Unescape) (s : FormState) (htarget : s.target = false) (w : List UInt8)
    (hw : ∀ b ∈ w, b ≠ ampersand ∧ b ≠ equalsSign) :
    s.run u w =
      if w = [] ∨ s.key.length + w.length ≤ keySz then some { s with key := s.key ++ w }
      else none := by
  induction w generalizing s with
  | nil =>
    rw [if_pos (.inl rfl), List.append_nil]
    rfl
  | cons b w ih =>
    rw [List.forall_mem_cons] at hw
    have hstep : s.step u b =
        if s.key.length < keySz then some { s with key := s.key ++ [b] } else none := by
      rw [step, if_neg hw.1.1, if_neg hw.1.2, htarget]
      rfl
    rw [run, List.foldlM_cons, hstep]
    by_cases hroom : s.key.length < keySz
    · have hrest := ih { s with key := s.key ++ [b] } htarget hw.2
      rw [if_pos hroom]
      refine hrest.trans ?_
      simp only [List.length_append, List.length_cons, List.length_nil, List.append_assoc,
        List.cons_append, List.nil_append, reduceCtorEq, false_or]
      refine if_congr ?_ rfl rfl
      constructor
      · intro hgiven
        rcases hgiven with rfl | h
        · simp only [List.length_nil]
          omega
        · omega
      · intro h
        exact .inr (by omega)
    · rw [if_neg hroom, if_neg]
      · rfl
      · intro hgiven
        rcases hgiven with h | h
        · cases h
        · rw [List.length_cons] at h
          omega

theorem run_cons (u : Unescape) (s : FormState) (b : UInt8) (text : List UInt8) :
    s.run u (b :: text) = (s.step u b).bind fun s => s.run u text :=
  List.foldlM_cons

theorem run_singleton (u : Unescape) (s : FormState) (b : UInt8) :
    s.run u [b] = s.step u b := by
  rw [run_cons]
  exact Option.bind_fun_some _

/-- The bytes of a segment, by induction from its end. -/
theorem run_segment (u : Unescape) (s : FormState) (htarget : s.target = true)
    (hv : s.value.v = 0) (w : List UInt8) (hw : ∀ b ∈ w, b ≠ ampersand ∧ b ≠ equalsSign) :
    s.run u w =
      if w.length ≤ s.value.bytes.length then some { s with value := s.value.segment w }
      else none := by
  induction w using List.reverseRecOn with
  | nil =>
    have hvalue : s.value.segment [] = s.value := by
      show ValueBuf.mk s.value.bytes 0 = s.value
      rw [← hv]
    rw [if_pos (show ([] : List UInt8).length ≤ _ from Nat.zero_le _), hvalue]
    rfl
  | append_singleton w b ih =>
    rw [List.forall_mem_append, List.forall_mem_singleton] at hw
    rw [run_append, ih hw.1, List.length_append, List.length_singleton]
    by_cases hroom : w.length ≤ s.value.bytes.length
    · have hlen : (w ++ s.value.bytes.drop w.length).length = s.value.bytes.length := by
        rw [List.length_append, List.length_drop]
        omega
      rw [if_pos hroom, Option.bind_some, run_singleton, step, if_neg hw.2.1, if_neg hw.2.2]
      simp only [htarget, Bool.not_true, if_neg Bool.false_ne_true, ValueBuf.segment,
        ValueBuf.store, hlen]
      by_cases hlt : w.length < s.value.bytes.length
      · have hdrop : s.value.bytes.drop w.length =
            s.value.bytes[w.length] :: s.value.bytes.drop (w.length + 1) :=
          List.drop_eq_getElem_cons hlt
        have hset : (w ++ s.value.bytes.drop w.length).set w.length b =
            w ++ [b] ++ s.value.bytes.drop (w.length + 1) := by
          rw [hdrop, List.set_append_right _ _ (le_refl _), Nat.sub_self, List.append_assoc]
          rfl
        rw [if_pos hlt, if_pos (by omega), hset, List.length_append, List.length_singleton]
        rfl
      · rw [if_neg hlt, if_neg (by omega)]
        rfl
    · rw [if_neg hroom, if_neg (by omega)]
      rfl

end FormState

namespace ValueBuf

theorem length_segment {buf : ValueBuf} {w : List UInt8} (h : w.length ≤ buf.bytes.length) :
    (buf.segment w).bytes.length = buf.bytes.length := by
  rw [segment, List.length_append, List.length_drop]
  omega

theorem length_segments {buf : ValueBuf} {ws : List (List UInt8)}
    (h : ∀ w ∈ ws, w.length ≤ buf.bytes.length) :
    (buf.segments ws).bytes.length = buf.bytes.length := by
  induction ws generalizing buf with
  | nil => rfl
  | cons w ws ih =>
    rw [List.forall_mem_cons] at h
    have hlen := length_segment h.1
    have hrest := @ih (buf.segment w) fun x hx => hlen ▸ h.2 x hx
    exact hrest.trans hlen

/-- The cursor stays where it is, or is at the end of the last segment. -/
theorem v_segments (buf : ValueBuf) (ws : List (List UInt8)) :
    (buf.segments ws).v = (ws.getLast?.map List.length).getD buf.v := by
  induction ws using List.reverseRecOn with
  | nil => rfl
  | append_singleton ws w ih =>
    rw [segments, List.foldl_append, List.getLast?_concat]
    rfl

theorem length_unescapeBytes (u : Unescape) {bytes : List UInt8} (h : 0 ∈ bytes) :
    (unescapeBytes u bytes).length = bytes.length := by
  have hprefix : (CString.ofBytes bytes).bytes.length < bytes.length := by
    have hsplit := List.takeWhile_append_dropWhile (p := fun b => decide (b ≠ 0)) (l := bytes)
    have hlen := congrArg List.length hsplit
    rw [List.length_append] at hlen
    rcases hdrop : bytes.dropWhile fun b => decide (b ≠ 0) with _ | ⟨c, rest⟩
    · rw [hdrop, List.append_nil] at hsplit
      rw [← hsplit] at h
      exact absurd h (CString.ofBytes bytes).noNul
    · rw [hdrop, List.length_cons] at hlen
      show (bytes.takeWhile fun b => decide (b ≠ 0)).length < bytes.length
      omega
  have hdecode := u.length_le ((CString.ofBytes bytes).bytes.map plusToSpace)
  rw [List.length_map] at hdecode
  rw [unescapeBytes]
  simp only [List.length_append, List.length_cons, List.length_drop, List.length_map]
  omega

theorem length_closed (buf : ValueBuf) : buf.closed.bytes.length = buf.bytes.length :=
  List.length_set

theorem zero_mem_closed {buf : ValueBuf} (h : buf.v < buf.bytes.length) :
    0 ∈ buf.closed.bytes :=
  List.mem_set h 0

/-- A field that fits leaves the size and the cursor in bounds. -/
theorem field_inBounds (u : Unescape) {buf : ValueBuf} (hv : buf.v < buf.bytes.length)
    {f : List UInt8} (hf : FieldFits buf.bytes.length f) :
    (buf.field u f).bytes.length = buf.bytes.length ∧
      (buf.segments (fieldSegments f)).v < buf.bytes.length := by
  have hlen := length_segments hf.2.1
  have hend : (buf.segments (fieldSegments f)).v < buf.bytes.length := by
    rw [v_segments]
    cases hlast : (fieldSegments f).getLast? with
    | none => exact hv
    | some w => exact hf.2.2 w hlast
  refine ⟨?_, hend⟩
  have hzero := @zero_mem_closed (buf.segments (fieldSegments f)) (hlen.symm ▸ hend)
  exact (length_unescapeBytes u hzero).trans ((length_closed _).trans hlen)

end ValueBuf

namespace FormState

/-- Each segment after its `=`. -/
theorem run_segments (u : Unescape) (s : FormState) (ws : List (List UInt8))
    (hws : ∀ w ∈ ws, ∀ b ∈ w, b ≠ ampersand ∧ b ≠ equalsSign) :
    s.run u (ws.flatMap (equalsSign :: ·)) =
      if ∀ w ∈ ws, w.length ≤ s.value.bytes.length then
        some { s with value := s.value.segments ws, target := s.target || !ws.isEmpty }
      else none := by
  induction ws generalizing s with
  | nil => simp [run, ValueBuf.segments]
  | cons w ws ih =>
    rw [List.forall_mem_cons] at hws
    have hstep : s.step u equalsSign =
        some { s with target := true, value := { s.value with v := 0 } } := rfl
    have hsegment := run_segment u { s with target := true, value := { s.value with v := 0 } }
      rfl rfl w hws.1
    rw [List.flatMap_cons, List.cons_append, run_cons, hstep, Option.bind_some, run_append,
      hsegment]
    by_cases hw : w.length ≤ s.value.bytes.length
    · have hlen := ValueBuf.length_segment hw
      rw [if_pos hw, Option.bind_some, ih _ hws.2]
      simp only [List.forall_mem_cons, hw, true_and]
      show (if ∀ x ∈ ws, x.length ≤ (s.value.segment w).bytes.length then _ else _) = _
      rw [hlen]
      refine if_congr Iff.rfl ?_ rfl
      simp only [Bool.true_or, List.isEmpty_cons, Bool.not_false, Bool.or_true]
      rfl
    · rw [if_neg hw, if_neg fun h => hw (h w List.mem_cons_self)]
      rfl

/-- A field, without the `&` after it. -/
theorem run_field (u : Unescape) (s : FormState) (hkey : s.key = []) (htarget : s.target = false)
    {f : List UInt8} (hf : ampersand ∉ f) :
    s.run u f =
      if (fieldKey f).length ≤ keySz ∧ ∀ w ∈ fieldSegments f, w.length ≤ s.value.bytes.length then
        some { s with
          key := fieldKey f
          value := s.value.segments (fieldSegments f)
          target := !(fieldSegments f).isEmpty }
      else none := by
  have hparts : ∀ w ∈ fieldKey f :: fieldSegments f, ∀ b ∈ w,
      b ≠ ampersand ∧ b ≠ equalsSign := by
    rw [← splitOn_field]
    intro w hw b hb
    refine ⟨?_, fun h => not_mem_of_mem_splitOn hw (h ▸ hb)⟩
    rintro rfl
    apply hf
    rw [splitOn_field] at hw
    rw [field_eq f, List.mem_append, List.mem_flatMap]
    rcases List.mem_cons.1 hw with rfl | hw
    · exact .inl hb
    · exact .inr ⟨w, hw, List.mem_cons_of_mem _ hb⟩
  rw [List.forall_mem_cons] at hparts
  have hkeys := run_key u s htarget (fieldKey f) hparts.1
  rw [hkey, List.length_nil, Nat.zero_add, List.nil_append] at hkeys
  conv => lhs; rw [field_eq f]
  rw [run_append, hkeys]
  by_cases hlen : (fieldKey f).length ≤ keySz
  · rw [if_pos (.inr hlen), Option.bind_some, run_segments u _ _ hparts.2]
    simp only [hlen, true_and, htarget, Bool.false_or]
  · rw [if_neg, if_neg fun h => hlen h.1]
    · rfl
    · intro hgiven
      rcases hgiven with h | h
      · exact hlen (h ▸ Nat.zero_le _)
      · exact hlen h

/-- The `&` after a field. -/
theorem step_ampersand (u : Unescape) (s : FormState) :
    s.step u ampersand =
      if s.key.length < keySz ∧ s.value.v < s.value.bytes.length then
        some { s with
          key := []
          value := s.value.closed.unescaped u
          target := false
          calls := s.calls ++ [(.ofBytes s.key, s.value.closed.text)] }
      else none := by
  rw [step, if_pos rfl, ValueBuf.store]
  by_cases hkey : s.key.length < keySz
  · by_cases hv : s.value.v < s.value.bytes.length
    · rw [if_pos hkey, if_pos hv, if_pos ⟨hkey, hv⟩]
      rfl
    · rw [if_pos hkey, if_neg hv, if_neg fun h => hv h.2]
      rfl
  · rw [if_neg hkey, if_neg fun h => hkey h.1]

/-- A field and its `&`. -/
theorem run_field_ampersand (u : Unescape) (s : FormState) (hkey : s.key = [])
    (htarget : s.target = false) (hv : s.value.v < s.value.bytes.length) {f : List UInt8}
    (hf : ampersand ∉ f) (text : List UInt8) :
    FieldFits s.value.bytes.length f ∧
        s.run u (f ++ ampersand :: text) =
          run u { s with
            value := s.value.field u f
            calls := s.calls ++
              [(.ofBytes (fieldKey f), (s.value.segments (fieldSegments f)).closed.text)] } text ∨
      ¬FieldFits s.value.bytes.length f ∧ s.run u (f ++ ampersand :: text) = none := by
  rw [run_append, run_field u s hkey htarget hf]
  by_cases hroom : (fieldKey f).length ≤ keySz ∧
      ∀ w ∈ fieldSegments f, w.length ≤ s.value.bytes.length
  · rw [if_pos hroom, Option.bind_some, run_cons, step_ampersand]
    simp only [ValueBuf.length_segments hroom.2]
    by_cases hfits : FieldFits s.value.bytes.length f
    · refine .inl ⟨hfits, ?_⟩
      rw [if_pos ⟨hfits.1, (ValueBuf.field_inBounds u hv hfits).2⟩, Option.bind_some]
      simp only [hkey, htarget]
      rfl
    · refine .inr ⟨hfits, ?_⟩
      rw [if_neg]
      · rfl
      · intro hgiven
        obtain ⟨hkey', hv'⟩ := hgiven
        refine hfits ⟨hkey', hroom.2, fun w hw => ?_⟩
        rw [ValueBuf.v_segments, hw] at hv'
        exact hv'
  · refine .inr ⟨fun h => hroom ⟨le_of_lt h.1, h.2.1⟩, ?_⟩
    rw [if_neg hroom]
    rfl

/-- The loop over fields, of which `&` ends all but the last. -/
theorem run_fields (u : Unescape) (s : FormState) (hkey : s.key = []) (htarget : s.target = false)
    (hv : s.value.v < s.value.bytes.length) {fs : List (List UInt8)} {f : List UInt8}
    (hfs : ∀ g ∈ fs ++ [f], ampersand ∉ g) :
    s.run u ([ampersand].intercalate (fs ++ [f])) =
      if (∀ g ∈ fs, FieldFits s.value.bytes.length g) ∧ (fieldKey f).length ≤ keySz ∧
          ∀ w ∈ fieldSegments f, w.length ≤ s.value.bytes.length then
        some {
          key := fieldKey f
          value := (valueLeft u s.value fs).segments (fieldSegments f)
          target := !(fieldSegments f).isEmpty
          calls := s.calls ++ fieldCalls u s.value fs }
      else none := by
  induction fs generalizing s with
  | nil =>
    rw [List.nil_append, intercalate_cons, List.flatMap_nil, List.append_nil,
      run_field u s hkey htarget (hfs f (by simp))]
    simp only [fieldCalls, List.append_nil, valueLeft, List.foldl_nil]
    refine if_congr ?_ rfl rfl
    simp
  | cons g fs ih =>
    rw [List.cons_append, List.forall_mem_cons] at hfs
    have htext : [ampersand].intercalate (g :: fs ++ [f]) =
        g ++ ampersand :: [ampersand].intercalate (fs ++ [f]) := by
      rw [List.cons_append, intercalate_cons]
      rcases h : fs ++ [f] with _ | ⟨x, xs⟩
      · exact absurd h (by simp)
      · rw [intercalate_cons, List.flatMap_cons, List.cons_append]
    rw [htext]
    rcases run_field_ampersand u s hkey htarget hv hfs.1 ([ampersand].intercalate (fs ++ [f]))
      with ⟨hg, hrun⟩ | ⟨hg, hrun⟩
    · have hbounds := ValueBuf.field_inBounds u hv hg
      have hrest := ih { s with
          value := s.value.field u g
          calls := s.calls ++
            [(.ofBytes (fieldKey g), (s.value.segments (fieldSegments g)).closed.text)] }
        hkey htarget (lt_of_lt_of_eq hbounds.2 hbounds.1.symm) hfs.2
      rw [hrun, hrest]
      simp only [hbounds.1, List.forall_mem_cons, hg, true_and, List.append_assoc]
      rfl
    · rw [hrun, if_neg fun h => hg (h.1 g List.mem_cons_self)]

end FormState

/-! ## The end of the input -/

/-- A text without the newlines at its end. -/
def withoutNewlines (s : List UInt8) : List UInt8 := s.rdropWhile isNewline

theorem set_append_cons (p : List UInt8) (b c : UInt8) (r : List UInt8) :
    (p ++ b :: r).set p.length c = p ++ c :: r := by
  rw [List.set_append_right _ _ (le_refl _), Nat.sub_self]
  rfl

/-- The loop puts zeros over the newlines before `v`. -/
theorem trimNewlines_append (p r : List UInt8) :
    trimNewlines (p ++ r) p.length =
      (withoutNewlines p ++ (List.replicate (p.length - (withoutNewlines p).length) 0 ++ r),
        (withoutNewlines p).length) := by
  induction p using List.reverseRecOn generalizing r with
  | nil => rfl
  | append_singleton p b ih =>
    have hget : (p ++ [b] ++ r)[p.length]? = some b := by
      rw [List.append_assoc, List.getElem?_append_right (le_refl _), Nat.sub_self]
      rfl
    rw [List.length_append, List.length_singleton, trimNewlines, hget, Option.any_some,
      withoutNewlines, List.rdropWhile_concat]
    by_cases hb : isNewline b = true
    · have hset : (p ++ [b] ++ r).set p.length 0 = p ++ 0 :: r := by
        rw [List.append_assoc]
        exact set_append_cons p b 0 r
      have hle : (p.rdropWhile isNewline).length ≤ p.length :=
        (List.rdropWhile_prefix isNewline p).length_le
      rw [if_pos hb, if_pos hb, hset, ih (0 :: r), withoutNewlines]
      have hsub : p.length + 1 - (p.rdropWhile isNewline).length =
          p.length - (p.rdropWhile isNewline).length + 1 := by
        omega
      rw [hsub, List.replicate_succ', List.append_assoc]
      rfl
    · rw [if_neg hb, if_neg hb, List.length_append, List.length_singleton, Nat.sub_self]
      rfl

namespace ValueBuf

/-- The bytes before the cursor, and the byte at it. -/
def before (buf : ValueBuf) : List UInt8 := buf.bytes.take buf.v
def current (buf : ValueBuf) : UInt8 := buf.bytes.getD buf.v 0

/-- The last value of a GET.  If the byte after it is a newline, the terminator overwrites the
last byte that stays, which may be the one before the buffer. -/
def lastGet (buf : ValueBuf) : Option CString :=
  if isNewline buf.current then
    if withoutNewlines buf.before = [] then none
    else some (.ofBytes (withoutNewlines buf.before).dropLast)
  else some (.ofBytes buf.before)

/-- The last value of a POST. -/
def lastPost (buf : ValueBuf) : CString :=
  if isNewline buf.current then .ofBytes (withoutNewlines buf.before) else .ofBytes buf.before

theorem bytes_eq {buf : ValueBuf} (hv : buf.v < buf.bytes.length) :
    ∃ r, buf.bytes = buf.before ++ buf.current :: r ∧ buf.before.length = buf.v := by
  refine ⟨buf.bytes.drop (buf.v + 1), ?_, ?_⟩
  · have hget : buf.bytes.getD buf.v 0 = buf.bytes[buf.v] := by
      simp [List.getD_eq_getElem?_getD, hv]
    rw [before, current, hget, ← List.drop_eq_getElem_cons hv, List.take_append_drop]
  · rw [before, List.length_take]
    omega

end ValueBuf

/-- A string ends at the first zero. -/
theorem ofBytes_append_zero (p r : List UInt8) :
    CString.ofBytes (p ++ 0 :: r) = CString.ofBytes p := by
  refine CString.ext' ?_
  show (p ++ 0 :: r).takeWhile _ = p.takeWhile _
  rw [List.takeWhile_append]
  split
  · rename_i hall
    rw [List.takeWhile_cons_of_neg (by decide), List.append_nil]
    exact ((List.takeWhile_prefix _).eq_of_length hall).symm
  · rfl

/-- The loop before the terminator, from the cursor. -/
theorem trimNewlines_current {buf : ValueBuf} {r : List UInt8}
    (hbytes : buf.bytes = buf.before ++ buf.current :: r) (hlen : buf.before.length = buf.v) :
    trimNewlines buf.bytes (buf.v + 1) =
      if isNewline buf.current then
        (withoutNewlines buf.before ++
          0 :: (List.replicate (buf.v - (withoutNewlines buf.before).length) 0 ++ r),
          (withoutNewlines buf.before).length)
      else (buf.bytes, buf.v + 1) := by
  have htrim := trimNewlines_append (buf.before ++ [buf.current]) r
  have hwithout : withoutNewlines (buf.before ++ [buf.current]) =
      if isNewline buf.current then withoutNewlines buf.before
      else buf.before ++ [buf.current] :=
    List.rdropWhile_concat _ _ _
  rw [List.length_append, List.length_singleton, hlen, List.append_assoc, List.singleton_append,
    ← hbytes, hwithout] at htrim
  rw [htrim]
  split
  · have hle : (withoutNewlines buf.before).length ≤ buf.v :=
      hlen ▸ (List.rdropWhile_prefix isNewline buf.before).length_le
    have hsub : buf.v + 1 - (withoutNewlines buf.before).length =
        buf.v - (withoutNewlines buf.before).length + 1 := by
      omega
    rw [hsub, List.replicate_succ]
    rfl
  · rw [List.length_append, List.length_singleton, hlen, Nat.sub_self]
    simp [hbytes]

/-- With the cursor after the buffer nothing is cut off. -/
theorem trimNewlines_outside {buf : ValueBuf} (hv : ¬buf.v < buf.bytes.length) :
    trimNewlines buf.bytes (buf.v + 1) = (buf.bytes, buf.v + 1) := by
  rw [trimNewlines, List.getElem?_eq_none (by omega)]
  rfl

theorem endPost_eq (u : Unescape) (s : FormState) :
    endPost u s =
      if s.key.length < keySz ∧ s.value.v < s.value.bytes.length then
        some (s.calls ++ [(.ofBytes s.key, s.value.lastPost)])
      else none := by
  rw [endPost]
  by_cases hkey : s.key.length < keySz
  · rw [if_pos hkey]
    by_cases hv : s.value.v < s.value.bytes.length
    · rw [if_pos ⟨hkey, hv⟩]
      rcases ValueBuf.bytes_eq hv with ⟨r, hbytes, hlen⟩
      rw [trimNewlines_current hbytes hlen, ValueBuf.lastPost]
      by_cases hc : isNewline s.value.current = true
      · have hle : (withoutNewlines s.value.before).length ≤ s.value.v :=
          hlen ▸ (List.rdropWhile_prefix isNewline s.value.before).length_le
        simp only [if_pos hc]
        rw [if_neg (by omega), Option.map_some]
        have htext := ofBytes_append_zero (withoutNewlines s.value.before)
          (List.replicate (s.value.v - (withoutNewlines s.value.before).length) 0 ++ r)
        rw [← htext]
        rfl
      · have hset : s.value.bytes.set s.value.v 0 = s.value.before ++ 0 :: r := by
          conv => lhs; rw [hbytes, ← hlen]
          exact set_append_cons _ _ _ _
        simp only [if_neg hc, ValueBuf.store]
        rw [if_pos trivial, if_pos hv, Option.map_some, hset,
          ← ofBytes_append_zero s.value.before r]
        rfl
    · rw [if_neg fun h => hv h.2, trimNewlines_outside hv]
      simp only [ValueBuf.store, if_neg hv]
      rfl
  · rw [if_neg hkey, if_neg fun h => hkey h.1]

theorem endGet_eq (u : Unescape) (s : FormState) :
    endGet u s =
      if s.key.length < keySz ∧ s.value.v < s.value.bytes.length then
        s.value.lastGet.map fun text => s.calls ++ [(.ofBytes s.key, text)]
      else none := by
  rw [endGet]
  by_cases hkey : s.key.length < keySz
  · rw [if_pos hkey]
    by_cases hv : s.value.v < s.value.bytes.length
    · rw [if_pos ⟨hkey, hv⟩]
      rcases ValueBuf.bytes_eq hv with ⟨r, hbytes, hlen⟩
      rw [trimNewlines_current hbytes hlen, ValueBuf.lastGet]
      by_cases hc : isNewline s.value.current = true
      · rw [if_pos hc, if_pos hc]
        rcases List.eq_nil_or_concat (withoutNewlines s.value.before) with hnil | ⟨q, b, hq⟩
        · rw [hnil, if_pos rfl]
          rfl
        · rw [List.concat_eq_append] at hq
          have hset := set_append_cons q b 0
            (0 :: (List.replicate (s.value.v - (q ++ [b]).length) 0 ++ r))
          rw [hq, if_neg (by simp), List.dropLast_concat]
          rw [← ofBytes_append_zero q
            (0 :: (List.replicate (s.value.v - (q ++ [b]).length) 0 ++ r)), ← hset]
          simp only [List.length_append, List.length_singleton, ValueBuf.store]
          rw [if_pos (by simp only [List.length_append, List.length_cons]; omega),
            List.append_assoc]
          rfl
      · have hset : s.value.bytes.set s.value.v 0 = s.value.before ++ 0 :: r := by
          conv => lhs; rw [hbytes, ← hlen]
          exact set_append_cons _ _ _ _
        rw [if_neg hc, if_neg hc]
        simp only [ValueBuf.store]
        rw [if_pos hv, Option.map_some, hset, ← ofBytes_append_zero s.value.before r]
        rfl
    · rw [if_neg fun h => hv h.2, trimNewlines_outside hv]
      simp only [ValueBuf.store, if_neg hv]
      rfl
  · rw [if_neg hkey, if_neg fun h => hkey h.1]

/-! ## The parsers -/

theorem fieldsOf_ne_nil (text : List UInt8) : fieldsOf text ≠ [] :=
  List.splitOn_ne_nil ampersand text

/-- The buffer when the last field was read. -/
def lastValue (u : Unescape) (garbage : Nat → UInt8) (size : Nat) (fs : List (List UInt8))
    (f : List UInt8) : ValueBuf :=
  (valueLeft u (uninitialized garbage size) fs).segments (fieldSegments f)

theorem length_uninitialized (garbage : Nat → UInt8) (size : Nat) :
    (uninitialized garbage size).bytes.length = size := by
  rw [uninitialized, List.length_map, List.length_range]

/-- Fields that fit leave the cursor inside. -/
theorem valueLeft_inBounds (u : Unescape) {buf : ValueBuf} (hv : buf.v < buf.bytes.length)
    {fs : List (List UInt8)} (hfs : ∀ f ∈ fs, FieldFits buf.bytes.length f) :
    (valueLeft u buf fs).bytes.length = buf.bytes.length ∧
      (valueLeft u buf fs).v < buf.bytes.length := by
  induction fs generalizing buf with
  | nil => exact ⟨rfl, hv⟩
  | cons f fs ih =>
    rw [List.forall_mem_cons] at hfs
    rcases ValueBuf.field_inBounds u hv hfs.1 with ⟨hlen, hend⟩
    have hrest := @ih (buf.field u f) (hlen.symm ▸ hend) fun g hg => hlen ▸ hfs.2 g hg
    rw [hlen] at hrest
    exact hrest

/-- What both ends of the input need, and what they get. -/
theorem run_fieldsOf (u : Unescape) (garbage : Nat → UInt8) {size : Nat} (hsize : 0 < size)
    {text : List UInt8} {fs : List (List UInt8)} {f : List UInt8}
    (hfields : fieldsOf text = fs ++ [f]) {α : Type} (finish : FormState → Option α)
    (hfinish : ∀ s : FormState, ¬(s.key.length < keySz ∧ s.value.v < s.value.bytes.length) →
      finish s = none) :
    (FormState.run u { value := uninitialized garbage size } text).bind finish =
      if ∀ g ∈ fs ++ [f], FieldFits size g then
        finish {
          key := fieldKey f
          value := lastValue u garbage size fs f
          target := !(fieldSegments f).isEmpty
          calls := fieldCalls u (uninitialized garbage size) fs }
      else none := by
  have hlen := length_uninitialized garbage size
  have hv : (uninitialized garbage size).v < (uninitialized garbage size).bytes.length :=
    hlen.symm ▸ hsize
  have htext : text = [ampersand].intercalate (fs ++ [f]) := by
    rw [← hfields, fieldsOf, List.intercalate_splitOn]
  have hrun := FormState.run_fields u { value := uninitialized garbage size } rfl rfl hv
    (fun g hg => not_mem_of_mem_fieldsOf (hfields ▸ hg))
  rw [htext, hrun]
  simp only [hlen, List.nil_append]
  by_cases hfits : ∀ g ∈ fs ++ [f], FieldFits size g
  · have hfits' := hfits
    rw [List.forall_mem_append, List.forall_mem_singleton] at hfits'
    rw [if_pos hfits, if_pos ⟨hfits'.1, le_of_lt hfits'.2.1, hfits'.2.2.1⟩]
    rfl
  · rw [if_neg hfits]
    split
    · rename_i hroom
      refine hfinish _ fun hend => hfits ?_
      have hleft := valueLeft_inBounds u hv (fun g hg => hlen.symm ▸ hroom.1 g hg)
      rw [hlen] at hleft
      have hsegments := ValueBuf.length_segments (fun w hw => hleft.1.symm ▸ hroom.2.2 w hw)
      rw [List.forall_mem_append, List.forall_mem_singleton]
      refine ⟨hroom.1, hend.1, hroom.2.2, fun w hw => ?_⟩
      have hlast := hend.2
      simp only at hlast
      rw [hsegments, hleft.1, ValueBuf.v_segments, hw] at hlast
      exact hlast
    · rfl

theorem lastValue_inBounds (u : Unescape) (garbage : Nat → UInt8) {size : Nat} (hsize : 0 < size)
    {fs : List (List UInt8)} {f : List UInt8} (hfits : ∀ g ∈ fs ++ [f], FieldFits size g) :
    (lastValue u garbage size fs f).bytes.length = size ∧
      (lastValue u garbage size fs f).v < size := by
  have hlen := length_uninitialized garbage size
  have hv : (uninitialized garbage size).v < (uninitialized garbage size).bytes.length :=
    hlen.symm ▸ hsize
  rw [List.forall_mem_append, List.forall_mem_singleton] at hfits
  have hleft := valueLeft_inBounds u hv (fun g hg => hlen.symm ▸ hfits.1 g hg)
  rw [hlen] at hleft
  have hfield := ValueBuf.field_inBounds u (lt_of_lt_of_eq hleft.2 hleft.1.symm)
    (hleft.1.symm ▸ hfits.2)
  have hsegments := ValueBuf.length_segments (fun w hw => hleft.1.symm ▸ hfits.2.2.1 w hw)
  exact ⟨hsegments.trans hleft.1, lt_of_lt_of_eq hfield.2 hleft.1⟩

theorem parseGetQueryString_eq (u : Unescape) (garbage : Nat → UInt8) {args : List UInt8}
    (hargs : args ≠ []) {fs : List (List UInt8)} {f : List UInt8}
    (hfields : fieldsOf (args.takeWhile (· ≠ 0)) = fs ++ [f]) :
    parseGetQueryString u garbage args =
      if ∀ g ∈ fs ++ [f], FieldFits getValueSz g then
        (lastValue u garbage getValueSz fs f).lastGet.map fun text =>
          fieldCalls u (uninitialized garbage getValueSz) fs ++ [(.ofBytes (fieldKey f), text)]
      else none := by
  have hsize : 0 < getValueSz := by decide
  rw [parseGetQueryString, if_neg fun h => hargs (List.eq_nil_of_length_eq_zero h),
    run_fieldsOf u garbage hsize hfields]
  · by_cases hfits : ∀ g ∈ fs ++ [f], FieldFits getValueSz g
    · rcases lastValue_inBounds u garbage hsize hfits with ⟨hlen, hv⟩
      rw [if_pos hfits, if_pos hfits, endGet_eq,
        if_pos ⟨(hfits f (by simp)).1, hlen.symm ▸ hv⟩]
    · rw [if_neg hfits, if_neg hfits]
  · intro s hs
    rw [endGet_eq, if_neg hs]

/-- The two other parsers, with a buffer of `size` bytes. -/
theorem run_endPost (u : Unescape) (garbage : Nat → UInt8) {size : Nat} (hsize : 0 < size)
    {text : List UInt8} {fs : List (List UInt8)} {f : List UInt8}
    (hfields : fieldsOf text = fs ++ [f]) :
    (FormState.run u { value := uninitialized garbage size } text).bind (endPost u) =
      if ∀ g ∈ fs ++ [f], FieldFits size g then
        some (fieldCalls u (uninitialized garbage size) fs ++
          [(.ofBytes (fieldKey f), (lastValue u garbage size fs f).lastPost)])
      else none := by
  rw [run_fieldsOf u garbage hsize hfields]
  · by_cases hfits : ∀ g ∈ fs ++ [f], FieldFits size g
    · rcases lastValue_inBounds u garbage hsize hfits with ⟨hlen, hv⟩
      rw [if_pos hfits, if_pos hfits, endPost_eq,
        if_pos ⟨(hfits f (by simp)).1, hlen.symm ▸ hv⟩]
    · rw [if_neg hfits, if_neg hfits]
  · intro s hs
    rw [endPost_eq, if_neg hs]

/-- The key of each field leaves room for its terminator. -/
def KeysFit (text : List UInt8) : Prop := ∀ f ∈ fieldsOf text, (fieldKey f).length < keySz

/-- The segments of a field, with the `=` before each, are part of the text. -/
theorem length_segment_lt {text f w : List UInt8} (hf : f ∈ fieldsOf text)
    (hw : w ∈ fieldSegments f) : w.length < text.length := by
  have hfield : w.length < f.length := by
    have hlen := congrArg List.length (field_eq f)
    have hle := length_lt_flatMap equalsSign hw
    rw [List.length_append] at hlen
    omega
  have htext : f.length ≤ text.length := by
    have hjoin : [ampersand].intercalate (text.splitOn ampersand) = text :=
      List.intercalate_splitOn ampersand
    rw [← hjoin]
    rw [fieldsOf] at hf
    rcases hsplit : text.splitOn ampersand with _ | ⟨x, xs⟩
    · exact absurd hsplit (List.splitOn_ne_nil ampersand text)
    · rw [hsplit] at hf
      rw [intercalate_cons, List.length_append]
      rcases List.mem_cons.1 hf with rfl | hf
      · omega
      · have hle := length_lt_flatMap ampersand hf
        omega
  omega

/-- In a buffer of the size of the text, only the keys may not fit. -/
theorem forall_fieldFits_iff {text : List UInt8} {size : Nat} (hsize : text.length ≤ size) :
    (∀ f ∈ fieldsOf text, FieldFits size f) ↔ KeysFit text := by
  constructor
  · exact fun h f hf => (h f hf).1
  · intro h f hf
    refine ⟨h f hf, fun w hw => ?_, fun w hw => ?_⟩
    · have := length_segment_lt hf hw
      omega
    · have := length_segment_lt hf (List.mem_of_mem_getLast? hw)
      omega

/-- The loop over the buffers is the loop over their bytes. -/
theorem run_flatten (u : Unescape) (s : FormState) (bufs : List (List UInt8)) :
    bufs.foldlM (fun s buf => FormState.run u s buf) s = s.run u bufs.flatten := by
  induction bufs generalizing s with
  | nil => rfl
  | cons buf bufs ih =>
    rw [List.foldlM_cons, List.flatten_cons, FormState.run_append]
    exact congrArg _ (funext fun s => ih s)

theorem length_flatten_lt_bufsz (buf : List UInt8) (next : List (List UInt8)) :
    (buf :: next).flatten.length < ((buf :: next).map fun buf => buf.length + 1).sum := by
  have hsum : ∀ bufs : List (List UInt8),
      (bufs.map fun buf => buf.length + 1).sum = bufs.flatten.length + bufs.length := by
    intro bufs
    induction bufs with
    | nil => rfl
    | cons buf bufs ih =>
      rw [List.map_cons, List.sum_cons, ih, List.flatten_cons, List.length_append,
        List.length_cons]
      omega
  rw [hsum, List.length_cons]
  omega

theorem parsePostQueryString_eq (u : Unescape) (garbage : Nat → UInt8) {buf : List UInt8}
    {next : List (List UInt8)} {fs : List (List UInt8)} {f : List UInt8}
    (hfields : fieldsOf (buf :: next).flatten = fs ++ [f]) :
    parsePostQueryString u garbage buf next =
      if ∀ g ∈ fs ++ [f], FieldFits ((buf :: next).map fun buf => buf.length + 1).sum g then
        some (fieldCalls u
            (uninitialized garbage ((buf :: next).map fun buf => buf.length + 1).sum) fs ++
          [(.ofBytes (fieldKey f), (lastValue u garbage
            ((buf :: next).map fun buf => buf.length + 1).sum fs f).lastPost)])
      else none := by
  have hsize := Nat.zero_lt_of_lt (length_flatten_lt_bufsz buf next)
  rw [parsePostQueryString]
  simp only [run_flatten]
  exact run_endPost u garbage hsize hfields

theorem parsePostQueryFile_eq (u : Unescape) (garbage : Nat → UInt8) {buf : List UInt8}
    (hbuf : buf ≠ []) {fs : List (List UInt8)} {f : List UInt8}
    (hfields : fieldsOf buf = fs ++ [f]) :
    parsePostQueryFile u garbage buf =
      if ∀ g ∈ fs ++ [f], FieldFits buf.length g then
        some (fieldCalls u (uninitialized garbage buf.length) fs ++
          [(.ofBytes (fieldKey f), (lastValue u garbage buf.length fs f).lastPost)])
      else none :=
  run_endPost u garbage (List.length_pos_of_ne_nil hbuf) hfields

/-- An empty file leaves no room for the terminator. -/
theorem parsePostQueryFile_nil (u : Unescape) (garbage : Nat → UInt8) :
    parsePostQueryFile u garbage [] = none :=
  rfl

end DbRelay
