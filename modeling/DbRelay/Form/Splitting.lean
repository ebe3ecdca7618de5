import DbRelay.Form.Fields

/-!
# What the parsers make of a form

`SplitsExactly` is the reading that the parsers are for: one call of `write_value` for
each field, with the text before its first `=` and the text after it.

* `parseForm_isSome_iff`: the inputs on which every write is inside its array.
* `splitsExactly_iff`: the inputs that are split exactly.  The value buffer is shared, so a
  field without `=` gets the value before it, and the value of a GET may lose its last byte
  to what an earlier value left behind.
-/

namespace DbRelay

/-! ## Writes inside the arrays -/

/-- The bytes of the input. -/
def FormInput.text : FormInput → List UInt8
  | .get args => args
  | .postString buf next => (buf :: next).flatten
  | .postFile buf => buf

/-- The value buffer when the last field of a text was read. -/
def lastValueOf (u : Unescape) (garbage : Nat → UInt8) (size : Nat) (text : List UInt8) :
    ValueBuf :=
  lastValue u garbage size (fieldsOf text).dropLast
    ((fieldsOf text).getLast (fieldsOf_ne_nil text))

/-- The last value and the byte after it are newlines. -/
def ValueBuf.OnlyNewlines (buf : ValueBuf) : Prop :=
  isNewline buf.current = true ∧ ∀ b ∈ buf.before, isNewline b = true

/-- The keys fit, and what is needed of the values. -/
def FormInput.Fits (u : Unescape) (garbage : Nat → UInt8) : FormInput → Prop
  | .get args => args = [] ∨
      (∀ f ∈ fieldsOf (args.takeWhile (· ≠ 0)), FieldFits getValueSz f) ∧
        ¬(lastValueOf u garbage getValueSz (args.takeWhile (· ≠ 0))).OnlyNewlines
  | .postString buf next => KeysFit (buf :: next).flatten
  | .postFile buf => buf ≠ [] ∧ KeysFit buf

theorem fieldsOf_eq (text : List UInt8) :
    fieldsOf text = (fieldsOf text).dropLast ++
      [(fieldsOf text).getLast (fieldsOf_ne_nil text)] :=
  (List.dropLast_append_getLast (fieldsOf_ne_nil text)).symm

theorem ValueBuf.lastGet_eq_none_iff (buf : ValueBuf) :
    buf.lastGet = none ↔ buf.OnlyNewlines := by
  have hnil : withoutNewlines buf.before = [] ↔ ∀ b ∈ buf.before, isNewline b = true :=
    List.rdropWhile_eq_nil_iff
  rw [lastGet, OnlyNewlines, ← hnil]
  split
  · rename_i hc
    split
    · rename_i h
      exact iff_of_true rfl ⟨hc, h⟩
    · rename_i h
      exact iff_of_false (by simp) fun h' => h h'.2
  · rename_i hc
    exact iff_of_false (by simp) fun h' => hc h'.1

/-- Every write to `key` and `value` is inside the array exactly when the keys are short
enough, and for a GET also the values, whose last one must not be cut off up to the byte
before the buffer. -/
theorem parseForm_isSome_iff (u : Unescape) (garbage : Nat → UInt8) (input : FormInput) :
    (parseForm u garbage input).isSome = true ↔ input.Fits u garbage := by
  cases input with
  | get args =>
    rw [parseForm, FormInput.Fits]
    by_cases hargs : args = []
    · rw [hargs]
      exact iff_of_true rfl (.inl rfl)
    · rw [parseGetQueryString_eq u garbage hargs (fieldsOf_eq _), ← fieldsOf_eq,
        ← ValueBuf.lastGet_eq_none_iff, or_iff_right hargs, lastValueOf]
      split
      · rename_i hfits
        rw [and_iff_right hfits, Option.isSome_map, Option.isSome_iff_ne_none]
      · rename_i hfits
        exact iff_of_false (by simp) fun h => hfits h.1
  | postString buf next =>
    have hsize := le_of_lt (length_flatten_lt_bufsz buf next)
    rw [parseForm, FormInput.Fits, parsePostQueryString_eq u garbage (fieldsOf_eq _), ← fieldsOf_eq,
      ← forall_fieldFits_iff hsize]
    split
    · rename_i hfits
      exact iff_of_true rfl hfits
    · rename_i hfits
      exact iff_of_false (by simp) hfits
  | postFile buf =>
    rw [parseForm, FormInput.Fits]
    by_cases hbuf : buf = []
    · rw [hbuf, parsePostQueryFile_nil]
      exact iff_of_false (by simp) fun h => h.1 rfl
    · rw [parsePostQueryFile_eq u garbage hbuf (fieldsOf_eq _), ← fieldsOf_eq,
        and_iff_right hbuf, ← forall_fieldFits_iff (le_refl buf.length)]
      split
      · rename_i hfits
        exact iff_of_true rfl hfits
      · rename_i hfits
        exact iff_of_false (by simp) hfits

/-- A decoder for texts without a percent sign. -/
def decodePlain : Unescape where
  decode := id
  length_le _ := le_refl _

/-- A key of 100 bytes leaves no room for its terminator. -/
theorem parseForm_longKey :
    parseForm decodePlain (fun _ => 0) (.postString (List.replicate 100 107) []) = none := by
  decide +kernel

/-! ## Key and value of a field -/

/-- The text before the first `=`, and all after it. -/
def splitField (f : List UInt8) : List UInt8 × List UInt8 :=
  (f.takeWhile (· ≠ equalsSign), (f.dropWhile (· ≠ equalsSign)).tail)

theorem not_mem_fieldKey (f : List UInt8) : equalsSign ∉ fieldKey f := by
  apply not_mem_of_mem_splitOn
  rw [splitOn_field]
  exact List.mem_cons_self

theorem not_mem_of_mem_fieldSegments {f w : List UInt8} (h : w ∈ fieldSegments f) :
    equalsSign ∉ w :=
  not_mem_of_mem_splitOn (List.mem_of_mem_tail h)

/-- The value is all segments with the `=` signs between them. -/
theorem splitField_eq (f : List UInt8) :
    splitField f = (fieldKey f, [equalsSign].intercalate (fieldSegments f)) := by
  have hkey : ∀ b ∈ fieldKey f, decide (b ≠ equalsSign) = true := by
    intro b hb
    rw [decide_eq_true_iff]
    rintro rfl
    exact not_mem_fieldKey f hb
  rw [splitField]
  conv => lhs; rw [field_eq f]
  rw [List.takeWhile_append_of_pos hkey, List.dropWhile_append_of_pos hkey]
  cases fieldSegments f with
  | nil => simp
  | cons w ws =>
    rw [List.flatMap_cons, List.cons_append, List.takeWhile_cons_of_neg (by decide),
      List.dropWhile_cons_of_neg (by decide), List.append_nil, List.tail_cons, intercalate_cons]

/-- With two segments there is an `=` in the value. -/
theorem mem_value_of_two_segments {f : List UInt8} (h : ¬(fieldSegments f).length ≤ 1) :
    equalsSign ∈ (splitField f).2 := by
  rw [splitField_eq]
  rcases hws : fieldSegments f with _ | ⟨w, _ | ⟨w', ws⟩⟩
  · rw [hws] at h
    exact absurd (Nat.zero_le 1) h
  · rw [hws] at h
    exact absurd (le_refl 1) h
  · rw [intercalate_cons, List.flatMap_cons, List.mem_append]
    exact .inr List.mem_cons_self

theorem zero_not_mem_field_iff {f : List UInt8} :
    0 ∉ f ↔ 0 ∉ (splitField f).1 ∧ 0 ∉ (splitField f).2 := by
  have hmem : ∀ ws : List (List UInt8), 0 ∈ ws.flatMap (equalsSign :: ·) ↔
      0 ∈ [equalsSign].intercalate ws := by
    intro ws
    cases ws with
    | nil => simp
    | cons w ws =>
      rw [intercalate_cons, List.flatMap_cons, List.cons_append, List.mem_cons]
      exact or_iff_right (by decide)
  rw [splitField_eq]
  conv => lhs; rw [field_eq f]
  rw [List.mem_append, not_or, hmem]

/-! ## What the calls get -/

/-- What a field without `=` would pass. -/
def ValueBuf.passed (buf : ValueBuf) : List UInt8 := buf.closed.text.bytes

/-- The string that is left of a value. -/
def decoded (u : Unescape) (w : List UInt8) : List UInt8 :=
  (CString.ofBytes (u.decode (w.map plusToSpace))).bytes

theorem ValueBuf.closed_bytes {buf : ValueBuf} (hv : buf.v < buf.bytes.length) :
    ∃ r, buf.closed.bytes = buf.before ++ 0 :: r ∧ buf.before.length = buf.v := by
  rcases buf.bytes_eq hv with ⟨r, hbytes, hlen⟩
  refine ⟨r, ?_, hlen⟩
  rw [closed]
  conv => lhs; rw [hbytes, ← hlen]
  exact set_append_cons _ _ _ _

/-- A field passes what is before the cursor. -/
theorem ValueBuf.passed_eq {buf : ValueBuf} (hv : buf.v < buf.bytes.length) :
    buf.passed = (CString.ofBytes buf.before).bytes := by
  rcases buf.closed_bytes hv with ⟨r, hbytes, -⟩
  rw [passed, text, hbytes, ofBytes_append_zero]

/-- After a call of `write_value`, a field without `=` passes the decoded value. -/
theorem ValueBuf.passed_unescaped (u : Unescape) {buf : ValueBuf}
    (hv : buf.v < buf.bytes.length) :
    (buf.closed.unescaped u).passed = decoded u buf.passed := by
  rcases buf.closed_bytes hv with ⟨r, hbytes, hlen⟩
  have htext : (CString.ofBytes buf.closed.bytes).bytes = buf.passed := rfl
  have hpassed : buf.passed.length ≤ buf.v := by
    rw [passed_eq hv, ← hlen]
    exact (List.takeWhile_prefix _).length_le
  have hdecode := u.length_le (buf.passed.map plusToSpace)
  rw [List.length_map] at hdecode
  rw [passed, text, closed, unescaped, unescapeBytes, htext, decoded]
  show (CString.ofBytes ((_ ++ 0 :: _).set buf.v 0)).bytes = _
  refine congrArg CString.bytes ?_
  rcases Nat.lt_or_ge (u.decode (buf.passed.map plusToSpace)).length buf.v with hlt | hge
  · rw [List.set_append_right _ _ (by omega)]
    obtain ⟨n, hn⟩ : ∃ n, buf.v - (u.decode (buf.passed.map plusToSpace)).length = n + 1 :=
      ⟨_, (Nat.succ_pred_eq_of_pos (by omega)).symm⟩
    rw [hn, List.set_cons_succ, ofBytes_append_zero]
  · have hv' : buf.v = (u.decode (buf.passed.map plusToSpace)).length := by omega
    rw [hv', set_append_cons, ofBytes_append_zero]

/-- A field with `=` passes its last segment. -/
theorem ValueBuf.passed_segments {buf : ValueBuf} {ws : List (List UInt8)} {w : List UInt8}
    (hw : w.length < buf.bytes.length) (hws : ∀ x ∈ ws, x.length ≤ buf.bytes.length) :
    (buf.segments (ws ++ [w])).before = w ∧
      (buf.segments (ws ++ [w])).passed = (CString.ofBytes w).bytes := by
  have hlen := length_segments hws
  have hbefore : (buf.segments (ws ++ [w])).before = w := by
    rw [segments, List.foldl_append, before]
    exact List.take_left
  have hv : (buf.segments (ws ++ [w])).v < (buf.segments (ws ++ [w])).bytes.length := by
    have hall : ∀ x ∈ ws ++ [w], x.length ≤ buf.bytes.length := by
      rw [List.forall_mem_append, List.forall_mem_singleton]
      exact ⟨hws, le_of_lt hw⟩
    rw [v_segments, List.getLast?_concat, length_segments hall]
    exact hw
  exact ⟨hbefore, by rw [passed_eq hv, hbefore]⟩

/-- The value of a field that `&` ends.  With one segment it is exact, without any the
value before it must be empty, and with more a part of it is missing. -/
theorem passed_eq_value_iff {buf : ValueBuf} {f : List UInt8}
    (hf : FieldFits buf.bytes.length f) :
    (buf.segments (fieldSegments f)).passed = (splitField f).2 ↔
      0 ∉ (splitField f).2 ∧ (fieldSegments f).length ≤ 1 ∧
        (fieldSegments f = [] → buf.passed = []) := by
  rcases List.eq_nil_or_concat (fieldSegments f) with hnil | ⟨ws, w, hws⟩
  · rw [splitField_eq, hnil]
    simp [ValueBuf.segments]
  · rw [List.concat_eq_append] at hws
    have hfits := hf.2
    rw [hws, List.getLast?_concat, List.forall_mem_append] at hfits
    have hpassed := ValueBuf.passed_segments (hfits.2 w rfl) hfits.1.1
    rw [hws, hpassed.2]
    have hne : ws ++ [w] ≠ [] := by simp
    simp only [hne, false_implies, and_true]
    by_cases hone : (ws ++ [w]).length ≤ 1
    · have hempty : ws = [] := by
        rw [List.length_append, List.length_singleton] at hone
        exact List.eq_nil_of_length_eq_zero (by omega)
      have hvalue : (splitField f).2 = w := by
        rw [splitField_eq, hws, hempty, List.nil_append, intercalate_cons, List.flatMap_nil,
          List.append_nil]
      rw [hvalue, and_iff_left hone]
      exact CString.ofBytes_bytes_eq_iff
    · refine iff_of_false ?_ fun h => hone h.2
      intro heq
      have hmem := mem_value_of_two_segments (hws ▸ hone)
      rw [← heq] at hmem
      have hw : w ∈ fieldSegments f := by
        rw [hws]
        simp
      exact not_mem_of_mem_fieldSegments hw (CString.mem_of_mem_ofBytes hmem)

/-- Where a field has no `=`, the value before it, if there is one, decoded to nothing.
`left` is what the last value decoded to. -/
def EmptyBeforeBare (u : Unescape) (left : List UInt8) : List (List UInt8) → Prop
  | [] => True
  | f :: fs =>
    match (fieldSegments f).getLast? with
    | none => left = [] ∧ EmptyBeforeBare u left fs
    | some w => EmptyBeforeBare u (decoded u w) fs

/-- A field that can be split: no zero byte, and at most one `=`. -/
def SimpleField (f : List UInt8) : Prop := 0 ∉ f ∧ (fieldSegments f).length ≤ 1

theorem decoded_nil (u : Unescape) : decoded u [] = [] := by
  have hnil : u.decode ([].map plusToSpace) = [] :=
    List.eq_nil_of_length_eq_zero (Nat.le_zero.1 (u.length_le []))
  rw [decoded, hnil]
  rfl

/-- The two strings of a call. -/
def callBytes (c : CString × CString) : List UInt8 × List UInt8 := (c.1.bytes, c.2.bytes)

/-- The key and the value of a field are exact. -/
theorem callBytes_eq_iff {buf : ValueBuf} {f : List UInt8} (hf : FieldFits buf.bytes.length f) :
    callBytes (.ofBytes (fieldKey f), (buf.segments (fieldSegments f)).closed.text) =
        splitField f ↔
      SimpleField f ∧ (fieldSegments f = [] → buf.passed = []) := by
  have hvalue := passed_eq_value_iff hf
  have hkey : (CString.ofBytes (fieldKey f)).bytes = (splitField f).1 ↔ 0 ∉ (splitField f).1 := by
    rw [splitField_eq]
    exact CString.ofBytes_bytes_eq_iff
  rw [SimpleField, zero_not_mem_field_iff, Prod.ext_iff]
  show _ ∧ (buf.segments (fieldSegments f)).passed = _ ↔ _
  rw [hvalue]
  show (CString.ofBytes (fieldKey f)).bytes = _ ∧ _ ↔ _
  rw [hkey]
  simp only [and_assoc]

/-- What a simple field leaves to be passed. -/
theorem passed_field (u : Unescape) {buf : ValueBuf} (hv : buf.v < buf.bytes.length)
    {f : List UInt8} (hf : FieldFits buf.bytes.length f) (hsimple : SimpleField f) :
    (buf.field u f).passed =
      match (fieldSegments f).getLast? with
      | none => decoded u buf.passed
      | some w => decoded u w := by
  have hbounds := ValueBuf.field_inBounds u hv hf
  have hlen := ValueBuf.length_segments hf.2.1
  rw [ValueBuf.field, ValueBuf.passed_unescaped u (hlen.symm ▸ hbounds.2)]
  rcases hws : fieldSegments f with _ | ⟨w, ws⟩
  · rfl
  · have hnil : ws = [] := by
      have hone := hsimple.2
      rw [hws, List.length_cons] at hone
      exact List.eq_nil_of_length_eq_zero (by omega)
    have hfits := hf.2
    rw [hws, hnil] at hfits
    have hpassed := ValueBuf.passed_segments (hfits.2 w rfl)
      fun x (hx : x ∈ ([] : List (List UInt8))) => absurd hx List.not_mem_nil
    have hw : 0 ∉ w := by
      have h := (zero_not_mem_field_iff.1 hsimple.1).2
      rw [splitField_eq, hws, hnil, intercalate_cons, List.flatMap_nil, List.append_nil] at h
      exact h
    rw [hnil, List.getLast?_singleton]
    rw [List.nil_append] at hpassed
    rw [hpassed.2, CString.ofBytes_bytes_eq_iff.2 hw]

/-- All fields before the last one. -/
theorem fieldCalls_eq_iff (u : Unescape) {buf : ValueBuf} (hv : buf.v < buf.bytes.length)
    {fs : List (List UInt8)} (hfs : ∀ f ∈ fs, FieldFits buf.bytes.length f) :
    (fieldCalls u buf fs).map callBytes = fs.map splitField ↔
      (∀ f ∈ fs, SimpleField f) ∧ EmptyBeforeBare u buf.passed fs := by
  induction fs generalizing buf with
  | nil => simp [fieldCalls, EmptyBeforeBare]
  | cons f fs ih =>
    rw [List.forall_mem_cons] at hfs
    rcases ValueBuf.field_inBounds u hv hfs.1 with ⟨hlen, hend⟩
    have hrest := @ih (buf.field u f) (lt_of_lt_of_eq hend hlen.symm)
      fun g hg => hlen.symm ▸ hfs.2 g hg
    rw [fieldCalls, List.map_cons, List.map_cons, List.cons.injEq, callBytes_eq_iff hfs.1, hrest,
      List.forall_mem_cons, EmptyBeforeBare]
    by_cases hsimple : SimpleField f
    · rw [passed_field u hv hfs.1 hsimple]
      rcases hws : fieldSegments f with _ | ⟨w, ws⟩
      · simp only [List.getLast?_nil, true_implies, hsimple, true_and]
        constructor
        · intro hgiven
          obtain ⟨hempty, hfs, hbare⟩ := hgiven
          rw [hempty, decoded_nil] at hbare
          exact ⟨hfs, hempty, hempty ▸ hbare⟩
        · intro hgiven
          obtain ⟨hfs, hempty, hbare⟩ := hgiven
          rw [hempty] at hbare
          rw [hempty, decoded_nil]
          exact ⟨rfl, hfs, hbare⟩
      · rw [List.getLast?_cons]
        simp only [hsimple, true_and, reduceCtorEq, false_implies]
    · exact iff_of_false (fun h => hsimple h.1.1) fun h => hsimple h.1.1

/-! ## The last field -/

/-- `actual` is `own` without some of the newlines at its end. -/
def LastAgrees (actual own : List UInt8) : Prop :=
  ∃ r, (∀ b ∈ r, isNewline b = true) ∧ own = actual ++ r

theorem isNewline_ne {b c : UInt8} (h : isNewline b = true) (hc : isNewline c = false) : b ≠ c := by
  rintro rfl
  rw [h] at hc
  cases hc

theorem withoutNewlines_append (s : List UInt8) :
    ∃ r, (∀ b ∈ r, isNewline b = true) ∧ s = withoutNewlines s ++ r := by
  refine ⟨s.rtakeWhile isNewline, fun b hb => List.mem_rtakeWhile_imp hb, ?_⟩
  exact List.rdropWhile_append_rtakeWhile.symm

theorem withoutNewlines_append_newlines (s : List UInt8) {r : List UInt8}
    (hr : ∀ b ∈ r, isNewline b = true) : withoutNewlines (s ++ r) = withoutNewlines s := by
  rw [withoutNewlines, withoutNewlines, List.rdropWhile, List.rdropWhile, List.reverse_append,
    List.dropWhile_append_of_pos fun b hb => hr b (List.mem_reverse.1 hb)]

/-- What agrees with the value and is part of a segment shows that there is one `=`. -/
theorem length_le_one_of_lastAgrees {t w f : List UInt8} (hw : w ∈ fieldSegments f)
    (ht : ∀ b ∈ t, b ∈ w) (h : LastAgrees t (splitField f).2) : (fieldSegments f).length ≤ 1 := by
  by_contra htwo
  rcases h with ⟨r, hr, heq⟩
  have hmem := mem_value_of_two_segments htwo
  rw [heq, List.mem_append] at hmem
  rcases hmem with hmem | hmem
  · exact not_mem_of_mem_fieldSegments hw (ht _ hmem)
  · exact isNewline_ne (hr _ hmem) rfl rfl

/-- The value of a field with one segment. -/
theorem value_of_segments {f w : List UInt8} {ws : List (List UInt8)}
    (hws : fieldSegments f = ws ++ [w]) (hone : (fieldSegments f).length ≤ 1) :
    (splitField f).2 = w := by
  have hempty : ws = [] := by
    rw [hws, List.length_append, List.length_singleton] at hone
    exact List.eq_nil_of_length_eq_zero (by omega)
  rw [splitField_eq, hws, hempty, List.nil_append, intercalate_cons, List.flatMap_nil,
    List.append_nil]

/-- The end of the last value may be cut off, if it is newlines. -/
theorem lastAgrees_iff {w w' : List UInt8} {f : List UInt8} {ws : List (List UInt8)}
    (hws : fieldSegments f = ws ++ [w]) (hw : LastAgrees w' w) :
    LastAgrees (CString.ofBytes w').bytes (splitField f).2 ↔
      0 ∉ (splitField f).2 ∧ (fieldSegments f).length ≤ 1 := by
  rcases hw with ⟨r', hr', rfl⟩
  by_cases hone : (fieldSegments f).length ≤ 1
  · rw [value_of_segments hws hone, and_iff_left hone]
    constructor
    · rintro ⟨r, hr, heq⟩ hmem
      rw [heq, List.mem_append] at hmem
      rcases hmem with hmem | hmem
      · exact (CString.ofBytes w').noNul hmem
      · exact isNewline_ne (hr 0 hmem) rfl rfl
    · intro h
      have hw' : 0 ∉ w' := fun h' => h (List.mem_append_left _ h')
      rw [CString.ofBytes_bytes_eq_iff.2 hw']
      exact ⟨r', hr', rfl⟩
  · have hsegment : w' ++ r' ∈ fieldSegments f := by
      rw [hws]
      simp
    refine iff_of_false (fun h => hone ?_) fun h => hone h.2
    exact length_le_one_of_lastAgrees hsegment
      (fun b hb => List.mem_append_left _ (CString.mem_of_mem_ofBytes hb)) h

theorem lastAgrees_nil_iff {actual : List UInt8} : LastAgrees actual [] ↔ actual = [] := by
  constructor
  · intro h
    obtain ⟨r, -, heq⟩ := h
    exact (List.append_eq_nil_iff.1 heq.symm).1
  · rintro rfl
    exact ⟨[], by simp, rfl⟩

/-- What is known of the buffer when the last field starts. -/
def ValueBuf.Ready (buf : ValueBuf) : Prop :=
  buf.v < buf.bytes.length ∧ (buf.before = [] ∨ buf.current = 0)

/-- The last value of a POST. -/
theorem lastPost_agrees_iff {buf : ValueBuf} (hready : buf.Ready) {f : List UInt8}
    (hf : FieldFits buf.bytes.length f) :
    LastAgrees (buf.segments (fieldSegments f)).lastPost.bytes (splitField f).2 ↔
      0 ∉ (splitField f).2 ∧ (fieldSegments f).length ≤ 1 ∧
        (fieldSegments f = [] → buf.passed = []) := by
  rcases List.eq_nil_or_concat (fieldSegments f) with hnil | ⟨ws, w, hws⟩
  · have hpassed : buf.lastPost.bytes = buf.passed := by
      rw [ValueBuf.lastPost, ValueBuf.passed_eq hready.1]
      rcases hready.2 with hbefore | hcurrent
      · rw [hbefore]
        split
        · rfl
        · rfl
      · rw [hcurrent, if_neg (by decide)]
    rw [splitField_eq, hnil, List.intercalate_nil, lastAgrees_nil_iff]
    simp [ValueBuf.segments, hpassed]
  · rw [List.concat_eq_append] at hws
    have hfits := hf.2
    rw [hws, List.getLast?_concat, List.forall_mem_append] at hfits
    have hbefore := (ValueBuf.passed_segments (hfits.2 w rfl) hfits.1.1).1
    have hne : fieldSegments f ≠ [] := by
      rw [hws]
      simp
    have hrest : (fieldSegments f = [] → buf.passed = []) ↔ True :=
      iff_true_intro fun h => absurd h hne
    rw [hrest, and_true, ValueBuf.lastPost]
    rw [← hws] at hbefore
    rw [hbefore]
    split
    · exact lastAgrees_iff hws (withoutNewlines_append w)
    · exact lastAgrees_iff hws ⟨[], by simp, (List.append_nil w).symm⟩

/-- A byte is missing that is no newline. -/
theorem not_lastAgrees_dropLast {buf : ValueBuf} (hready : buf.Ready) {f : List UInt8}
    (hf : FieldFits buf.bytes.length f)
    (hcurrent : isNewline (buf.segments (fieldSegments f)).current = true)
    (hne : withoutNewlines (buf.segments (fieldSegments f)).before ≠ []) :
    ¬LastAgrees (CString.ofBytes
      (withoutNewlines (buf.segments (fieldSegments f)).before).dropLast).bytes
        (splitField f).2 := by
  intro h
  rcases List.eq_nil_or_concat (fieldSegments f) with hnil | ⟨ws, w, hws⟩
  · rw [hnil] at hcurrent hne
    rcases hready.2 with hbefore | hzero
    · exact hne (show withoutNewlines buf.before = [] by rw [hbefore]; rfl)
    · exact isNewline_ne hcurrent (show isNewline 0 = false from rfl) hzero
  · rw [List.concat_eq_append] at hws
    have hfits := hf.2
    rw [hws, List.getLast?_concat, List.forall_mem_append] at hfits
    have hbefore := (ValueBuf.passed_segments (hfits.2 w rfl) hfits.1.1).1
    rw [← hws] at hbefore
    rw [hbefore] at h hne
    have hsegment : w ∈ fieldSegments f := by
      rw [hws]
      simp
    have hone := length_le_one_of_lastAgrees hsegment (fun b hb =>
      (List.rdropWhile_prefix isNewline w).sublist.mem
        ((List.dropLast_sublist _).mem (CString.mem_of_mem_ofBytes hb))) h
    rw [value_of_segments hws hone] at h
    rcases h with ⟨r, hr, heq⟩
    have hlen := congrArg (fun s => (withoutNewlines s).length) heq
    simp only [withoutNewlines_append_newlines _ hr] at hlen
    have hle : (withoutNewlines (CString.ofBytes (withoutNewlines w).dropLast).bytes).length ≤
        (withoutNewlines w).length - 1 := by
      refine le_trans (List.rdropWhile_prefix isNewline _).length_le ?_
      refine le_trans (List.takeWhile_prefix _).length_le ?_
      rw [List.length_dropLast]
    have hpos := List.length_pos_of_ne_nil hne
    omega

/-- The last value of a GET: also, the byte after it is no newline. -/
theorem lastGet_agrees_iff {buf : ValueBuf} (hready : buf.Ready) {f : List UInt8}
    (hf : FieldFits buf.bytes.length f) :
    (∃ t, (buf.segments (fieldSegments f)).lastGet = some t ∧
        LastAgrees t.bytes (splitField f).2) ↔
      (0 ∉ (splitField f).2 ∧ (fieldSegments f).length ≤ 1 ∧
        (fieldSegments f = [] → buf.passed = [])) ∧
        isNewline (buf.segments (fieldSegments f)).current = false := by
  rw [← lastPost_agrees_iff hready hf, ValueBuf.lastGet, ValueBuf.lastPost]
  by_cases hc : isNewline (buf.segments (fieldSegments f)).current = true
  · refine iff_of_false ?_ fun h => ?_
    · rw [if_pos hc]
      intro hgiven
      obtain ⟨t, ht, hagrees⟩ := hgiven
      split at ht
      · cases ht
      · rename_i hne
        cases ht
        exact not_lastAgrees_dropLast hready hf hc hne hagrees
    · rw [hc] at h
      cases h.2
  · have hc' := hc
    rw [Bool.not_eq_true] at hc'
    rw [if_neg hc, if_neg hc, and_iff_left hc']
    simp

/-! ## The buffer before the last field -/

/-- After a call of `write_value` there is still a zero at the cursor. -/
theorem ValueBuf.current_unescaped (u : Unescape) {buf : ValueBuf}
    (hv : buf.v < buf.bytes.length) : (buf.closed.unescaped u).current = 0 := by
  rcases buf.closed_bytes hv with ⟨r, hbytes, hlen⟩
  have hpassed : (CString.ofBytes buf.closed.bytes).bytes.length ≤ buf.v := by
    show buf.passed.length ≤ buf.v
    rw [passed_eq hv, ← hlen]
    exact (List.takeWhile_prefix _).length_le
  have hdecode := u.length_le ((CString.ofBytes buf.closed.bytes).bytes.map plusToSpace)
  have hget : buf.closed.bytes[buf.v]? = some 0 := by
    rw [hbytes, List.getElem?_append_right (le_of_eq hlen), hlen, Nat.sub_self]
    rfl
  rw [List.length_map] at hdecode
  show (unescapeBytes u buf.closed.bytes).getD buf.v 0 = 0
  rw [unescapeBytes, List.getD_eq_getElem?_getD, List.getElem?_append_right (by omega)]
  rcases Nat.eq_zero_or_pos (buf.v -
    (u.decode ((CString.ofBytes buf.closed.bytes).bytes.map plusToSpace)).length) with h | h
  · rw [h]
    rfl
  · obtain ⟨n, hn⟩ := Nat.exists_eq_succ_of_ne_zero (Nat.pos_iff_ne_zero.1 h)
    rw [hn, List.getElem?_cons_succ, List.getElem?_drop, List.length_map,
      List.getElem?_append_right (by rw [List.length_map]; omega), List.length_map,
      List.getElem?_drop]
    have hindex : (CString.ofBytes buf.closed.bytes).bytes.length +
        ((u.decode ((CString.ofBytes buf.closed.bytes).bytes.map plusToSpace)).length + 1 + n -
          (CString.ofBytes buf.closed.bytes).bytes.length) = buf.v := by
      omega
    rw [hindex, hget]
    rfl

/-- The loop leaves the buffer ready for the last field. -/
theorem ready_valueLeft (u : Unescape) {buf : ValueBuf} (hready : buf.Ready)
    {fs : List (List UInt8)} (hfs : ∀ f ∈ fs, FieldFits buf.bytes.length f) :
    (valueLeft u buf fs).Ready := by
  induction fs generalizing buf with
  | nil => exact hready
  | cons f fs ih =>
    rw [List.forall_mem_cons] at hfs
    rcases ValueBuf.field_inBounds u hready.1 hfs.1 with ⟨hlen, hend⟩
    have hcurrent : (buf.field u f).current = 0 :=
      ValueBuf.current_unescaped u (lt_of_lt_of_eq hend (ValueBuf.length_segments hfs.1.2.1).symm)
    refine @ih (buf.field u f) ⟨lt_of_lt_of_eq hend hlen.symm, .inr hcurrent⟩ fun g hg => ?_
    exact hlen.symm ▸ hfs.2 g hg

/-- A field without `=` after simple fields. -/
theorem emptyBeforeBare_append (u : Unescape) {buf : ValueBuf} (hv : buf.v < buf.bytes.length)
    {fs : List (List UInt8)} (hfs : ∀ f ∈ fs, FieldFits buf.bytes.length f)
    (hsimple : ∀ f ∈ fs, SimpleField f) (f : List UInt8) :
    EmptyBeforeBare u buf.passed (fs ++ [f]) ↔
      EmptyBeforeBare u buf.passed fs ∧
        (fieldSegments f = [] → (valueLeft u buf fs).passed = []) := by
  induction fs generalizing buf with
  | nil =>
    rw [List.nil_append, EmptyBeforeBare, EmptyBeforeBare, true_and]
    rcases hws : fieldSegments f with _ | ⟨w, ws⟩
    · simp [EmptyBeforeBare, valueLeft]
    · rw [List.getLast?_cons]
      simp [EmptyBeforeBare]
  | cons g fs ih =>
    rw [List.forall_mem_cons] at hfs hsimple
    rcases ValueBuf.field_inBounds u hv hfs.1 with ⟨hlen, hend⟩
    have hrest := @ih (buf.field u g) (lt_of_lt_of_eq hend hlen.symm)
      (fun x hx => hlen.symm ▸ hfs.2 x hx) hsimple.2
    rw [passed_field u hv hfs.1 hsimple.1] at hrest
    rw [List.cons_append, EmptyBeforeBare, EmptyBeforeBare]
    rcases hws : (fieldSegments g).getLast? with _ | w
    · rw [hws] at hrest
      simp only at hrest ⊢
      rw [and_assoc]
      refine and_congr_right fun hempty => ?_
      rw [hempty, decoded_nil] at hrest
      rw [hempty]
      exact hrest
    · rw [hws] at hrest
      exact hrest

theorem passed_uninitialized (garbage : Nat → UInt8) {size : Nat} (hsize : 0 < size) :
    (uninitialized garbage size).passed = [] := by
  have hv : (uninitialized garbage size).v < (uninitialized garbage size).bytes.length :=
    (length_uninitialized garbage size).symm ▸ hsize
  rw [ValueBuf.passed_eq hv]
  rfl

/-! ## Exact splitting -/

/-- The last field of a text. -/
def lastField (text : List UInt8) : List UInt8 := (fieldsOf text).getLast (fieldsOf_ne_nil text)

/-- One call for each field, in order, with its key and its value.  Newlines at the end of
the last value may be missing. -/
def SplitsExactly (u : Unescape) (garbage : Nat → UInt8) (input : FormInput) : Prop :=
  ∃ calls call, parseForm u garbage input = some (calls ++ [call]) ∧
    calls.map callBytes = (fieldsOf input.text).dropLast.map splitField ∧
    call.1.bytes = (splitField (lastField input.text)).1 ∧
    LastAgrees call.2.bytes (splitField (lastField input.text)).2

/-- The keys and values fit, and for a GET the byte after the last value is no newline. -/
def FormInput.Ends (u : Unescape) (garbage : Nat → UInt8) : FormInput → Prop
  | .get args => args ≠ [] ∧ (∀ f ∈ fieldsOf args, FieldFits getValueSz f) ∧
      isNewline (lastValueOf u garbage getValueSz args).current = false
  | .postString buf next => KeysFit (buf :: next).flatten
  | .postFile buf => buf ≠ [] ∧ KeysFit buf

/-- The keys and the values other than the last one, from the form that all parsers
have. -/
theorem calls_eq_iff (u : Unescape) (garbage : Nat → UInt8) {size : Nat} (hsize : 0 < size)
    {fs : List (List UInt8)} {f : List UInt8} (hfits : ∀ g ∈ fs ++ [f], FieldFits size g)
    (hlast : Prop) :
    ((fieldCalls u (uninitialized garbage size) fs).map callBytes = fs.map splitField ∧
        (CString.ofBytes (fieldKey f)).bytes = (splitField f).1 ∧
        (0 ∉ (splitField f).2 ∧ (fieldSegments f).length ≤ 1 ∧
          (fieldSegments f = [] → (valueLeft u (uninitialized garbage size) fs).passed = [])) ∧
        hlast) ↔
      (∀ g ∈ fs ++ [f], SimpleField g) ∧ EmptyBeforeBare u [] (fs ++ [f]) ∧ hlast := by
  have hlen := length_uninitialized garbage size
  have hv : (uninitialized garbage size).v < (uninitialized garbage size).bytes.length :=
    hlen.symm ▸ hsize
  rw [List.forall_mem_append, List.forall_mem_singleton] at hfits
  have hfs : ∀ g ∈ fs, FieldFits (uninitialized garbage size).bytes.length g :=
    fun g hg => hlen.symm ▸ hfits.1 g hg
  have hkey : (CString.ofBytes (fieldKey f)).bytes = (splitField f).1 ↔ 0 ∉ (splitField f).1 := by
    rw [splitField_eq]
    exact CString.ofBytes_bytes_eq_iff
  have hcalls := fieldCalls_eq_iff u hv hfs
  have hpassed := passed_uninitialized garbage hsize
  rw [hpassed] at hcalls
  rw [hcalls, hkey, List.forall_mem_append, List.forall_mem_singleton]
  constructor
  · intro h
    obtain ⟨⟨hsimple, hbare⟩, hzero, ⟨hzero', hone, hempty⟩, hlast⟩ := h
    have happend := emptyBeforeBare_append u hv hfs hsimple f
    rw [hpassed] at happend
    exact ⟨⟨hsimple, zero_not_mem_field_iff.2 ⟨hzero, hzero'⟩, hone⟩,
      happend.2 ⟨hbare, hempty⟩, hlast⟩
  · intro h
    obtain ⟨⟨hsimple, hf⟩, hbare, hlast⟩ := h
    have happend := emptyBeforeBare_append u hv hfs hsimple f
    rw [hpassed] at happend
    have hzero := zero_not_mem_field_iff.1 hf.1
    exact ⟨⟨hsimple, (happend.1 hbare).1⟩, hzero.1,
      ⟨hzero.2, hf.2, (happend.1 hbare).2⟩, hlast⟩

/-- A form whose fields are split exactly has no zero byte. -/
theorem forall_zero_not_mem {u : Unescape} {garbage : Nat → UInt8} {input : FormInput}
    (h : SplitsExactly u garbage input) : ∀ f ∈ fieldsOf input.text, 0 ∉ f := by
  rcases h with ⟨calls, call, -, hcalls, hkey, r, hr, hvalue⟩
  have hcall : ∀ c : CString × CString, 0 ∉ (callBytes c).1 ∧ 0 ∉ (callBytes c).2 :=
    fun c => ⟨c.1.noNul, c.2.noNul⟩
  rw [fieldsOf_eq input.text, List.forall_mem_append, List.forall_mem_singleton]
  constructor
  · intro f hf
    have hmem := List.mem_map_of_mem (f := splitField) hf
    rw [← hcalls] at hmem
    rcases List.mem_map.1 hmem with ⟨c, -, hc⟩
    rw [zero_not_mem_field_iff, ← hc]
    exact hcall c
  · show 0 ∉ lastField input.text
    rw [zero_not_mem_field_iff, ← hkey, hvalue, List.mem_append, not_or]
    exact ⟨call.1.noNul, call.2.noNul, fun hmem => isNewline_ne (hr 0 hmem) rfl rfl⟩

theorem zero_not_mem_iff {text : List UInt8} : 0 ∉ text ↔ ∀ f ∈ fieldsOf text, 0 ∉ f := by
  have hjoin : [ampersand].intercalate (fieldsOf text) = text :=
    List.intercalate_splitOn ampersand
  conv => lhs; rw [← hjoin]
  rcases fieldsOf text with _ | ⟨f, fs⟩
  · simp
  · rw [intercalate_cons, List.mem_append, not_or, List.forall_mem_cons, List.mem_flatMap]
    refine and_congr_right fun _ => ?_
    constructor
    · exact fun h g hg hmem => h ⟨g, hg, List.mem_cons_of_mem _ hmem⟩
    · intro h hgiven
      obtain ⟨g, hg, hmem⟩ := hgiven
      rcases List.mem_cons.1 hmem with h0 | hmem
      · cases h0
      · exact h g hg hmem

theorem takeWhile_eq_self {args : List UInt8} (h : 0 ∉ args) : args.takeWhile (· ≠ 0) = args := by
  rw [List.takeWhile_eq_self_iff]
  intro b hb
  simpa using ne_of_mem_of_not_mem hb h

/-- The buffer of a parser is ready for the last field. -/
theorem ready_lastField (u : Unescape) (garbage : Nat → UInt8) {size : Nat} (hsize : 0 < size)
    {fs : List (List UInt8)} (hfits : ∀ g ∈ fs, FieldFits size g) :
    (valueLeft u (uninitialized garbage size) fs).Ready ∧
      (valueLeft u (uninitialized garbage size) fs).bytes.length = size := by
  have hlen := length_uninitialized garbage size
  have hv : (uninitialized garbage size).v < (uninitialized garbage size).bytes.length :=
    hlen.symm ▸ hsize
  have hfs : ∀ g ∈ fs, FieldFits (uninitialized garbage size).bytes.length g :=
    fun g hg => hlen.symm ▸ hfits g hg
  exact ⟨ready_valueLeft u ⟨hv, .inl rfl⟩ hfs, (valueLeft_inBounds u hv hfs).1.trans hlen⟩

/-- From the equation that each parser has, with its own last value. -/
theorem splitsExactly_of_parseForm {u : Unescape} {garbage : Nat → UInt8} {input : FormInput}
    {size : Nat} (hsize : 0 < size) {last : Option CString} {hlast : Prop}
    (hparse : parseForm u garbage input =
      if ∀ g ∈ (fieldsOf input.text).dropLast ++ [lastField input.text], FieldFits size g then
        last.map fun t =>
          fieldCalls u (uninitialized garbage size) (fieldsOf input.text).dropLast ++
            [(.ofBytes (fieldKey (lastField input.text)), t)]
      else none)
    (hagrees : (∀ g ∈ fieldsOf input.text, FieldFits size g) →
      ((∃ t, last = some t ∧ LastAgrees t.bytes (splitField (lastField input.text)).2) ↔
        (0 ∉ (splitField (lastField input.text)).2 ∧
          (fieldSegments (lastField input.text)).length ≤ 1 ∧
          (fieldSegments (lastField input.text) = [] → (valueLeft u (uninitialized garbage size)
            (fieldsOf input.text).dropLast).passed = [])) ∧ hlast)) :
    SplitsExactly u garbage input ↔
      (∀ f ∈ fieldsOf input.text, SimpleField f) ∧ EmptyBeforeBare u [] (fieldsOf input.text) ∧
        (∀ f ∈ fieldsOf input.text, FieldFits size f) ∧ hlast := by
  have hfields : fieldsOf input.text =
      (fieldsOf input.text).dropLast ++ [lastField input.text] := fieldsOf_eq input.text
  rw [SplitsExactly, hparse]
  by_cases hfits : ∀ g ∈ fieldsOf input.text, FieldFits size g
  · have hfits' := hfits
    rw [hfields] at hfits'
    have hcalls := calls_eq_iff u garbage hsize hfits' hlast
    rw [← hfields] at hcalls
    rw [if_pos hfits', and_iff_right hfits, ← hcalls, ← hagrees hfits]
    constructor
    · intro hgiven
      obtain ⟨calls, call, heq, hmap, hkey, hvalue⟩ := hgiven
      rcases Option.map_eq_some_iff.1 heq with ⟨t, ht, heq⟩
      rcases List.append_inj' heq rfl with ⟨rfl, hcall⟩
      cases hcall
      exact ⟨hmap, hkey, t, ht, hvalue⟩
    · intro hgiven
      obtain ⟨hmap, hkey, t, ht, hvalue⟩ := hgiven
      exact ⟨_, (.ofBytes (fieldKey (lastField input.text)), t), by rw [ht]; rfl, hmap, hkey,
        hvalue⟩
  · rw [if_neg fun h => hfits (by rw [hfields]; exact h)]
    exact iff_of_false (by rintro ⟨calls, call, heq, -⟩; cases heq) fun h => hfits h.2.2.1

/-- The two parsers of a POST. -/
theorem splitsExactly_post {u : Unescape} {garbage : Nat → UInt8} {input : FormInput} {size : Nat}
    (hsize : 0 < size)
    (hparse : parseForm u garbage input =
      if ∀ g ∈ (fieldsOf input.text).dropLast ++ [lastField input.text], FieldFits size g then
        some (fieldCalls u (uninitialized garbage size) (fieldsOf input.text).dropLast ++
          [(.ofBytes (fieldKey (lastField input.text)),
            (lastValue u garbage size (fieldsOf input.text).dropLast
              (lastField input.text)).lastPost)])
      else none) :
    SplitsExactly u garbage input ↔
      (∀ f ∈ fieldsOf input.text, SimpleField f) ∧ EmptyBeforeBare u [] (fieldsOf input.text) ∧
        ∀ f ∈ fieldsOf input.text, FieldFits size f := by
  have hagrees : (∀ g ∈ fieldsOf input.text, FieldFits size g) →
      ((∃ t, some (lastValue u garbage size (fieldsOf input.text).dropLast
          (lastField input.text)).lastPost = some t ∧
          LastAgrees t.bytes (splitField (lastField input.text)).2) ↔
        (0 ∉ (splitField (lastField input.text)).2 ∧
          (fieldSegments (lastField input.text)).length ≤ 1 ∧
          (fieldSegments (lastField input.text) = [] → (valueLeft u (uninitialized garbage size)
            (fieldsOf input.text).dropLast).passed = [])) ∧ True) := by
    intro hfits
    rw [fieldsOf_eq input.text, List.forall_mem_append, List.forall_mem_singleton] at hfits
    rcases ready_lastField u garbage hsize hfits.1 with ⟨hready, hlen⟩
    have hpost := lastPost_agrees_iff hready (hlen.symm ▸ hfits.2)
    rw [and_true]
    refine Iff.trans ?_ hpost
    constructor
    · intro hgiven
      obtain ⟨t, ht, hvalue⟩ := hgiven
      cases ht
      exact hvalue
    · exact fun hvalue => ⟨_, rfl, hvalue⟩
  have h := splitsExactly_of_parseForm hsize hparse hagrees
  rw [and_true] at h
  exact h

/-- A form is split exactly when its keys and values fit, no field has a zero byte or a second
`=`, no field without `=` follows a value that is not empty, and no newline follows the last
value of a GET in the buffer. -/
theorem splitsExactly_iff (u : Unescape) (garbage : Nat → UInt8) (input : FormInput) :
    SplitsExactly u garbage input ↔
      (∀ f ∈ fieldsOf input.text, SimpleField f) ∧ EmptyBeforeBare u [] (fieldsOf input.text) ∧
        input.Ends u garbage := by
  cases input with
  | get args =>
    by_cases hargs : args = []
    · refine iff_of_false ?_ fun h => h.2.2.1 hargs
      intro hgiven
      obtain ⟨calls, call, heq, -⟩ := hgiven
      rw [hargs] at heq
      have hlen := congrArg List.length (Option.some.inj heq)
      rw [List.length_append, List.length_singleton] at hlen
      cases hlen
    by_cases hzero : 0 ∈ args
    · have hmem : ¬∀ f ∈ fieldsOf args, 0 ∉ f := fun h => zero_not_mem_iff.2 h hzero
      exact iff_of_false (fun h => hmem (forall_zero_not_mem h))
        fun h => hmem fun f hf => (h.1 f hf).1
    have hsize : 0 < getValueSz := by decide
    have hparse := parseGetQueryString_eq u garbage hargs (fieldsOf_eq _)
    rw [takeWhile_eq_self hzero] at hparse
    rw [FormInput.Ends, and_iff_right hargs]
    refine splitsExactly_of_parseForm hsize hparse fun hfits => ?_
    have hfields := fieldsOf_eq args
    rw [show (FormInput.get args).text = args from rfl, hfields, List.forall_mem_append,
      List.forall_mem_singleton] at hfits
    rcases ready_lastField u garbage hsize hfits.1 with ⟨hready, hlen⟩
    exact lastGet_agrees_iff hready (hlen.symm ▸ hfits.2)
  | postString buf next =>
    have hlt := length_flatten_lt_bufsz buf next
    rw [FormInput.Ends, ← forall_fieldFits_iff (le_of_lt hlt)]
    exact splitsExactly_post (Nat.zero_lt_of_lt hlt)
      (parsePostQueryString_eq u garbage (fieldsOf_eq (buf :: next).flatten))
  | postFile buf =>
    by_cases hbuf : buf = []
    · refine iff_of_false ?_ fun h => h.2.2.1 hbuf
      intro hgiven
      obtain ⟨calls, call, heq, -⟩ := hgiven
      rw [hbuf] at heq
      cases heq
    rw [FormInput.Ends, and_iff_right hbuf, ← forall_fieldFits_iff (le_refl buf.length)]
    exact splitsExactly_post (List.length_pos_of_ne_nil hbuf)
      (parsePostQueryFile_eq u garbage hbuf (fieldsOf_eq buf))

/-- The second field gets the value of the first one. -/
theorem not_splitsExactly_bareField :
    ¬SplitsExactly decodePlain (fun _ => 0) (.get (ascii "sql=x&status")) := by
  intro h
  obtain ⟨calls, call, hparse, -, -, r, -, hvalue⟩ := h
  have hcall : ((parseForm decodePlain (fun _ => 0) (.get (ascii "sql=x&status"))).bind
      fun calls => calls.getLast?.map fun call => call.2.bytes) = some (ascii "x") := by
    decide +kernel
  rw [hparse, Option.bind_some, List.getLast?_concat, Option.map_some] at hcall
  have hempty : (splitField (lastField (ascii "sql=x&status"))).2 = [] := by
    decide +kernel
  rw [Option.some.inj hcall] at hvalue
  have hnil := hempty.symm.trans hvalue
  cases hnil

end DbRelay
