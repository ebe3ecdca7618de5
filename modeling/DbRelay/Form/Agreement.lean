import DbRelay.Form.Splitting

/-!
# The parsers next to each other

One text can reach all three parsers.  What they pass to `write_value` is then the same up
to the last value, whatever the size of the buffer and its first content: `readFields`
computes it from the text alone.

* `fieldCalls_bytes` and `fieldCalls_congr`: the calls without a buffer.
* `lastStandsAlone_iff`: the texts on which the parsers agree and the last value is its own
  text without the newlines at its end.
-/

namespace DbRelay

/-! ## The calls without a buffer -/

/-- What a field passes.  Without `=` it passes what is left of the value before it. -/
def passedBy (left f : List UInt8) : List UInt8 :=
  match (fieldSegments f).getLast? with
  | none => left
  | some w => (CString.ofBytes w).bytes

/-- The calls for fields that `&` ends. -/
def readFields (u : Unescape) (left : List UInt8) :
    List (List UInt8) → List (List UInt8 × List UInt8)
  | [] => []
  | f :: fs =>
    ((CString.ofBytes (fieldKey f)).bytes, passedBy left f) ::
      readFields u (decoded u (passedBy left f)) fs

/-- What the fields leave for one without `=`. -/
def leftBy (u : Unescape) (left : List UInt8) (fs : List (List UInt8)) : List UInt8 :=
  fs.foldl (fun left f => decoded u (passedBy left f)) left

theorem passed_segments_eq {buf : ValueBuf} {f : List UInt8}
    (hf : FieldFits buf.bytes.length f) :
    (buf.segments (fieldSegments f)).passed = passedBy buf.passed f := by
  rw [passedBy]
  rcases List.eq_nil_or_concat (fieldSegments f) with hnil | ⟨ws, w, hws⟩
  · rw [hnil]
    rfl
  · rw [List.concat_eq_append] at hws
    have hfits := hf.2
    rw [hws, List.getLast?_concat, List.forall_mem_append] at hfits
    rw [hws, List.getLast?_concat]
    exact (ValueBuf.passed_segments (hfits.2 w rfl) hfits.1.1).2

/-- One field, without the buffer. -/
theorem passed_field_eq (u : Unescape) {buf : ValueBuf} (hv : buf.v < buf.bytes.length)
    {f : List UInt8} (hf : FieldFits buf.bytes.length f) :
    (buf.field u f).passed = decoded u (passedBy buf.passed f) := by
  have hbounds := ValueBuf.field_inBounds u hv hf
  have hlen := ValueBuf.length_segments hf.2.1
  rw [ValueBuf.field, ValueBuf.passed_unescaped u (hlen.symm ▸ hbounds.2), passed_segments_eq hf]

/-- The calls depend on the buffer only through what a field without `=` would pass. -/
theorem fieldCalls_bytes (u : Unescape) {buf : ValueBuf} (hv : buf.v < buf.bytes.length)
    {fs : List (List UInt8)} (hfs : ∀ f ∈ fs, FieldFits buf.bytes.length f) :
    (fieldCalls u buf fs).map callBytes = readFields u buf.passed fs := by
  induction fs generalizing buf with
  | nil => rfl
  | cons f fs ih =>
    rw [List.forall_mem_cons] at hfs
    rcases ValueBuf.field_inBounds u hv hfs.1 with ⟨hlen, hend⟩
    have hrest := @ih (buf.field u f) (lt_of_lt_of_eq hend hlen.symm)
      fun g hg => hlen.symm ▸ hfs.2 g hg
    have hpassed := passed_segments_eq hfs.1
    rw [passed_field_eq u hv hfs.1] at hrest
    rw [fieldCalls, List.map_cons, hrest, readFields, ← hpassed]
    rfl

theorem passed_valueLeft (u : Unescape) {buf : ValueBuf} (hv : buf.v < buf.bytes.length)
    {fs : List (List UInt8)} (hfs : ∀ f ∈ fs, FieldFits buf.bytes.length f) :
    (valueLeft u buf fs).passed = leftBy u buf.passed fs := by
  induction fs generalizing buf with
  | nil => rfl
  | cons f fs ih =>
    rw [List.forall_mem_cons] at hfs
    rcases ValueBuf.field_inBounds u hv hfs.1 with ⟨hlen, hend⟩
    have hrest := @ih (buf.field u f) (lt_of_lt_of_eq hend hlen.symm)
      fun g hg => hlen.symm ▸ hfs.2 g hg
    rw [passed_field_eq u hv hfs.1] at hrest
    exact hrest

theorem callBytes_injective : Function.Injective callBytes := by
  rintro ⟨key, value⟩ ⟨key', value'⟩ h
  rw [callBytes, callBytes, Prod.mk.injEq] at h
  exact Prod.ext (CString.ext' h.1) (CString.ext' h.2)

/-- A parser starts with nothing for a field without `=`. -/
theorem readFields_uninitialized (u : Unescape) (garbage : Nat → UInt8) {size : Nat}
    (hsize : 0 < size) {fs : List (List UInt8)} (hfs : ∀ f ∈ fs, FieldFits size f) :
    (fieldCalls u (uninitialized garbage size) fs).map callBytes = readFields u [] fs ∧
      (valueLeft u (uninitialized garbage size) fs).passed = leftBy u [] fs := by
  have hlen := length_uninitialized garbage size
  have hv : (uninitialized garbage size).v < (uninitialized garbage size).bytes.length :=
    hlen.symm ▸ hsize
  have hfits : ∀ f ∈ fs, FieldFits (uninitialized garbage size).bytes.length f :=
    fun f hf => hlen.symm ▸ hfs f hf
  rw [← passed_uninitialized garbage hsize]
  exact ⟨fieldCalls_bytes u hv hfits, passed_valueLeft u hv hfits⟩

/-- Neither the size of the buffer nor what was in it matters for these calls. -/
theorem fieldCalls_congr (u : Unescape) {garbage garbage' : Nat → UInt8} {size size' : Nat}
    (hsize : 0 < size) (hsize' : 0 < size') {fs : List (List UInt8)}
    (hfs : ∀ f ∈ fs, FieldFits size f) (hfs' : ∀ f ∈ fs, FieldFits size' f) :
    fieldCalls u (uninitialized garbage size) fs =
      fieldCalls u (uninitialized garbage' size') fs := by
  apply List.map_injective_iff.2 callBytes_injective
  rw [(readFields_uninitialized u garbage hsize hfs).1,
    (readFields_uninitialized u garbage' hsize' hfs').1]

/-! ## The last value -/

/-- A value that does not end with a newline cannot lose any. -/
theorem eq_of_lastAgrees {actual own : List UInt8} (h : LastAgrees actual own)
    (hown : withoutNewlines own = own) : actual = own := by
  rcases h with ⟨r, hr, heq⟩
  have hwithout : withoutNewlines own = withoutNewlines actual := by
    rw [heq, withoutNewlines_append_newlines _ hr]
  have hle : (withoutNewlines actual).length ≤ actual.length :=
    (List.rdropWhile_prefix isNewline actual).length_le
  have hlen := congrArg List.length heq
  rw [← hwithout, hown] at hle
  rw [List.length_append] at hlen
  have hnil : r = [] := List.eq_nil_of_length_eq_zero (by omega)
  rw [heq, hnil, List.append_nil]

/-- A GET passes the last value without its newlines only if there are none to cut off. -/
theorem lastGet_eq_iff {buf : ValueBuf} (hready : buf.Ready) {f : List UInt8}
    (hf : FieldFits buf.bytes.length f) (hzero : 0 ∉ (splitField f).2) :
    (∃ t, (buf.segments (fieldSegments f)).lastGet = some t ∧
        t.bytes = withoutNewlines (splitField f).2) ↔
      withoutNewlines (splitField f).2 = (splitField f).2 ∧ (fieldSegments f).length ≤ 1 ∧
        (fieldSegments f = [] → buf.passed = []) ∧
        isNewline (buf.segments (fieldSegments f)).current = false := by
  have hagrees := lastGet_agrees_iff hready hf
  have hvalue := passed_eq_value_iff hf
  have hpassed : isNewline (buf.segments (fieldSegments f)).current = false →
      ∃ t, (buf.segments (fieldSegments f)).lastGet = some t ∧
        t.bytes = (buf.segments (fieldSegments f)).passed := by
    intro hcurrent
    have hlen := ValueBuf.length_segments hf.2.1
    have hend := (ValueBuf.field_inBounds decodePlain hready.1 hf).2
    refine ⟨.ofBytes (buf.segments (fieldSegments f)).before, ?_, ?_⟩
    · rw [ValueBuf.lastGet, hcurrent, if_neg Bool.false_ne_true]
    · exact (ValueBuf.passed_eq (hlen.symm ▸ hend)).symm
  constructor
  · intro h
    obtain ⟨t, ht, hbytes⟩ := h
    rcases withoutNewlines_append (splitField f).2 with ⟨r, hr, happend⟩
    rcases hagrees.1 ⟨t, ht, r, hr, hbytes ▸ happend⟩ with ⟨hsimple, hcurrent⟩
    rcases hpassed hcurrent with ⟨t', ht', hbytes'⟩
    rw [ht] at ht'
    cases ht'
    exact ⟨hbytes.symm.trans (hbytes'.trans (hvalue.2 hsimple)), hsimple.2.1, hsimple.2.2,
      hcurrent⟩
  · intro h
    obtain ⟨hown, hone, hbare, hcurrent⟩ := h
    rcases hpassed hcurrent with ⟨t, ht, hbytes⟩
    exact ⟨t, ht, by rw [hbytes, hvalue.2 ⟨hzero, hone, hbare⟩, hown]⟩

/-- A POST passes a last value that does not end with a newline. -/
theorem lastPost_eq (u : Unescape) (garbage : Nat → UInt8) {size : Nat} (hsize : 0 < size)
    {fs : List (List UInt8)} {f : List UInt8} (hfits : ∀ g ∈ fs ++ [f], FieldFits size g)
    (hzero : 0 ∉ (splitField f).2) (hown : withoutNewlines (splitField f).2 = (splitField f).2)
    (hone : (fieldSegments f).length ≤ 1)
    (hbare : fieldSegments f = [] → leftBy u [] fs = []) :
    (lastValue u garbage size fs f).lastPost.bytes = (splitField f).2 := by
  rw [List.forall_mem_append, List.forall_mem_singleton] at hfits
  rcases ready_lastField u garbage hsize hfits.1 with ⟨hready, hlen⟩
  rw [← (readFields_uninitialized u garbage hsize hfits.1).2] at hbare
  have hagrees := (lastPost_agrees_iff hready (hlen.symm ▸ hfits.2)).2 ⟨hzero, hone, hbare⟩
  exact eq_of_lastAgrees hagrees hown

/-! ## Agreement -/

/-- The three parsers make the same calls, and the last value is its own text without the
newlines at its end.  Each parser has a value buffer of its own. -/
def LastStandsAlone (u : Unescape) (getGarbage stringGarbage fileGarbage : Nat → UInt8)
    (buf : List UInt8) (next : List (List UInt8)) : Prop :=
  ∃ calls call,
    parseForm u getGarbage (.get (buf :: next).flatten) = some (calls ++ [call]) ∧
    parseForm u stringGarbage (.postString buf next) = some (calls ++ [call]) ∧
    parseForm u fileGarbage (.postFile (buf :: next).flatten) = some (calls ++ [call]) ∧
    call.2.bytes = withoutNewlines (splitField (lastField (buf :: next).flatten)).2

/-- The parsers agree exactly when the last field has at most one `=` and a value without
newlines at its end, does not get a value from the fields before it, and no newline follows it
in the buffer of a GET. -/
theorem lastStandsAlone_iff (u : Unescape) (getGarbage stringGarbage fileGarbage : Nat → UInt8)
    (buf : List UInt8) (next : List (List UInt8)) (hzero : 0 ∉ (buf :: next).flatten)
    (hfits : ∀ f ∈ fieldsOf (buf :: next).flatten, FieldFits getValueSz f) :
    LastStandsAlone u getGarbage stringGarbage fileGarbage buf next ↔
      (buf :: next).flatten ≠ [] ∧
        withoutNewlines (splitField (lastField (buf :: next).flatten)).2 =
          (splitField (lastField (buf :: next).flatten)).2 ∧
        (fieldSegments (lastField (buf :: next).flatten)).length ≤ 1 ∧
        (fieldSegments (lastField (buf :: next).flatten) = [] →
          leftBy u [] (fieldsOf (buf :: next).flatten).dropLast = []) ∧
        isNewline (lastValueOf u getGarbage getValueSz (buf :: next).flatten).current = false := by
  have hfields := fieldsOf_eq (buf :: next).flatten
  have hall : ∀ size, (buf :: next).flatten.length ≤ size →
      ∀ g ∈ fieldsOf (buf :: next).flatten, FieldFits size g :=
    fun size hsize => (forall_fieldFits_iff hsize).2 fun f hf => (hfits f hf).1
  by_cases htext : (buf :: next).flatten = []
  · refine iff_of_false ?_ fun h => h.1 htext
    intro hgiven
    obtain ⟨calls, call, hget, -⟩ := hgiven
    rw [htext] at hget
    have hlen := congrArg List.length (Option.some.inj hget)
    rw [List.length_append, List.length_singleton] at hlen
    cases hlen
  have hlt := length_flatten_lt_bufsz buf next
  have hpos := List.length_pos_of_ne_nil htext
  have hget := parseGetQueryString_eq u getGarbage htext (fieldsOf_eq _)
  have hstring := parsePostQueryString_eq u stringGarbage hfields
  have hfile := parsePostQueryFile_eq u fileGarbage htext hfields
  have hsizes := And.intro (hall _ (le_of_lt hlt)) (hall _ (le_refl _))
  rw [hfields] at hfits hsizes
  rw [takeWhile_eq_self hzero, if_pos hfits] at hget
  rw [if_pos hsizes.1] at hstring
  rw [if_pos hsizes.2] at hfile
  have hzero' : 0 ∉ (splitField (lastField (buf :: next).flatten)).2 :=
    (zero_not_mem_field_iff.1 (zero_not_mem_iff.1 hzero _ (List.getLast_mem _))).2
  have hfits' := hfits
  rw [List.forall_mem_append, List.forall_mem_singleton] at hfits'
  rcases ready_lastField u getGarbage (by decide) hfits'.1 with ⟨hready, hlen⟩
  have hiff := lastGet_eq_iff hready (hlen.symm ▸ hfits'.2) hzero'
  rw [(readFields_uninitialized u getGarbage (by decide) hfits'.1).2] at hiff
  rw [and_iff_right htext]
  refine Iff.trans ?_ hiff
  constructor
  · intro hgiven
    obtain ⟨calls, call, heq, -, -, hbytes⟩ := hgiven
    rcases Option.map_eq_some_iff.1 (hget.symm.trans heq) with ⟨t, ht, heq⟩
    cases (List.append_inj' heq rfl).2
    exact ⟨t, ht, hbytes⟩
  · intro hgiven
    obtain ⟨t, ht, hbytes⟩ := hgiven
    rcases hiff.1 ⟨t, ht, hbytes⟩ with ⟨hown, hone, hbare, -⟩
    have hpost : ∀ (garbage : Nat → UInt8) {size : Nat}, 0 < size →
        (∀ g ∈ (fieldsOf (buf :: next).flatten).dropLast ++ [lastField (buf :: next).flatten],
          FieldFits size g) →
        fieldCalls u (uninitialized garbage size) (fieldsOf (buf :: next).flatten).dropLast ++
            [(.ofBytes (fieldKey (lastField (buf :: next).flatten)),
              (lastValue u garbage size (fieldsOf (buf :: next).flatten).dropLast
                (lastField (buf :: next).flatten)).lastPost)] =
          fieldCalls u (uninitialized getGarbage getValueSz)
              (fieldsOf (buf :: next).flatten).dropLast ++
            [(.ofBytes (fieldKey (lastField (buf :: next).flatten)), t)] := by
      intro garbage size hsize hfit
      have hlast := lastPost_eq u garbage hsize hfit hzero' hown hone hbare
      rw [CString.ext' (hlast.trans (hown.symm.trans hbytes.symm))]
      rw [List.forall_mem_append] at hfit
      rw [fieldCalls_congr u hsize (by decide) hfit.1 hfits'.1]
    refine ⟨fieldCalls u (uninitialized getGarbage getValueSz)
        (fieldsOf (buf :: next).flatten).dropLast,
      (.ofBytes (fieldKey (lastField (buf :: next).flatten)), t), hget.trans ?_,
      hstring.trans ?_, hfile.trans ?_, hbytes⟩
    · exact congrArg (Option.map _) ht
    · exact congrArg some (hpost stringGarbage (Nat.zero_lt_of_lt hlt) hsizes.1)
    · exact congrArg some (hpost fileGarbage hpos hsizes.2)

/-- Two buffers that cut a value, with a newline behind it that the last value does not
reach. -/
theorem lastStandsAlone_twoBuffers :
    LastStandsAlone decodePlain (fun _ => 0) (fun _ => 10) (fun _ => 13)
      (ascii "cmd=status&sql=sel") [ascii "ect"] :=
  (lastStandsAlone_iff decodePlain (fun _ => 0) (fun _ => 10) (fun _ => 13)
    (ascii "cmd=status&sql=sel") [ascii "ect"] (by decide +kernel) (by decide +kernel)).2
    ⟨by decide +kernel, by decide +kernel, by decide +kernel, by decide +kernel,
      by decide +kernel⟩

/-- A newline at the end stays when no newline follows it in the buffer. -/
theorem not_lastStandsAlone_newline :
    ¬LastStandsAlone decodePlain (fun _ => 0) (fun _ => 0) (fun _ => 0) (ascii "sql=x\n") [] := by
  intro h
  obtain ⟨calls, call, hget, -, -, hbytes⟩ := h
  have hcall : ((parseForm decodePlain (fun _ => 0) (.get (ascii "sql=x\n"))).bind
      fun calls => calls.getLast?.map fun call => call.2.bytes) = some (ascii "x\n") := by
    decide +kernel
  have htext : ([ascii "sql=x\n"] : List (List UInt8)).flatten = ascii "sql=x\n" := by
    decide
  have hown : withoutNewlines (splitField (lastField (ascii "sql=x\n"))).2 = ascii "x" := by
    decide +kernel
  rw [htext] at hget hbytes
  rw [hget, Option.bind_some, List.getLast?_concat, Option.map_some, Option.some.injEq, hbytes,
    hown] at hcall
  revert hcall
  decide

end DbRelay
