import DbRelay.Db.ColumnNames
import DbRelay.Form.Agreement
import DbRelay.Form.WriteValue
import DbRelay.Lib.Percent
import DbRelay.Wire.Settings

/-!
# A form for each request

What the form parsers and `write_value` are for, seen from a client: each request that the
fields can express has a form, and the parsers read back exactly that request.

* `Request.fields` are the keys and values for a request, and `formText` writes them with
  percent signs.
* `splits_formText`: each parser splits the form as it was written.
* `foldl_fields`: the fields of a request, stored one after the other, are the
  request.
* `expressible_iff`: the round trip.  It needs nothing of a POST, and of a GET what
  `FormInput.HasRoom` says.

The decoder of nginx is an argument.  `Unescape.ReadsPercent` is what its documentation
says of percent signs.
-/

namespace DbRelay

open Decimal

/-- A percent sign and two digits stand for a byte. -/
def Unescape.ReadsPercent (u : Unescape) : Prop := ∀ s, u.decode (Percent.encode s) = s

/-! ## The form of a request -/

/-- The names that `write_flag_values` knows. -/
def flagNames : List (List UInt8) :=
  [ascii "echosql", ascii "pp", ascii "xact", ascii "embedcsv", ascii "nomagic"]

def flagsText (flags : UInt64) : List UInt8 :=
  [(44 : UInt8)].intercalate (flagNames.filter fun name => decide (flags &&& flagOf name ≠ 0))

/-- `paramN`, for the entry `i` of the array. -/
def paramKey (i : Nat) : CString := .ofBytes (ascii "param" ++ decimal (i + 1))

def paramFields (i : Nat) : List (Option CString) → List (CString × CString)
  | [] => []
  | some value :: params => (paramKey i, value) :: paramFields (i + 1) params
  | none :: params => paramFields (i + 1) params

/-- The fields that are no parameters. -/
def Request.plainFields (r : Request) : List (CString × CString) :=
  [(.ofBytes (ascii "sql_server"), r.sqlServer.toCString),
    (.ofBytes (ascii "sql_port"), r.sqlPort.toCString),
    (.ofBytes (ascii "sql_database"), r.sqlDatabase.toCString),
    (.ofBytes (ascii "sql_user"), r.sqlUser.toCString),
    (.ofBytes (ascii "sql_password"), r.sqlPassword.toCString),
    (.ofBytes (ascii "connection_name"), r.connectionName.toCString),
    (.ofBytes (ascii "connection_timeout"), .ofBytes (decimalInt r.connectionTimeout.toInt)),
    (.ofBytes (ascii "query_tag"), r.queryTag.toCString),
    (.ofBytes (ascii "js_callback"), r.jsCallback.toCString),
    (.ofBytes (ascii "js_error"), r.jsError.toCString),
    (.ofBytes (ascii "flags"), .ofBytes (flagsText r.flags))] ++
  (r.sql.map fun sql => (.ofBytes (ascii "sql"), sql)).toList

/-- The fields of a request. -/
def Request.fields (r : Request) : List (CString × CString) :=
  r.plainFields ++ paramFields 0 r.params.toList

def formField (field : CString × CString) : List UInt8 :=
  field.1.bytes ++ equalsSign :: Percent.encode field.2.bytes

def formText (fields : List (CString × CString)) : List UInt8 :=
  [ampersand].intercalate (fields.map formField)

/-- The requests that a form can express: `-S` is an option of the command line, and there
are five flags. -/
structure Expressible (r : Request) : Prop where
  sockPath : r.sockPath = .empty
  flags : r.flags < 32

/-! ## Splitting the form -/

/-- A key that needs no encoding. -/
def PlainKey (key : CString) : Prop :=
  ampersand ∉ key.bytes ∧ equalsSign ∉ key.bytes ∧ key.bytes.length < keySz

instance (key : CString) : Decidable (PlainKey key) := inferInstanceAs (Decidable (_ ∧ _ ∧ _))

section Splitting

variable {fields : List (CString × CString)} {field : CString × CString}

theorem splitOn_formField (h : PlainKey field.1) :
    (formField field).splitOn equalsSign = [field.1.bytes, Percent.encode field.2.bytes] := by
  have hvalue : equalsSign ∉ Percent.encode field.2.bytes :=
    Percent.not_mem_encode (by decide) (by decide) _
  have htext : formField field =
      [equalsSign].intercalate [field.1.bytes, Percent.encode field.2.bytes] := by
    rw [intercalate_cons, formField, List.flatMap_cons, List.flatMap_nil, List.append_nil]
  rw [htext, List.splitOn_intercalate _ (fun w hw => ?_) (List.cons_ne_nil _ _)]
  simp only [List.mem_cons, List.not_mem_nil, or_false] at hw
  rcases hw with rfl | rfl
  · exact h.2.1
  · exact hvalue

theorem ampersand_not_mem_formField (h : PlainKey field.1) : ampersand ∉ formField field := by
  rw [formField, List.mem_append, List.mem_cons, not_or, not_or]
  exact ⟨h.1, by decide, Percent.not_mem_encode (by decide) (by decide) _⟩

theorem fieldsOf_formText (hne : fields ≠ []) (hkeys : ∀ f ∈ fields, PlainKey f.1) :
    fieldsOf (formText fields) = fields.map formField := by
  refine List.splitOn_intercalate _ (fun w hw => ?_) (by simpa using hne)
  obtain ⟨f, hf, rfl⟩ := List.mem_map.1 hw
  exact ampersand_not_mem_formField (hkeys f hf)

theorem fieldKey_formField (h : PlainKey field.1) :
    fieldKey (formField field) = field.1.bytes := by
  rw [fieldKey, splitOn_formField h, List.headD_cons]

theorem fieldSegments_formField (h : PlainKey field.1) :
    fieldSegments (formField field) = [Percent.encode field.2.bytes] := by
  rw [fieldSegments, splitOn_formField h, List.tail_cons]

theorem splitField_formField (h : PlainKey field.1) :
    splitField (formField field) = (field.1.bytes, Percent.encode field.2.bytes) := by
  rw [splitField_eq, fieldKey_formField h, fieldSegments_formField h, intercalate_cons,
    List.flatMap_nil, List.append_nil]

theorem simpleField_formField (h : PlainKey field.1) : SimpleField (formField field) := by
  constructor
  · rw [zero_not_mem_field_iff, splitField_formField h]
    exact ⟨field.1.noNul, Percent.not_mem_encode (by decide) (by decide) _⟩
  · rw [fieldSegments_formField h, List.length_singleton]

/-- Fields that all have an `=`. -/
theorem emptyBeforeBare_of_segments (u : Unescape) {fs : List (List UInt8)}
    (h : ∀ f ∈ fs, fieldSegments f ≠ []) : ∀ left, EmptyBeforeBare u left fs := by
  induction fs with
  | nil => exact fun _ => trivial
  | cons f fs ih =>
    intro left
    rw [List.forall_mem_cons] at h
    rw [EmptyBeforeBare, List.getLast?_eq_some_getLast h.1]
    exact ih h.2 _

/-- The keys and the segments of a form are what the parsers ask for. -/
theorem splits_of_ends {u : Unescape} {garbage : Nat → UInt8} {input : FormInput}
    (hsimple : ∀ f ∈ fieldsOf input.text, SimpleField f)
    (hsegments : ∀ f ∈ fieldsOf input.text, fieldSegments f ≠ [])
    (hends : input.Ends u garbage) : SplitsExactly u garbage input := by
  have hbare := emptyBeforeBare_of_segments u hsegments []
  cases input with
  | get args =>
    obtain ⟨hargs, hfits, hcurrent⟩ := hends
    have hzero : 0 ∉ args := zero_not_mem_iff.2 fun f hf => (hsimple f hf).1
    have hparse := parseGetQueryString_eq u garbage hargs (fieldsOf_eq _)
    rw [takeWhile_eq_self hzero] at hparse
    have hiff := @splitsExactly_of_parseForm u garbage (.get args) getValueSz (by decide) _
      (isNewline (lastValueOf u garbage getValueSz args).current = false) hparse
    refine (hiff fun hfits => ?_).2 ⟨hsimple, hbare, hfits, hcurrent⟩
    have hfields := fieldsOf_eq args
    rw [show (FormInput.get args).text = args from rfl, hfields, List.forall_mem_append,
      List.forall_mem_singleton] at hfits
    obtain ⟨hready, hlen⟩ := ready_lastField u garbage (by decide) hfits.1
    exact lastGet_agrees_iff hready (hlen.symm ▸ hfits.2)
  | postString buf next =>
    have hlt := length_flatten_lt_bufsz buf next
    have hiff := @splitsExactly_post u garbage (.postString buf next) _ (Nat.zero_lt_of_lt hlt)
      (parsePostQueryString_eq u garbage (fieldsOf_eq (buf :: next).flatten))
    exact hiff.2 ⟨hsimple, hbare, (forall_fieldFits_iff (le_of_lt hlt)).2 hends⟩
  | postFile buf =>
    have hiff := @splitsExactly_post u garbage (.postFile buf) _
      (List.length_pos_of_ne_nil hends.1)
      (parsePostQueryFile_eq u garbage hends.1 (fieldsOf_eq buf))
    exact hiff.2 ⟨hsimple, hbare, (forall_fieldFits_iff (le_refl _)).2 hends.2⟩

end Splitting

/-! ## The keys -/

theorem paramKey_bytes (i : Nat) : (paramKey i).bytes = ascii "param" ++ decimal (i + 1) := by
  apply CString.ofBytes_bytes_eq_iff.2
  rw [List.mem_append, not_or]
  exact ⟨by decide, fun h => absurd (isDigit_of_mem_decimal h) (by decide)⟩

theorem plainKey_paramKey {i : Nat} (hi : i < maxParams) : PlainKey (paramKey i) := by
  have hlen : (decimal (i + 1)).length ≤ 3 := by
    rw [length_decimal_le_iff (by decide)]
    have hmax : maxParams = 100 := rfl
    omega
  have hdigit : ∀ b : UInt8, isDigit b = false → b ∉ decimal (i + 1) := by
    intro b hb hmem
    rw [isDigit_of_mem_decimal hmem] at hb
    cases hb
  have hname : ampersand ∉ ascii "param" ∧ equalsSign ∉ ascii "param" := by decide
  refine ⟨?_, ?_, ?_⟩
  · rw [paramKey_bytes, List.mem_append, not_or]
    exact ⟨hname.1, hdigit _ (by decide)⟩
  · rw [paramKey_bytes, List.mem_append, not_or]
    exact ⟨hname.2, hdigit _ (by decide)⟩
  · rw [paramKey_bytes, List.length_append]
    show 5 + _ < 100
    omega

theorem plainKey_paramFields (params : List (Option CString)) {i : Nat}
    (hi : i + params.length ≤ maxParams) : ∀ f ∈ paramFields i params, PlainKey f.1 := by
  induction params generalizing i with
  | nil => exact List.forall_mem_nil _
  | cons param params ih =>
    rw [List.length_cons] at hi
    have hrest := @ih (i + 1) (by omega)
    cases param with
    | none => exact hrest
    | some value =>
      rw [paramFields, List.forall_mem_cons]
      exact ⟨plainKey_paramKey (by omega), hrest⟩

theorem plainKey_fields (r : Request) : ∀ f ∈ r.fields, PlainKey f.1 := by
  rw [Request.fields, List.forall_mem_append]
  constructor
  · rw [Request.plainFields, List.forall_mem_append]
    constructor
    · simp only [List.forall_mem_cons]
      exact ⟨by decide, by decide, by decide, by decide, by decide, by decide, by decide,
        by decide, by decide, by decide, by decide, List.forall_mem_nil _⟩
    · intro f hf
      obtain ⟨sql, -, rfl⟩ := Option.map_eq_some_iff.1 (Option.mem_toList.1 hf)
      show PlainKey (.ofBytes (ascii "sql"))
      decide
  · exact plainKey_paramFields _ (by rw [Vector.length_toList]; omega)

theorem fields_ne_nil (r : Request) : r.fields ≠ [] := List.cons_ne_nil _ _

/-! ## The calls -/

/-- Nothing is left out of the last value: it does not end with a newline. -/
theorem withoutNewlines_encode (s : List UInt8) :
    withoutNewlines (Percent.encode s) = Percent.encode s := by
  rw [withoutNewlines, List.rdropWhile_eq_self_iff]
  intro hne hnewline
  have hmem := List.getLast_mem hne
  rw [isNewline, decide_eq_true_eq] at hnewline
  rcases hnewline with h | h
  · exact Percent.not_mem_encode (by decide) (by decide) s (h ▸ hmem)
  · exact Percent.not_mem_encode (by decide) (by decide) s (h ▸ hmem)

section Calls

variable {u : Unescape} {garbage : Nat → UInt8} {input : FormInput}
  {fields : List (CString × CString)}

/-- The keys and the encoded values of a form. -/
theorem splits_formText (hne : fields ≠ []) (hkeys : ∀ f ∈ fields, PlainKey f.1)
    (htext : input.text = formText fields) (hends : input.Ends u garbage) :
    ∃ calls, parseForm u garbage input = some calls ∧
      calls.map callBytes = fields.map fun f => (f.1.bytes, Percent.encode f.2.bytes) := by
  have hfields := fieldsOf_formText hne hkeys
  rw [← htext] at hfields
  have hforall : ∀ P : List UInt8 → Prop, (∀ f ∈ fields, P (formField f)) →
      ∀ g ∈ fieldsOf input.text, P g := by
    intro P h
    rw [hfields, List.forall_mem_map]
    exact h
  have hsimple := hforall SimpleField fun f hf => simpleField_formField (hkeys f hf)
  have hsegments := hforall (fieldSegments · ≠ []) fun f hf => by
    rw [fieldSegments_formField (hkeys f hf)]
    exact List.cons_ne_nil _ _
  have hown := hforall (fun g => withoutNewlines (splitField g).2 = (splitField g).2)
    fun f hf => by
      rw [splitField_formField (hkeys f hf)]
      exact withoutNewlines_encode _
  obtain ⟨calls, call, hparse, hcalls, hkey, hvalue⟩ :=
    splits_of_ends hsimple hsegments hends
  have hlast : lastField input.text ∈ fieldsOf input.text := List.getLast_mem _
  have hcall : callBytes call = splitField (lastField input.text) :=
    Prod.ext hkey (eq_of_lastAgrees hvalue (hown _ hlast))
  refine ⟨calls ++ [call], hparse, ?_⟩
  calc (calls ++ [call]).map callBytes
      = ((fieldsOf input.text).dropLast ++ [lastField input.text]).map splitField := by
        rw [List.map_append, List.map_append, hcalls, List.map_singleton, List.map_singleton,
          hcall]
    _ = (fields.map formField).map splitField := by
        rw [← hfields]
        exact congrArg _ (fieldsOf_eq _).symm
    _ = fields.map fun f => (f.1.bytes, Percent.encode f.2.bytes) := by
        rw [List.map_map]
        exact List.map_congr_left fun f hf => splitField_formField (hkeys f hf)

/-- An encoded text has no plus sign and no zero byte. -/
theorem unescapedValue_encode (hu : u.ReadsPercent) {value v : CString}
    (h : value.bytes = Percent.encode v.bytes) : unescapedValue u value = v := by
  have hplus : (Percent.encode v.bytes).map plusToSpace = Percent.encode v.bytes := by
    refine (List.map_congr_left fun b hb => ?_).trans (List.map_id _)
    rw [plusToSpace, if_neg, id]
    rintro rfl
    exact Percent.not_mem_encode (by decide) (by decide) _ hb
  have hsrc : (CString.ofBytes (Percent.encode v.bytes ++ [0])).bytes =
      Percent.encode v.bytes := by
    rw [ofBytes_append_zero, ← h, CString.ofBytes_bytes]
  simp only [unescapedValue, unescapeBytes, h, hsrc, hplus, hu v.bytes]
  rw [ofBytes_append_zero, CString.ofBytes_bytes]

/-- A decoded field. -/
def storeField (r : Request) (field : CString × CString) : Request :=
  storeValue r field.1 field.2

/-- The calls store the values as they were before the encoding. -/
theorem foldl_writeValue (hu : u.ReadsPercent) {calls : List (CString × CString)}
    (h : calls.map callBytes = fields.map fun f => (f.1.bytes, Percent.encode f.2.bytes))
    (r : Request) : calls.foldl (writeValue u) r = fields.foldl storeField r := by
  induction fields generalizing calls r with
  | nil =>
    rw [List.map_nil, List.map_eq_nil_iff] at h
    rw [h]
    rfl
  | cons f fields ih =>
    obtain ⟨call, calls, rfl, hcall, hcalls⟩ := List.map_eq_cons_iff.1 h
    rw [callBytes, Prod.mk.injEq] at hcall
    have hkey : call.1 = f.1 := CString.ext' hcall.1
    have hstep : writeValue u r call = storeField r f := by
      rw [writeValue, unescapedValue_encode hu hcall.2, hkey, storeField]
    rw [List.foldl_cons, List.foldl_cons, hstep]
    exact ih hcalls _

end Calls

/-! ## The stored fields -/

/-- The flags that a list of names sets. -/
def flagsOf (flags : UInt64) (value : CString) : UInt64 :=
  (value.bytes.splitOn 44).foldl (fun flags tok => flags ||| flagOf tok) flags

theorem writeFlagValues_eq (r : Request) (value : CString) :
    writeFlagValues r value = { r with flags := flagsOf r.flags value } := by
  unfold writeFlagValues flagsOf
  induction value.bytes.splitOn 44 generalizing r with
  | nil => rfl
  | cons tok toks ih => exact ih { r with flags := r.flags ||| flagOf tok }

/-- The names of each set of the five flags. -/
theorem flagsOf_flagsText {flags : UInt64} (h : flags < 32) :
    flagsOf 0 (.ofBytes (flagsText flags)) = flags := by
  have hall : ∀ n : Fin 32, flagsOf 0 (.ofBytes (flagsText (.ofNat n.val))) = .ofNat n.val := by
    decide +kernel
  have hlt : flags.toNat < 32 := UInt64.lt_iff_toNat_lt.1 h
  have hflags := hall ⟨flags.toNat, hlt⟩
  rwa [UInt64.ofNat_toNat] at hflags

theorem paramNumber_paramKey {i : Nat} (hi : i < maxParams) : paramNumber (paramKey i) = i + 1 := by
  have hmax : maxParams = 100 := rfl
  have hdrop : (paramKey i).bytes.drop 5 = decimalInt ((i + 1 : Nat) : Int) := by
    rw [paramKey_bytes, decimalInt_natCast]
    exact List.drop_left' rfl
  rw [paramNumber, hdrop, atoi_decimalInt (by omega)]
  omega

/-- The entry of a parameter. -/
theorem storeField_param (r : Request) {i : Nat} (hi : i < maxParams) (value : CString) :
    storeField r (paramKey i, value) =
      { r with params := r.params.setIfInBounds i (some value) } := by
  have hkey : (ascii "param").isPrefixOf (paramKey i).bytes = true := by
    rw [paramKey_bytes, List.isPrefixOf_iff_prefix]
    exact List.prefix_append _ _
  have hother : ∀ name : List UInt8, (ascii "param").isPrefixOf name = false →
      (paramKey i).bytes ≠ name := by
    intro name hname heq
    rw [heq, hname] at hkey
    cases hkey
  rw [storeField, storeValue, if_neg (hother _ (by decide)), if_neg (hother _ (by decide)),
    if_neg (hother _ (by decide)), if_neg (hother _ (by decide)), if_neg (hother _ (by decide)),
    if_neg (hother _ (by decide)), if_neg (hother _ (by decide)), if_neg (hother _ (by decide)),
    if_neg (hother _ (by decide)), if_pos hkey, writeParam, paramNumber_paramKey hi,
    if_neg (by omega), if_pos (Nat.succ_pos i), Nat.add_sub_cancel]

/-- The parameters after `stored`, by induction on those that come. -/
theorem foldl_paramFields (r : Request) (params : List (Option CString))
    {stored : List (Option CString)} {now goal : Vector (Option CString) maxParams}
    (hnow : now.toList = stored ++ List.replicate params.length none)
    (hgoal : goal.toList = stored ++ params) :
    (paramFields stored.length params).foldl storeField { r with params := now } =
      { r with params := goal } := by
  induction params generalizing stored now with
  | nil =>
    have heq : now = goal := Vector.toList_inj.1 (hnow.trans hgoal.symm)
    rw [heq]
    rfl
  | cons param params ih =>
    have hlen := congrArg List.length hgoal
    rw [Vector.length_toList, List.length_append, List.length_cons] at hlen
    rw [List.append_cons] at hgoal
    have hrest := fun now hnow => @ih (stored ++ [param]) now hnow hgoal
    rw [List.length_append, List.length_singleton] at hrest
    rw [List.length_cons, List.replicate_succ] at hnow
    cases param with
    | none => exact hrest now (hnow.trans (List.append_cons _ _ _))
    | some value =>
      rw [paramFields, List.foldl_cons, storeField_param _ (by omega)]
      refine hrest _ ?_
      rw [Vector.toList_setIfInBounds, hnow, List.set_append_right _ _ (le_refl _), Nat.sub_self,
        List.append_assoc]
      rfl

/-- The fields that are no parameters. -/
theorem foldl_plainFields {r : Request} (h : Expressible r) :
    r.plainFields.foldl storeField allocRequest =
      { r with params := .replicate maxParams none } := by
  have htimeout : Int64.ofInt (atol (CString.ofBytes
      (decimalInt r.connectionTimeout.toInt)).bytes) = r.connectionTimeout := by
    have hzero : 0 ∉ decimalInt r.connectionTimeout.toInt := not_mem_decimalInt (by decide)
    rw [CString.ofBytes_bytes_eq_iff.2 hzero, atol_decimalInt
      ⟨Int64.le_toInt _, Int64.toInt_lt _⟩, Int64.ofInt_toInt]
  rw [Request.plainFields, List.foldl_append]
  show List.foldl storeField (writeFlagValues
    { sqlServer := copyString r.sqlServer.bytes
      sqlPort := copyString r.sqlPort.bytes
      sqlDatabase := copyString r.sqlDatabase.bytes
      sqlUser := copyString r.sqlUser.bytes
      sqlPassword := copyString r.sqlPassword.bytes
      connectionName := copyString r.connectionName.bytes
      connectionTimeout := Int64.ofInt (atol (CString.ofBytes
        (decimalInt r.connectionTimeout.toInt)).bytes)
      queryTag := copyString r.queryTag.bytes
      jsCallback := copyString r.jsCallback.bytes
      jsError := copyString r.jsError.bytes } _) _ = _
  rw [writeFlagValues_eq]
  simp only [copyString_self, htimeout, flagsOf_flagsText h.flags]
  have hsock := h.sockPath
  rcases r with ⟨_, _, _, _, _, sql, _, _, _, _, _, _, _, _⟩
  rw [hsock]
  cases sql with
  | none => rfl
  | some sql => rfl

/-- Stored one after the other, the fields of a request are the request. -/
theorem foldl_fields {r : Request} (h : Expressible r) :
    r.fields.foldl storeField allocRequest = r := by
  rw [Request.fields, List.foldl_append, foldl_plainFields h]
  refine @foldl_paramFields r r.params.toList [] _ r.params ?_ rfl
  rw [Vector.toList_replicate, Vector.length_toList]
  rfl

/-! ## The round trip -/

/-- What the parser of a GET asks of a form: its values fit, and the byte after the last one in
the buffer is no newline.  A POST always has room. -/
def FormInput.HasRoom (u : Unescape) (garbage : Nat → UInt8) : FormInput → Prop
  | .get args => (∀ f ∈ fieldsOf args, ∀ w ∈ fieldSegments f, w.length < getValueSz) ∧
      isNewline (lastValueOf u garbage getValueSz args).current = false
  | .postString _ _ => True
  | .postFile _ => True

theorem ends_of_hasRoom {u : Unescape} {garbage : Nat → UInt8} {input : FormInput}
    {fields : List (CString × CString)} (hne : fields ≠ []) (hkeys : ∀ f ∈ fields, PlainKey f.1)
    (htext : input.text = formText fields) (hroom : input.HasRoom u garbage) :
    input.Ends u garbage := by
  have hkeysFit : KeysFit (formText fields) := by
    rw [KeysFit, fieldsOf_formText hne hkeys, List.forall_mem_map]
    intro f hf
    rw [fieldKey_formField (hkeys f hf)]
    exact (hkeys f hf).2.2
  have htext_ne : formText fields ≠ [] := by
    obtain ⟨f, fs, rfl⟩ := List.exists_cons_of_ne_nil hne
    rw [formText, List.map_cons, intercalate_cons, formField]
    simp
  rw [← htext] at hkeysFit htext_ne
  cases input with
  | get args =>
    refine ⟨htext_ne, fun f hf => ⟨hkeysFit f hf, fun w hw => ?_, fun w hw => ?_⟩, hroom.2⟩
    · exact le_of_lt (hroom.1 f hf w hw)
    · exact hroom.1 f hf w (List.mem_of_mem_getLast? hw)
  | postString buf next => exact hkeysFit
  | postFile buf => exact ⟨htext_ne, hkeysFit⟩

theorem formRequest_text {u : Unescape} (hu : u.ReadsPercent) (garbage : Nat → UInt8)
    {r : Request} (hr : Expressible r) {input : FormInput} (htext : input.text = formText r.fields)
    (hroom : input.HasRoom u garbage) :
    ∃ calls, parseForm u garbage input = some calls ∧ formRequest u calls = r := by
  have hends := ends_of_hasRoom (fields_ne_nil r) (plainKey_fields r) htext hroom
  obtain ⟨calls, hparse, hcalls⟩ :=
    splits_formText (fields_ne_nil r) (plainKey_fields r) htext hends
  refine ⟨calls, hparse, ?_⟩
  rw [formRequest, foldl_writeValue hu hcalls, foldl_fields hr]

/-! ## The requests that have a form -/

theorem flagOf_lt (tok : List UInt8) : flagOf tok < 32 := by
  unfold flagOf
  repeat' split
  all_goals decide

theorem flagsOf_lt {flags : UInt64} (h : flags < 32) (value : CString) :
    flagsOf flags value < 32 := by
  unfold flagsOf
  induction value.bytes.splitOn 44 generalizing flags with
  | nil => exact h
  | cons tok toks ih =>
    refine ih (UInt64.lt_iff_toNat_lt.2 ?_)
    rw [UInt64.toNat_or]
    exact Nat.or_lt_two_pow (n := 5) (UInt64.lt_iff_toNat_lt.1 h)
      (UInt64.lt_iff_toNat_lt.1 (flagOf_lt tok))

theorem writeParam_sockPath (r : Request) (key value : CString) :
    (writeParam r key value).sockPath = r.sockPath ∧ (writeParam r key value).flags = r.flags := by
  unfold writeParam
  split
  · exact ⟨rfl, rfl⟩
  · split
    · exact ⟨rfl, rfl⟩
    · exact ⟨rfl, rfl⟩

/-- No field sets the path, and `flags` sets the five flags. -/
theorem expressible_storeValue {r : Request} (h : Expressible r) (key value : CString) :
    Expressible (storeValue r key value) := by
  have hflags : Expressible (writeFlagValues r value) := by
    rw [writeFlagValues_eq]
    exact ⟨h.sockPath, flagsOf_lt h.flags value⟩
  have hparam : Expressible (writeParam r key value) := by
    rcases writeParam_sockPath r key value with ⟨hpath, hsame⟩
    exact ⟨hpath.trans h.sockPath, hsame ▸ h.flags⟩
  unfold storeValue
  repeat' refine iteInduction (motive := Expressible) (fun _ => ?_) (fun _ => ?_)
  all_goals first | exact hflags | exact hparam | exact ⟨h.sockPath, h.flags⟩

theorem expressible_formRequest (u : Unescape) (calls : List (CString × CString)) :
    Expressible (formRequest u calls) := by
  induction calls using List.reverseRecOn with
  | nil => exact ⟨rfl, show allocRequest.flags < 32 by decide⟩
  | append_singleton calls call ih =>
    rw [formRequest, List.foldl_concat]
    exact expressible_storeValue ih call.1 _

/-- The requests that have a form are those that the parsers and `write_value` read back from
their form, field by field. -/
theorem expressible_iff (u : Unescape) (hu : u.ReadsPercent) (garbage : Nat → UInt8)
    (r : Request) :
    Expressible r ↔ ∀ input : FormInput, input.text = formText r.fields →
      input.HasRoom u garbage →
        ∃ calls, parseForm u garbage input = some calls ∧ formRequest u calls = r := by
  constructor
  · intro hr input htext hroom
    exact formRequest_text hu garbage hr htext hroom
  · intro h
    obtain ⟨calls, -, rfl⟩ := h (.postFile (formText r.fields)) rfl trivial
    exact expressible_formRequest u calls

/-- A decoder that reads percent signs. -/
def percentDecoder : Unescape := ⟨Percent.decode, Percent.length_decode_le⟩

/-- A statement with the bytes that the parsers cut at, and a second parameter without a first
one. -/
def separatorsRequest : Request where
  sqlServer := copyString (ascii "db")
  sqlPassword := copyString (ascii "a&b=c+d%41")
  connectionTimeout := Int64.ofInt (-5)
  sql := some (.ofBytes (ascii "select '&sql=x', ?\n"))
  params := (Vector.replicate maxParams none).setIfInBounds 1
    (some (.ofBytes (ascii "char:1 & 1")))
  flags := flagPp ||| flagXact

theorem formRequest_separatorsRequest :
    ∃ calls, parseForm percentDecoder (fun _ => 10)
        (.postString ((formText separatorsRequest.fields).take 70)
          [(formText separatorsRequest.fields).drop 70]) = some calls ∧
      formRequest percentDecoder calls = separatorsRequest :=
  (expressible_iff percentDecoder Percent.decode_encode (fun _ => 10) separatorsRequest).1
    ⟨rfl, by decide⟩ _ (by simp [FormInput.text]) trivial

end DbRelay
