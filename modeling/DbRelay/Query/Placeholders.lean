import DbRelay.Params
import DbRelay.Lib.Template

/-!
# Placeholders and literals

What `dbrelay_resolve_params` is for: the SQL text is a template, whose holes are the
question marks outside of single quotes.  The parameters fill the holes in their order.

* `resolveLoop_eq`: the loop fills the holes, and appends each parameter that is left,
  with the end of the text once more.
* `resolveParams_eq_reference_iff`: when the result is the filled template.
* `becomesLiteral_iff`: when a quoted parameter becomes the literal of its value.
-/

namespace DbRelay

open Template

/-- The marks of the SQL text. -/
def sqlMarks : Marks UInt8 where
  quote := 39
  hole := 63
  quote_ne_hole := by decide

/-! ## The search -/

/-- The search is for the first hole. -/
theorem findPlaceholder_cut (quoted : Bool) (sql : List UInt8) :
    findPlaceholder quoted sql = none ∧ cut sqlMarks quoted sql = (sql, []) ∨
      ∃ i, findPlaceholder quoted sql = some i ∧
        cut sqlMarks quoted sql = (sql.take i, (cut sqlMarks false (sql.drop (i + 1))).1 ::
          (cut sqlMarks false (sql.drop (i + 1))).2) := by
  induction sql generalizing quoted with
  | nil => exact .inl ⟨rfl, rfl⟩
  | cons b sql ih =>
    have hfound : (!DbRelay.quotedAfter quoted b && decide (b = 63)) = true ↔
        b = sqlMarks.hole ∧ quoted = false := by
      rw [Bool.and_eq_true, Bool.not_eq_true', decide_eq_true_iff, and_comm]
      refine and_congr_right fun hb => ?_
      rw [hb]
      rfl
    rw [findPlaceholder, cut]
    by_cases h : b = sqlMarks.hole ∧ quoted = false
    · rw [if_pos (hfound.2 h), if_pos h]
      exact .inr ⟨0, rfl, rfl⟩
    · rw [if_neg fun h' => h (hfound.1 h'), if_neg h]
      rcases ih (DbRelay.quotedAfter quoted b) with ⟨hnone, hcut⟩ | ⟨i, hsome, hcut⟩
      · refine .inl ⟨by rw [hnone]; rfl, ?_⟩
        exact congrArg (fun p : List UInt8 × List (List UInt8) => (b :: p.1, p.2)) hcut
      · refine .inr ⟨i + 1, by rw [hsome]; rfl, ?_⟩
        exact congrArg (fun p : List UInt8 × List (List UInt8) => (b :: p.1, p.2)) hcut

/-! ## The loop -/

/-- What stands for a parameter, if it has a colon. -/
def litText (param : List UInt8) : List UInt8 := (paramText param).getD []

theorem paramText_eq {param : List UInt8} (h : 58 ∈ param) :
    paramText param = some (litText param) := by
  rw [litText, paramText, splitParam, if_pos h]
  rfl

theorem paramText_none {param : List UInt8} (h : 58 ∉ param) : paramText param = none := by
  rw [paramText, splitParam, if_neg h]
  rfl

/-- What is appended for the parameters without a placeholder, after the first one was
found. -/
def surplusText (rest : List UInt8) (params : List (List UInt8)) : List UInt8 :=
  params.flatMap fun param => litText param ++ rest

theorem lastPart_cons (s t : List UInt8) (ts : List (List UInt8)) :
    lastPart s (t :: ts) = lastPart t ts := by
  cases ts <;> rfl

/-- The loop fills the placeholders of the rest of the text. -/
theorem resolveLoop_eq (atStart : Bool) (rest out : List UInt8) {params : List (List UInt8)}
    (hcolon : ∀ param ∈ params, 58 ∈ param) :
    resolveLoop atStart rest out params =
      some (out ++ fill sqlMarks (cut sqlMarks false rest).1 (cut sqlMarks false rest).2
          (params.map litText) ++
        if atStart = true ∧ (cut sqlMarks false rest).2 = [] then []
        else surplusText (lastPart (cut sqlMarks false rest).1 (cut sqlMarks false rest).2)
          (params.drop (cut sqlMarks false rest).2.length)) := by
  induction params generalizing atStart rest out with
  | nil =>
    rw [resolveLoop, List.map_nil, fill_cut, List.drop_nil, surplusText, List.flatMap_nil, ite_self,
      List.append_nil]
  | cons param params ih =>
    rw [List.forall_mem_cons] at hcolon
    rw [resolveLoop, paramText_eq hcolon.1]
    rcases findPlaceholder_cut false rest with ⟨hfind, hcut⟩ | ⟨i, hfind, hcut⟩
    · have hrest : ∀ params : List (List UInt8),
          fill sqlMarks (cut sqlMarks false rest).1 (cut sqlMarks false rest).2
            (params.map litText) = rest := by
        intro params
        rw [hcut]
        rfl
      rw [hfind]
      cases atStart with
      | true =>
        simp only [if_true]
        rw [ih true rest out hcolon.2, hrest, hrest, hcut]
        rfl
      | false =>
        simp only [Bool.false_eq_true, if_false]
        rw [ih false rest _ hcolon.2, hrest, hrest, hcut]
        simp [surplusText, lastPart]
    · rw [hfind]
      simp only
      rw [ih false _ _ hcolon.2, hcut]
      simp only [Bool.false_eq_true, false_and, if_false, reduceCtorEq, and_false, List.map_cons,
        fill, lastPart_cons, List.length_cons, List.drop_succ_cons, List.append_assoc]

/-- A parameter without a colon has no result, once a placeholder was found. -/
theorem colon_of_resolveLoop {atStart : Bool} {rest out text : List UInt8}
    {params : List (List UInt8)} (h : resolveLoop atStart rest out params = some text)
    (hfound : atStart = true → (cut sqlMarks false rest).2 ≠ []) :
    ∀ param ∈ params, 58 ∈ param := by
  induction params generalizing atStart rest out with
  | nil => exact fun param hparam => absurd hparam List.not_mem_nil
  | cons param params ih =>
    rw [resolveLoop] at h
    have hcolon : 58 ∈ param := by
      by_contra hno
      rw [paramText_none hno] at h
      rcases findPlaceholder_cut false rest with ⟨hfind, hcut⟩ | ⟨i, hfind, hcut⟩
      · rw [hfind] at h
        cases atStart with
        | true => exact hfound rfl (congrArg Prod.snd hcut)
        | false => cases h
      · rw [hfind] at h
        cases h
    rw [paramText_eq hcolon] at h
    rw [List.forall_mem_cons]
    refine ⟨hcolon, ?_⟩
    rcases findPlaceholder_cut false rest with ⟨hfind, hcut⟩ | ⟨i, hfind, hcut⟩
    · rw [hfind] at h
      cases atStart with
      | true => exact absurd (congrArg Prod.snd hcut) (hfound rfl)
      | false => exact ih h (fun hstart => absurd hstart Bool.false_ne_true)
    · rw [hfind] at h
      exact ih h (fun hstart => absurd hstart Bool.false_ne_true)

/-! ## The filled template -/

/-- The parameters before the first `NULL`, if there is one. -/
def Request.setParams (request : Request) : List (List UInt8) :=
  (request.params.toList.takeWhile Option.isSome).filterMap fun param => param.map CString.bytes

/-- The number of placeholders. -/
def placeholders (sql : List UInt8) : Nat := (cut sqlMarks false sql).2.length

/-- The text after the last placeholder. -/
def sqlEnd (sql : List UInt8) : List UInt8 :=
  lastPart (cut sqlMarks false sql).1 (cut sqlMarks false sql).2

/-- The prefix and the text, with the first placeholders filled.  Without a parameter a
placeholder stays, and without a placeholder a parameter is ignored. -/
def referenceText (magic : CString) (request : Request) (sql : List UInt8) : List UInt8 :=
  magicText magic request ++ fill sqlMarks (cut sqlMarks false sql).1 (cut sqlMarks false sql).2
    (request.setParams.map litText)

/-- What follows the filled template. -/
def surplus (request : Request) (sql : List UInt8) : List UInt8 :=
  if placeholders sql = 0 then []
  else surplusText (sqlEnd sql) (request.setParams.drop (placeholders sql))

theorem resolveParams_eq (magic : CString) {request : Request} (sql : List UInt8)
    (hcolon : ∀ param ∈ request.setParams, 58 ∈ param) :
    resolveParams magic request sql =
      if none ∈ request.params.toList then
        some (referenceText magic request sql ++ surplus request sql)
      else none := by
  have hlist : request.paramList =
      if none ∈ request.params.toList then some request.setParams else none := rfl
  rw [resolveParams, hlist]
  split
  · rw [Option.bind_some, resolveLoop_eq true sql _ hcolon, referenceText, surplus, placeholders]
    simp only [true_and, List.length_eq_zero_iff]
    rfl
  · rfl

theorem surplusText_eq_nil_iff {rest : List UInt8} {params : List (List UInt8)} :
    surplusText rest params = [] ↔
      params = [] ∨ rest = [] ∧ ∀ param ∈ params, litText param = [] := by
  rw [surplusText, List.flatMap_eq_nil_iff]
  cases params with
  | nil => simp
  | cons param params =>
    simp only [List.append_eq_nil_iff, reduceCtorEq, false_or]
    constructor
    · exact fun h => ⟨(h param List.mem_cons_self).2, fun p hp => (h p hp).1⟩
    · exact fun h p hp => ⟨h.2 p hp, h.1⟩

theorem surplus_eq_nil_iff {request : Request} {sql : List UInt8} :
    surplus request sql = [] ↔
      request.setParams.length ≤ placeholders sql ∨ placeholders sql = 0 ∨
        sqlEnd sql = [] ∧
          ∀ param ∈ request.setParams.drop (placeholders sql), litText param = [] := by
  rw [surplus]
  split
  · rename_i hnone
    exact iff_of_true rfl (.inr (.inl hnone))
  · rename_i hsome
    rw [surplusText_eq_nil_iff, List.drop_eq_nil_iff,
      or_iff_right (a := placeholders sql = 0) hsome]

/-- The result is the filled template exactly when there are not more parameters than
placeholders, or no placeholder at all, or all that is left to append is empty. -/
theorem resolveParams_eq_reference_iff (magic : CString) (request : Request) (sql : List UInt8)
    (hcolon : ∀ param ∈ request.setParams, 58 ∈ param) :
    resolveParams magic request sql = some (referenceText magic request sql) ↔
      none ∈ request.params.toList ∧
        (request.setParams.length ≤ placeholders sql ∨ placeholders sql = 0 ∨
          sqlEnd sql = [] ∧
            ∀ param ∈ request.setParams.drop (placeholders sql), litText param = []) := by
  rw [resolveParams_eq magic sql hcolon, ← surplus_eq_nil_iff]
  split
  · rename_i hlist
    rw [Option.some.injEq, List.append_right_eq_self, and_iff_right hlist]
  · rename_i hlist
    exact iff_of_false (by simp) fun h => hlist h.1

/-- A request with the given parameters. -/
def paramsRequest (first : CString) (second : Option CString) : Request :=
  { params := ((Vector.replicate maxParams none).setIfInBounds 0 (some first)).setIfInBounds 1
      second }

/-- A quoted question mark stays. -/
theorem resolveParams_twoParams :
    resolveParams .empty
        (paramsRequest (.ofBytes (ascii "char:a")) (some (.ofBytes (ascii "int:2"))))
        (ascii "select '?', ?, ?, ?") =
      some (referenceText .empty
        (paramsRequest (.ofBytes (ascii "char:a")) (some (.ofBytes (ascii "int:2"))))
        (ascii "select '?', ?, ?, ?")) :=
  (resolveParams_eq_reference_iff .empty
    (paramsRequest (.ofBytes (ascii "char:a")) (some (.ofBytes (ascii "int:2"))))
    (ascii "select '?', ?, ?, ?") (by decide +kernel)).2
    ⟨by decide +kernel, .inl (by decide +kernel)⟩

/-- The second parameter is appended, though there is one placeholder only. -/
theorem resolveParams_ne_reference_surplus :
    resolveParams .empty
        (paramsRequest (.ofBytes (ascii "int:1")) (some (.ofBytes (ascii "int:2"))))
        (ascii "select ?") ≠
      some (referenceText .empty
        (paramsRequest (.ofBytes (ascii "int:1")) (some (.ofBytes (ascii "int:2"))))
        (ascii "select ?")) := by
  decide +kernel

/-! ## Literals -/

/-- The result up to the placeholder number `k`. -/
def textBefore (magic : CString) (request : Request) (sql : List UInt8) (k : Nat) : List UInt8 :=
  magicText magic request ++ fill sqlMarks (cut sqlMarks false sql).1
    ((cut sqlMarks false sql).2.take k) ((request.setParams.map litText).take k)

/-- The text in the place of the placeholder number `k` is the literal of the value, and
after it the same text is quoted as with the placeholder. -/
def BecomesLiteral (magic : CString) (request : Request) (sql : List UInt8) (k : Nat)
    (param value : List UInt8) : Prop :=
  ∃ text after, paramText param = some text ∧
    resolveParams magic request sql = some (textBefore magic request sql k ++ text ++ after) ∧
    readLiteral sqlMarks text = some (value, []) ∧
    ∀ j, quotedBy sqlMarks false (textBefore magic request sql k ++ text ++ after.take j) =
      quotedBy sqlMarks false (textBefore magic request sql k ++ 63 :: after.take j)

/-- A value of a quoted type is put between two quotes as it is. -/
theorem paramText_quoted {type value : List UInt8} (htype : 58 ∉ type)
    (hquoted : isQuotedParam type = true) :
    paramText (type ++ 58 :: value) = some (39 :: (value ++ [39])) := by
  have hmem : 58 ∈ type ++ 58 :: value := by simp
  have hall : ∀ b ∈ type, decide (b ≠ 58) = true := by
    intro b hb
    simpa using ne_of_mem_of_not_mem hb htype
  rw [paramText, splitParam, if_pos hmem, List.takeWhile_append_of_pos hall,
    List.dropWhile_append_of_pos hall, List.takeWhile_cons_of_neg (by decide),
    List.dropWhile_cons_of_neg (by decide), List.append_nil, List.tail_cons, Option.map_some]
  simp only [if_pos hquoted]
  rfl

/-- The result around a placeholder that a parameter fills. -/
theorem resolveParams_eq_at (magic : CString) {request : Request} {sql param : List UInt8} {k : Nat}
    (hlist : none ∈ request.params.toList) (hcolon : ∀ param ∈ request.setParams, 58 ∈ param)
    (hk : k < placeholders sql) (hparam : request.setParams[k]? = some param) :
    ∃ after, resolveParams magic request sql =
      some (textBefore magic request sql k ++ litText param ++ after) := by
  have hvalue : (request.setParams.map litText)[k]? = some (litText param) := by
    rw [List.getElem?_map, hparam]
    rfl
  have hfill := fill_eq_at sqlMarks (cut sqlMarks false sql).1 (List.getElem?_eq_getElem hk) hvalue
  rw [resolveParams_eq magic sql hcolon, if_pos hlist, referenceText, hfill, textBefore]
  refine ⟨fill sqlMarks ((cut sqlMarks false sql).2.get ⟨k, hk⟩)
    ((cut sqlMarks false sql).2.drop (k + 1)) ((request.setParams.map litText).drop (k + 1)) ++
      surplus request sql, ?_⟩
  simp only [List.append_assoc]
  rfl

/-- A parameter of a quoted type becomes the literal of its value exactly when the value has
no quote, as far as there is a result: the array of the parameters has an end, and each has
a colon. -/
theorem becomesLiteral_iff (magic : CString) (request : Request) (sql : List UInt8) {k : Nat}
    {type value : List UInt8} (hk : k < placeholders sql)
    (hparam : request.setParams[k]? = some (type ++ 58 :: value)) (htype : 58 ∉ type)
    (hquoted : isQuotedParam type = true) :
    BecomesLiteral magic request sql k (type ++ 58 :: value) value ↔
      none ∈ request.params.toList ∧ (∀ param ∈ request.setParams, 58 ∈ param) ∧
        39 ∉ value := by
  have htext := @paramText_quoted type value htype hquoted
  have hbare := readLiteral_bare_iff sqlMarks value
  constructor
  · intro h
    obtain ⟨text, after, htext', hresolve, hread, -⟩ := h
    cases htext.symm.trans htext'
    rw [resolveParams] at hresolve
    rcases Option.bind_eq_some_iff.1 hresolve with ⟨params, hparams, hloop⟩
    have hlist : none ∈ request.params.toList := by
      by_contra hno
      rw [Request.paramList, if_neg hno] at hparams
      cases hparams
    rw [Request.paramList, if_pos hlist] at hparams
    cases hparams
    refine ⟨hlist, colon_of_resolveLoop hloop fun _ hnil => ?_, hbare.1 hread⟩
    rw [placeholders, hnil] at hk
    cases hk
  · intro h
    obtain ⟨hlist, hcolon, hvalue⟩ := h
    rcases resolveParams_eq_at magic hlist hcolon hk hparam with ⟨after, hresolve⟩
    have hlit : litText (type ++ 58 :: value) = 39 :: (value ++ [39]) := by
      rw [litText, htext]
      rfl
    rw [hlit] at hresolve
    refine ⟨_, after, htext, hresolve, hbare.2 hvalue, fun j => ?_⟩
    have hquotes : quotedBy sqlMarks (quotedBy sqlMarks false (textBefore magic request sql k))
        (39 :: (value ++ [39])) = quotedBy sqlMarks false (textBefore magic request sql k) :=
      quotedBy_bare sqlMarks _ hvalue
    have hhole : ∀ quoted s, quotedBy sqlMarks quoted (63 :: s) = quotedBy sqlMarks quoted s :=
      fun quoted s => congrArg (quotedBy sqlMarks · s) (quotedAfter_hole sqlMarks quoted)
    rw [quotedBy_append, quotedBy_append, hquotes, quotedBy_append, hhole]

/-- A name in a text that has a literal before it. -/
theorem becomesLiteral_plainValue :
    BecomesLiteral .empty (paramsRequest (.ofBytes (ascii "varchar:Smith")) none)
      (ascii "select '?', ?") 0 (ascii "varchar:Smith") (ascii "Smith") :=
  (becomesLiteral_iff .empty (paramsRequest (.ofBytes (ascii "varchar:Smith")) none)
    (ascii "select '?', ?") (by decide +kernel) (by decide +kernel)
    (show 58 ∉ ascii "varchar" by decide) (by decide)).2
    ⟨by decide +kernel, by decide +kernel, by decide⟩

/-- A quote in the value ends the literal. -/
theorem not_becomesLiteral_quote :
    ¬BecomesLiteral .empty (paramsRequest (.ofBytes (ascii "varchar:O'Hara")) none)
      (ascii "select ?") 0 (ascii "varchar:O'Hara") (ascii "O'Hara") := by
  intro h
  obtain ⟨text, after, htext, -, hread, -⟩ := h
  have heq : paramText (ascii "varchar:O'Hara") = some (ascii "'O'Hara'") := by
    decide +kernel
  cases heq.symm.trans htext
  revert hread
  decide +kernel

end DbRelay
