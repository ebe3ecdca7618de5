import DbRelay.Form.Splitting
import DbRelay.Query.Placeholders
import DbRelay.Db.FillData
import DbRelay.Wire.Connector

/-!
# What the form writes into the request

`write_value` stores one value under its key, and the loops over `request->params` read
what the calls left there.

* `formRequest_params`: an entry holds the value that was written last with its number.
* `paramsSafe_iff`: when the loops stay inside the array and find each colon.

The log levels and the other fields that no modelled function reads are left out.
-/

namespace DbRelay

/-! ## One value -/

/-- The flag that `write_flag_values` sets for a name. -/
def flagOf (tok : List UInt8) : UInt64 :=
  if tok = ascii "echosql" then flagEchosql
  else if tok = ascii "pp" then flagPp
  else if tok = ascii "xact" then flagXact
  else if tok = ascii "embedcsv" then flagEmbedcsv
  else if tok = ascii "nomagic" then flagNomagic
  else 0

/-- `write_flag_values`. -/
def writeFlagValues (request : Request) (value : CString) : Request :=
  (value.bytes.splitOn 44).foldl
    (fun request tok => { request with flags := request.flags ||| flagOf tok }) request

/-- The number of `paramN`, as an `unsigned int`. -/
def paramNumber (key : CString) : Nat := (atoi (key.bytes.drop 5) % 2 ^ 32).toNat

/-- The branch of `write_value` for `paramN`. -/
def writeParam (request : Request) (key value : CString) : Request :=
  if maxParams < paramNumber key then request
  else if 0 < paramNumber key then
    { request with params := request.params.setIfInBounds (paramNumber key - 1) (some value) }
  else request

/-- The value after `write_value` has unescaped it. -/
def unescapedValue (u : Unescape) (value : CString) : CString :=
  .ofBytes (unescapeBytes u (value.bytes ++ [0]))

/-- The branches of `write_value`. -/
def storeValue (request : Request) (key value : CString) : Request :=
  if key.bytes = ascii "sql_database" then
    { request with sqlDatabase := copyString value.bytes }
  else if key.bytes = ascii "sql_server" then
    { request with sqlServer := copyString value.bytes }
  else if key.bytes = ascii "sql_user" then { request with sqlUser := copyString value.bytes }
  else if key.bytes = ascii "sql_port" then { request with sqlPort := copyString value.bytes }
  else if key.bytes = ascii "sql" then { request with sql := some value }
  else if key.bytes = ascii "query_tag" then { request with queryTag := copyString value.bytes }
  else if key.bytes = ascii "sql_password" then
    { request with sqlPassword := copyString value.bytes }
  else if key.bytes = ascii "connection_name" then
    { request with connectionName := copyString value.bytes }
  else if key.bytes = ascii "connection_timeout" then
    { request with connectionTimeout := Int64.ofInt (Decimal.atol value.bytes) }
  else if (ascii "param").isPrefixOf key.bytes then writeParam request key value
  else if key.bytes = ascii "flags" then writeFlagValues request value
  else if key.bytes = ascii "js_callback" then
    { request with jsCallback := copyString value.bytes }
  else if key.bytes = ascii "js_error" then { request with jsError := copyString value.bytes }
  else request

/-- `write_value`. -/
def writeValue (u : Unescape) (request : Request) (call : CString × CString) : Request :=
  storeValue request call.1 (unescapedValue u call.2)

/-- The request after the calls of `write_value`. -/
def formRequest (u : Unescape) (calls : List (CString × CString)) : Request :=
  calls.foldl (writeValue u) allocRequest

/-! ## The array of the parameters -/

/-- The entry that a key writes. -/
def paramEntry (key : CString) : Option Nat :=
  if (ascii "param").isPrefixOf key.bytes = true ∧ 0 < paramNumber key ∧
      paramNumber key ≤ maxParams then some (paramNumber key - 1)
  else none

/-- The value that was written last to an entry. -/
def lastWritten (u : Unescape) (calls : List (CString × CString)) (k : Nat) : Option CString :=
  (calls.reverse.find? fun call => paramEntry call.1 = some k).map fun call =>
    unescapedValue u call.2

theorem writeFlagValues_params (request : Request) (value : CString) :
    (writeFlagValues request value).params = request.params := by
  unfold writeFlagValues
  induction value.bytes.splitOn 44 generalizing request with
  | nil => rfl
  | cons tok toks ih => exact ih { request with flags := request.flags ||| flagOf tok }

theorem writeParam_params (request : Request) (key value : CString)
    (hkey : (ascii "param").isPrefixOf key.bytes = true) (k : Nat) :
    (writeParam request key value).params.toList[k]? =
      if paramEntry key = some k then some (some value) else request.params.toList[k]? := by
  unfold writeParam paramEntry
  by_cases hlarge : maxParams < paramNumber key
  · rw [if_pos hlarge, if_neg (c := _ ∧ _ ∧ _) fun h => absurd h.2.2 (by omega)]
    rfl
  · rw [if_neg hlarge]
    by_cases hpos : 0 < paramNumber key
    · have hentry : paramNumber key - 1 < maxParams := by omega
      rw [if_pos hpos, if_pos (c := _ ∧ _ ∧ _) ⟨hkey, hpos, by omega⟩]
      simp only [Vector.toList_setIfInBounds, Option.some.injEq]
      rw [List.getElem?_set, Vector.length_toList, if_pos hentry]
    · rw [if_neg hpos, if_neg (c := _ ∧ _ ∧ _) fun h => hpos h.2.1]
      rfl

/-- A key of another field does not start like a parameter. -/
theorem storeValue_params (request : Request) (key value : CString) (k : Nat) :
    (storeValue request key value).params.toList[k]? =
      if paramEntry key = some k then some (some value) else request.params.toList[k]? := by
  by_cases hkey : (ascii "param").isPrefixOf key.bytes = true
  · have hother : ∀ name : List UInt8, (ascii "param").isPrefixOf name = false →
        key.bytes ≠ name := by
      intro name hname heq
      rw [heq, hname] at hkey
      cases hkey
    rw [← writeParam_params request key value hkey]
    unfold storeValue
    rw [if_neg (hother _ (by decide)), if_neg (hother _ (by decide)),
      if_neg (hother _ (by decide)), if_neg (hother _ (by decide)),
      if_neg (hother _ (by decide)), if_neg (hother _ (by decide)),
      if_neg (hother _ (by decide)), if_neg (hother _ (by decide)),
      if_neg (hother _ (by decide)), if_pos hkey]
  · rw [if_neg (show ¬paramEntry key = some k by rw [paramEntry, if_neg fun h => hkey h.1]; simp)]
    have hparams : (storeValue request key value).params = request.params := by
      simp only [storeValue, if_neg hkey, apply_ite Request.params, writeFlagValues_params,
        ite_self]
    rw [hparams]

theorem lastWritten_concat (u : Unescape) (calls : List (CString × CString))
    (call : CString × CString) (k : Nat) :
    lastWritten u (calls ++ [call]) k =
      if paramEntry call.1 = some k then some (unescapedValue u call.2)
      else lastWritten u calls k := by
  rw [lastWritten, List.reverse_append, List.reverse_singleton, List.singleton_append,
    List.find?_cons]
  by_cases h : paramEntry call.1 = some k
  · rw [decide_eq_true h, if_pos h]
    rfl
  · rw [decide_eq_false h, if_neg h]
    rfl

/-- An entry holds the value that was written last with its number. -/
theorem formRequest_params (u : Unescape) (calls : List (CString × CString)) {k : Nat}
    (hk : k < maxParams) :
    (formRequest u calls).params.toList[k]? = some (lastWritten u calls k) := by
  induction calls using List.reverseRecOn with
  | nil =>
    show (Vector.replicate maxParams none).toList[k]? = some none
    rw [Vector.toList_replicate, List.getElem?_replicate, if_pos hk]
  | append_singleton calls call ih =>
    rw [formRequest, List.foldl_concat, ← formRequest, writeValue, storeValue_params, ih,
      lastWritten_concat]
    split
    · rfl
    · rfl

/-! ## The loops over the array -/

/-- The loops `while (request->params[i])` read the entry `i` when no entry before it is
`NULL`. -/
def Request.ReadsParam (request : Request) (i : Nat) : Prop :=
  ∀ j < i, ∃ param, request.params.toList[j]? = some (some param)

theorem readsParam_lt_iff {request : Request} :
    (∀ i, request.ReadsParam i → i < maxParams) ↔ none ∈ request.params.toList := by
  constructor
  · intro hreads
    by_contra hfull
    refine Nat.lt_irrefl maxParams (hreads maxParams fun j hj => ?_)
    have hlt : j < request.params.toList.length := by
      rw [Vector.length_toList]
      exact hj
    have hmem := List.getElem_mem hlt
    cases hparam : request.params.toList[j] with
    | none =>
      rw [hparam] at hmem
      exact absurd hmem hfull
    | some param => exact ⟨param, by rw [List.getElem?_eq_getElem hlt, hparam]⟩
  · intro hnone i hreads
    by_contra hlarge
    rcases List.mem_iff_getElem?.1 hnone with ⟨k, hk⟩
    have hlt : k < maxParams := by
      have := (List.getElem?_eq_some_iff.1 hk).1
      rwa [Vector.length_toList] at this
    rcases hreads k (by omega) with ⟨param, hparam⟩
    rw [hparam] at hk
    cases hk

/-- The elements before the first `none`. -/
theorem mem_filterMap_takeWhile {α β : Type} {f : α → β} {l : List (Option α)} {b : β} :
    b ∈ (l.takeWhile Option.isSome).filterMap (fun a => a.map f) ↔
      ∃ (k : Nat) (a : α), (∀ j < k, ∃ a, l[j]? = some (some a)) ∧ l[k]? = some (some a) ∧
        f a = b := by
  induction l with
  | nil => simp
  | cons x l ih =>
    cases x with
    | none =>
      refine iff_of_false (by simp) ?_
      intro h
      obtain ⟨k, a, hbefore, hk, -⟩ := h
      cases k with
      | zero => cases hk
      | succ k =>
        rcases hbefore 0 (Nat.succ_pos k) with ⟨a, ha⟩
        cases ha
    | some x =>
      rw [List.takeWhile_cons_of_pos rfl, List.filterMap_cons_some (Option.map_some x f),
        List.mem_cons, ih]
      constructor
      · intro h
        rcases h with rfl | ⟨k, a, hbefore, hk, ha⟩
        · exact ⟨0, x, fun j hj => absurd hj (Nat.not_lt_zero j), rfl, rfl⟩
        · refine ⟨k + 1, a, fun j hj => ?_, hk, ha⟩
          cases j with
          | zero => exact ⟨x, rfl⟩
          | succ j => exact hbefore j (Nat.lt_of_succ_lt_succ hj)
      · intro h
        obtain ⟨k, a, hbefore, hk, ha⟩ := h
        cases k with
        | zero =>
          cases hk
          exact .inl ha.symm
        | succ k => exact .inr ⟨k, a, fun j hj => hbefore (j + 1) (Nat.succ_lt_succ hj), hk, ha⟩

theorem mem_setParams {request : Request} {param : List UInt8} :
    param ∈ request.setParams ↔
      ∃ k value, request.ReadsParam k ∧ request.params.toList[k]? = some (some value) ∧
        value.bytes = param :=
  mem_filterMap_takeWhile

/-- There is a result exactly when the array has an end, and each parameter before it has
a colon as far as there is a placeholder. -/
theorem resolveParams_isSome_iff (magic : CString) (request : Request) (sql : List UInt8) :
    (resolveParams magic request sql).isSome = true ↔
      none ∈ request.params.toList ∧
        (placeholders sql = 0 ∨ ∀ param ∈ request.setParams, 58 ∈ param) := by
  have hlist : request.paramList =
      if none ∈ request.params.toList then some request.setParams else none := rfl
  rw [resolveParams, hlist]
  by_cases hnone : none ∈ request.params.toList
  · rw [if_pos hnone, and_iff_right hnone, Option.bind_some, placeholders,
      List.length_eq_zero_iff]
    constructor
    · intro hsome
      rcases Option.isSome_iff_exists.1 hsome with ⟨text, htext⟩
      by_cases hcut : (Template.cut sqlMarks false sql).2 = []
      · exact .inl hcut
      · exact .inr (colon_of_resolveLoop htext fun _ => hcut)
    · intro hgiven
      rcases hgiven with hcut | hcolon
      · rcases findPlaceholder_cut false sql with ⟨hfind, -⟩ | ⟨i, -, hcut'⟩
        · rw [resolveLoop_of_none (.inr hfind)]
          rfl
        · rw [hcut'] at hcut
          cases hcut
      · rw [resolveLoop_eq true sql _ hcolon]
        rfl
  · rw [if_neg hnone]
    exact iff_of_false (by simp) fun h => hnone h.1

/-! ## What a form can do -/

/-- The loops stay inside the array, and each colon is found before it is used. -/
def ParamsSafe (magic : CString) (request : Request) (sql : List UInt8) : Prop :=
  (∀ i, request.ReadsParam i → i < maxParams) ∧ (resolveParams magic request sql).isSome = true

/-- The loops are safe exactly when one of the numbers was never written, and, as far as
the text has a placeholder, each value before the first such number has a colon. -/
theorem paramsSafe_iff (u : Unescape) (magic : CString) (calls : List (CString × CString))
    (sql : List UInt8) :
    ParamsSafe magic (formRequest u calls) sql ↔
      (∃ k < maxParams, lastWritten u calls k = none) ∧
        (placeholders sql = 0 ∨
          ∀ k < maxParams, ∀ value, (∀ j < k, (lastWritten u calls j).isSome = true) →
            lastWritten u calls k = some value → 58 ∈ value.bytes) := by
  have hentry : ∀ {k : Nat}, k < maxParams →
      (formRequest u calls).params.toList[k]? = some (lastWritten u calls k) :=
    formRequest_params u calls
  have hlength : (formRequest u calls).params.toList.length = maxParams := Vector.length_toList
  have hend : none ∈ (formRequest u calls).params.toList ↔
      ∃ k < maxParams, lastWritten u calls k = none := by
    rw [List.mem_iff_getElem?]
    constructor
    · intro hgiven
      obtain ⟨k, hk⟩ := hgiven
      have hlt : k < maxParams := hlength ▸ (List.getElem?_eq_some_iff.1 hk).1
      rw [hentry hlt] at hk
      exact ⟨k, hlt, Option.some.inj hk⟩
    · intro hgiven
      obtain ⟨k, hlt, hk⟩ := hgiven
      exact ⟨k, by rw [hentry hlt, hk]⟩
  have hreads : ∀ {k : Nat}, k < maxParams →
      ((formRequest u calls).ReadsParam k ↔ ∀ j < k, (lastWritten u calls j).isSome = true) := by
    intro k hlt
    refine forall₂_congr fun j hj => ?_
    rw [hentry (hj.trans hlt), Option.isSome_iff_exists]
    exact exists_congr fun value => Option.some_inj
  have hcolon : (∀ param ∈ (formRequest u calls).setParams, 58 ∈ param) ↔
      ∀ k < maxParams, ∀ value, (∀ j < k, (lastWritten u calls j).isSome = true) →
        lastWritten u calls k = some value → 58 ∈ value.bytes := by
    constructor
    · intro h k hlt value hbefore hk
      exact h _ (mem_setParams.2 ⟨k, value, (hreads hlt).2 hbefore, by rw [hentry hlt, hk], rfl⟩)
    · intro h param hparam
      rcases mem_setParams.1 hparam with ⟨k, value, hbefore, hk, rfl⟩
      have hlt : k < maxParams := hlength ▸ (List.getElem?_eq_some_iff.1 hk).1
      rw [hentry hlt] at hk
      exact h k hlt value ((hreads hlt).1 hbefore) (Option.some.inj hk)
  rw [ParamsSafe, readsParam_lt_iff, resolveParams_isSome_iff, hend, hcolon]
  exact and_self_left

/-- The calls that write all numbers. -/
def allParams : List (CString × CString) :=
  (List.range maxParams).map fun i =>
    (.ofBytes (ascii "param" ++ Decimal.decimal (i + 1)), .ofBytes (ascii "int:1"))

/-- A parameter without a colon is written through `NULL`, and all hundred parameters leave
no `NULL` in the array. -/
theorem not_paramsSafe_noColon_full :
    ¬ParamsSafe .empty
        (formRequest decodePlain [(.ofBytes (ascii "param1"), .ofBytes (ascii "5"))])
        (ascii "select ?") ∧
      ¬ParamsSafe .empty (formRequest decodePlain allParams) (ascii "select 1") := by
  constructor
  · intro h
    have hnone : resolveParams .empty
        (formRequest decodePlain [(.ofBytes (ascii "param1"), .ofBytes (ascii "5"))])
        (ascii "select ?") = none := by
      decide +kernel
    rw [ParamsSafe, hnone] at h
    cases h.2
  · intro h
    have hfull : none ∉ (formRequest decodePlain allParams).params.toList := by
      decide +kernel
    exact hfull (readsParam_lt_iff.1 h.1)

end DbRelay
