import DbRelay.Wire.Settings
import DbRelay.Params
import Mathlib.Algebra.Order.BigOperators.Group.List

/-!
# The SQL text that is executed

A request without a connection name is executed in the worker, and any other
one by a connector.  `execTexts` are the texts that `dbrelay_exec_query` gets.

* `SqlEffect`: what a line can do to the SQL of the connector.
* `Bounded`: a body that ended early never grows back to the text that was
  sent, because the line that ended it is lost.
* `executesResolved_iff`: when both ways execute the same text.
-/

namespace DbRelay

open Framing

/-! ## What a line does to the SQL -/

/-- The body that is collected. -/
def SqlBuffer.body : SqlBuffer → List UInt8
  | .opened body => body
  | _ => []

/-- What a line can do to the SQL of the connector: it is collected, it leaves
the SQL alone, it opens a body, or it ends the body. -/
inductive SqlEffect (line : List UInt8) (c c' : Connector) : Prop
  | collects (hbody : ¬ ascii ":SQL END" <+: line) (hsql : c'.request.sql = c.request.sql)
      (hbuffer : c'.sbSql.body = c.sbSql.body ++ line)
  | keeps (hsql : c'.request.sql = c.request.sql) (hbuffer : c'.sbSql = c.sbSql)
  | opens (hsql : c'.request.sql = none) (hbuffer : c'.sbSql.body = [])
  | ends (hsql : c'.request.sql = some (.ofBytes c.sbSql.body)) (hbuffer : c'.sbSql.body = [])

theorem sqlEffect_sqlCommand {c c' : Connector} {value : Option (List UInt8)}
    {command : Option Command} (line : List UInt8)
    (h : c.sqlCommand value = some (c', command)) : SqlEffect line c c' := by
  unfold Connector.sqlCommand at h
  cases value with
  | none => cases h
  | some src =>
    simp only at h
    split at h
    · obtain ⟨rfl, -⟩ := Prod.mk.inj (Option.some.inj h)
      exact .opens rfl rfl
    · split at h
      · cases hbuffer : c.sbSql with
        | opened body =>
          rw [hbuffer] at h
          obtain ⟨rfl, -⟩ := Prod.mk.inj (Option.some.inj h)
          exact .ends (by rw [hbuffer]; rfl) rfl
        | null | freed =>
          rw [hbuffer] at h
          cases h
      · obtain ⟨rfl, -⟩ := Prod.mk.inj (Option.some.inj h)
        exact .keeps rfl rfl

theorem store_sql {c c' : Connector} {value : Option (List UInt8)} {setting : Setting}
    {text : List UInt8} (h : c.store value setting = some (c', text)) :
    c'.request.sql = c.request.sql ∧ c'.sbSql = c.sbSql := by
  cases setting with
  | name => cases h
  | flags =>
    obtain ⟨src, -, heq⟩ := Option.map_eq_some_iff.1 h
    obtain ⟨rfl, -⟩ := Prod.mk.inj heq
    exact ⟨rfl, rfl⟩
  | _ =>
    obtain ⟨rfl, -⟩ := Prod.mk.inj (Option.some.inj h)
    exact ⟨rfl, rfl⟩

theorem sqlEffect_processCommand {c c' : Connector} {line : List UInt8}
    {command : Option Command} (h : c.processCommand line = some (c', command)) :
    SqlEffect line c c' := by
  rcases c.processCommand_cases h with rfl | ⟨value, setting, text, hstore⟩ | ⟨value, hsql⟩
  · exact .keeps rfl rfl
  · obtain ⟨hsql, hbuffer⟩ := store_sql hstore
    exact .keeps hsql hbuffer
  · exact sqlEffect_sqlCommand line hsql

/-- Every line has one of the four effects. -/
theorem sqlEffect_processLine {c c' : Connector} {line : List UInt8}
    {command : Option Command} (h : c.processLine line = some (c', command)) :
    SqlEffect line c c' := by
  rcases c.processLine_cases h with ⟨hbody, body, hbuffer, rfl⟩ | h
  · exact .collects (bodyLine_iff.1 hbody) rfl (by rw [hbuffer]; rfl)
  · exact sqlEffect_processCommand h

/-! ## A body that ended early -/

/-- A byte of `":SQL END"` that is in no other line of the protocol. -/
def mark : UInt8 := 68

/-- How much of the mark a line can add to the body. -/
def markCost (line : List UInt8) : Nat :=
  if bodyLine line then line.count mark else 0

/-- The mark in the body that is collected. -/
def Connector.load (c : Connector) : Nat := c.sbSql.body.count mark

/-- No text that was run, or that waits for a run, has more of the mark than
`bound`. -/
structure Bounded (bound : Nat) (s : Session) : Prop where
  runs : ∀ r ∈ s.runs, r.sqlText.count mark ≤ bound
  sql : s.connector.request.sqlText.count mark ≤ bound

theorem count_ofBytes_le (b : UInt8) (bytes : List UInt8) :
    (CString.ofBytes bytes).bytes.count b ≤ bytes.count b :=
  (List.takeWhile_sublist _).count_le b

theorem SqlEffect.sqlText_le {line : List UInt8} {c c' : Connector}
    (h : SqlEffect line c c') {bound : Nat} (hsql : c.request.sqlText.count mark ≤ bound)
    (hload : c.load ≤ bound) : c'.request.sqlText.count mark ≤ bound := by
  unfold Request.sqlText at hsql ⊢
  cases h with
  | collects _ hsame _ => rwa [hsame]
  | keeps hsame _ => rwa [hsame]
  | opens hnone _ =>
    rw [hnone]
    exact Nat.zero_le _
  | ends hsome _ =>
    rw [hsome]
    exact (count_ofBytes_le mark _).trans hload

theorem SqlEffect.load_le {line : List UInt8} {c c' : Connector}
    (h : SqlEffect line c c') : c'.load ≤ c.load + markCost line := by
  unfold Connector.load
  cases h with
  | collects hbody _ hbuffer =>
    rw [hbuffer, List.count_append, markCost, if_pos (bodyLine_iff.2 hbody)]
  | keeps _ hbuffer =>
    rw [hbuffer]
    exact Nat.le_add_right _ _
  | opens _ hbuffer | ends _ hbuffer =>
    rw [hbuffer]
    exact Nat.zero_le _

/-- An answer changes neither the request nor the buffer. -/
theorem Session.respond_keeps (s : Session) (backend : Backend) (pid : Nat) (ret : Ret) :
    (s.respond backend pid ret).session.connector.request = s.connector.request ∧
      (s.respond backend pid ret).session.connector.sbSql = s.connector.sbSql := by
  obtain ⟨connected, h⟩ := s.respond_connector backend pid ret
  rw [h]
  exact ⟨rfl, rfl⟩

/-- One line. -/
theorem Bounded.takeLine {bound : Nat} {s : Session} (h : Bounded bound s)
    (hload : s.connector.load ≤ bound) (backend : Backend) (pid : Nat) (line : List UInt8) :
    Bounded bound (s.takeLine backend pid line).session ∧
      (s.takeLine backend pid line).session.connector.load ≤
        s.connector.load + markCost line := by
  unfold Session.takeLine
  cases hline : s.connector.processLine line with
  | none => exact ⟨h, Nat.le_add_right _ _⟩
  | some result =>
    obtain ⟨c, command⟩ := result
    have heffect := sqlEffect_processLine hline
    have hsql := heffect.sqlText_le h.sql hload
    cases command with
    | none => exact ⟨⟨h.runs, hsql⟩, heffect.load_le⟩
    | some command =>
      simp only
      obtain ⟨hrequest, hbuffer⟩ := Session.respond_keeps
        { s with connector := c, trace := s.trace ++ [(command, c.request)] }
        backend pid command.ret
      refine ⟨⟨?_, ?_⟩, ?_⟩
      · intro r hr
        rw [Session.runs, Session.respond_trace, List.filterMap_append, List.mem_append] at hr
        rcases hr with hr | hr
        · exact h.runs r hr
        · obtain ⟨entry, hentry, hsome⟩ := List.mem_filterMap.1 hr
          obtain rfl := List.mem_singleton.1 hentry
          split at hsome
          · rw [← Option.some.inj hsome]
            exact hsql
          · cases hsome
      · rwa [hrequest]
      · unfold Connector.load
        rw [hbuffer]
        exact heffect.load_le

/-- Several lines, if they cannot add more of the mark than the bound. -/
theorem Bounded.serveLines {bound : Nat} {s : Session} (h : Bounded bound s)
    (backend : Backend) (pid : Nat) {lines : List (List UInt8)}
    (hload : s.connector.load + (lines.map markCost).sum ≤ bound) :
    Bounded bound (serveLines backend pid s lines).1 := by
  induction lines generalizing s with
  | nil => exact h
  | cons line lines ih =>
    rw [List.map_cons, List.sum_cons] at hload
    obtain ⟨hnext, hle⟩ := h.takeLine (by omega) backend pid line
    rw [DbRelay.serveLines]
    cases hturn : s.takeLine backend pid line with
    | stops s' how =>
      rw [hturn] at hnext
      exact hnext
    | continues s' =>
      rw [hturn] at hnext hle
      simp only [Turn.session] at hnext hle
      exact ih hnext (by omega)

/-- The pieces of a body that ends early. -/
theorem markCost_sum_lt {lines : List (List UInt8)} {line : List UInt8} (hmem : line ∈ lines)
    (hline : ascii ":SQL END" <+: line) :
    (lines.map markCost).sum < lines.flatten.count mark := by
  have hle : ∀ l : List UInt8, markCost l ≤ l.count mark := by
    intro l
    unfold markCost
    split
    · exact le_rfl
    · exact Nat.zero_le _
  have hlt : markCost line < line.count mark := by
    have hbody : bodyLine line = false := by
      rw [Bool.eq_false_iff]
      exact fun h => bodyLine_iff.1 h hline
    have hcount := hline.sublist.count_le mark
    have hpos : 0 < (ascii ":SQL END").count mark := by decide
    rw [markCost, hbody, if_neg Bool.false_ne_true]
    omega
  rw [List.count_flatten]
  exact List.sum_lt_sum _ _ (fun l _ => hle l) ⟨line, hmem, hlt⟩

theorem Session.beginSql_runs (s : Session) : s.beginSql.runs = s.runs := by
  show (Session.record _ .sqlBegin).runs = s.runs
  rw [Session.runs_append, if_neg (by simp), List.append_nil]
  rfl

/-- When the body ends early, no text that is run has all of the mark. -/
theorem count_lt_of_endsEarly (pid : Nat) (c : Connector) (session : ClientSession)
    (hvalues : ∀ o ∈ session.request.options, newline ∉ o.2) {p : List UInt8}
    (hp : p ∈ session.request.bodyPieces) (hpre : ascii ":SQL END" <+: p) :
    ∀ r ∈ (serve session.backend pid c.newSession {} session.events).1.runs,
      r.sqlText.count mark < session.request.body.count mark := by
  have hlt := markCost_sum_lt hp hpre
  rw [session.request.bodyPieces_flatten] at hlt
  rw [serve_lines, serveLines_begin session.backend pid rfl hvalues, cut_quit]
  have hruns : ((session.request.options.foldl Session.takeOption
      (c.newSession.greeted pid)).beginSql).runs = [] := by
    rw [Session.beginSql_runs, foldl_takeOption_runs]
    rfl
  have hbounded : Bounded (session.request.body.count mark - 1)
      (session.request.options.foldl Session.takeOption
        (c.newSession.greeted pid)).beginSql := by
    refine ⟨fun r hr => ?_, Nat.zero_le _⟩
    rw [hruns] at hr
    cases hr
  have hcost : ((session.request.bodyPieces ++
      [ascii ":SQL END\n", ascii ":RUN\n", ascii ":QUIT\n"]).map markCost).sum ≤
        session.request.body.count mark - 1 := by
    have hrest : ([ascii ":SQL END\n", ascii ":RUN\n", ascii ":QUIT\n"].map markCost).sum =
        0 := by decide
    rw [List.map_append, List.sum_append, hrest]
    omega
  have hall := hbounded.serveLines session.backend pid ((Nat.zero_add _).trans_le hcost)
  intro r hr
  have hle := hall.runs r hr
  omega

/-! ## Both ways to execute a request -/

/-- The texts that `dbrelay_exec_query` gets for a request once the login
succeeded, with `none` for a `NULL`.  A worker that writes past `tmp` sends
nothing that could be said. -/
def execTexts (magic : CString) (pid : Nat) (c : Connector) (session : ClientSession) :
    Option (List (Option (List UInt8))) :=
  if session.request.named then
    if session.request.NumbersFit then
      some ((serve session.backend pid c.newSession {} session.events).1.runs.map
        fun r => r.sql.map CString.bytes)
    else none
  else some [resolveParams magic session.request session.request.sqlText]

/-- Equal up to one newline at the end. -/
def SameUpToNewline (s t : List UInt8) : Prop :=
  s = t ∨ s = t ++ [newline] ∨ t = s ++ [newline]

theorem SameUpToNewline.count_eq {s t : List UInt8} (h : SameUpToNewline s t) {b : UInt8}
    (hb : b ≠ newline) : s.count b = t.count b := by
  have happend : ∀ l : List UInt8, (l ++ [newline]).count b = l.count b := by
    intro l
    rw [List.count_append, List.count_singleton, beq_false_of_ne hb.symm]
    rfl
  rcases h with rfl | rfl | rfl
  · rfl
  · exact happend t
  · exact (happend s).symm

/-- The text of a request is executed once, as resolved. -/
def ExecutesResolved (magic : CString) (pid : Nat) (c : Connector) (session : ClientSession)
    (resolved : List UInt8) : Prop :=
  ∃ text, execTexts magic pid c session = some [some text] ∧ SameUpToNewline text resolved

/-- The connector runs a well delimited request with its SQL and a newline. -/
theorem execTexts_of_wellDelimited (magic : CString) (pid : Nat) (c : Connector)
    {session : ClientSession} (hnamed : session.request.named = true)
    (hfit : session.request.NumbersFit) (h : WellDelimited session.request) :
    execTexts magic pid c session = some [some session.request.body] := by
  have hnul : 0 ∉ session.request.body := by
    rw [Request.body, List.mem_append, not_or]
    exact ⟨(session.request.sql.getD .empty).noNul, by decide⟩
  have hbytes : (CString.ofBytes session.request.body).bytes = session.request.body :=
    CString.ofBytes_bytes_eq_iff.2 hnul
  have htexts : ∀ s : Session, s.runs = [c.requestOf session] →
      some (s.runs.map fun r => r.sql.map CString.bytes) = some [some session.request.body] := by
    intro s hruns
    rw [hruns, List.map_singleton, Connector.requestOf, Option.map_some, hbytes]
  rw [execTexts, if_pos hnamed, if_pos hfit]
  obtain ⟨s, hruns, hserve | ⟨hserve, -⟩⟩ := serve_session_runs pid c h
  · rw [hserve]
    exact htexts s hruns
  · rw [hserve]
    exact htexts s hruns

/-- Resolving takes no mark away. -/
theorem count_le_of_resolveParams {magic : CString} {request : Request}
    {sql resolved : List UInt8} (h : resolveParams magic request sql = some resolved) :
    sql.count mark ≤ resolved.count mark := by
  obtain ⟨params, -, hloop⟩ := Option.bind_eq_some_iff.1 h
  have hle := count_le_of_resolveLoop (by decide : mark ≠ 63) hloop
  omega

/-- A body that ends early is not executed as resolved. -/
theorem not_executesResolved_of_endsEarly {magic : CString} {pid : Nat} {c : Connector}
    {session : ClientSession} (hvalues : ∀ o ∈ session.request.options, newline ∉ o.2)
    (hnamed : session.request.named = true) {resolved : List UInt8}
    (hresolved : resolveParams magic session.request session.request.sqlText =
      some resolved) {p : List UInt8} (hp : p ∈ session.request.bodyPieces)
    (hpre : ascii ":SQL END" <+: p) : ¬ ExecutesResolved magic pid c session resolved := by
  intro h
  obtain ⟨text, htexts, hsame⟩ := h
  rw [execTexts, if_pos hnamed] at htexts
  split at htexts
  swap
  · cases htexts
  obtain ⟨r, hr, htext⟩ :=
    List.mem_map.1 (Option.some.inj htexts ▸ List.mem_singleton_self (some text))
  have hlt := count_lt_of_endsEarly pid c session hvalues hp hpre r hr
  have hcount : r.sqlText.count mark = text.count mark := by
    obtain ⟨sql, hsql, rfl⟩ := Option.map_eq_some_iff.1 htext
    rw [Request.sqlText, hsql, Option.getD_some]
  have hbody : session.request.body.count mark = session.request.sqlText.count mark :=
    (SameUpToNewline.count_eq (.inr (.inl rfl)) (by decide))
  have hkept := count_le_of_resolveParams hresolved
  have heq := hsame.count_eq (by decide : mark ≠ newline)
  omega

/-- A request that is executed by a connector has numbers that fit. -/
theorem ExecutesResolved.numbersFit {magic : CString} {pid : Nat} {c : Connector}
    {session : ClientSession} {resolved : List UInt8}
    (h : ExecutesResolved magic pid c session resolved)
    (hnamed : session.request.named = true) : session.request.NumbersFit := by
  obtain ⟨text, htexts, -⟩ := h
  by_contra hfit
  rw [execTexts, if_pos hnamed, if_neg hfit] at htexts
  cases htexts

/-- A request is executed as resolved if and only if it has no connection name, or its
numbers fit, no piece of its SQL ends the body and resolving changes nothing but a newline at
the end.  The values of a named one are on one line. -/
theorem executesResolved_iff (magic : CString) (pid : Nat) (c : Connector)
    (session : ClientSession)
    (hvalues : session.request.named = true → ∀ o ∈ session.request.options, newline ∉ o.2)
    {resolved : List UInt8}
    (hresolved : resolveParams magic session.request session.request.sqlText =
      some resolved) :
    ExecutesResolved magic pid c session resolved ↔
      (session.request.named = true →
        session.request.NumbersFit ∧
        (∀ p ∈ session.request.bodyPieces, ¬ ascii ":SQL END" <+: p) ∧
        SameUpToNewline session.request.body resolved) := by
  by_cases hnamed : session.request.named = true
  · have hlines := hvalues hnamed
    constructor
    · intro h _
      have hfit := h.numbersFit hnamed
      have hbody : ∀ p ∈ session.request.bodyPieces, ¬ ascii ":SQL END" <+: p :=
        fun p hp hpre => not_executesResolved_of_endsEarly hlines hnamed hresolved hp hpre h
      obtain ⟨text, htexts, hsame⟩ := h
      rw [execTexts_of_wellDelimited magic pid c hnamed hfit ⟨hlines, hbody⟩] at htexts
      obtain rfl := Option.some.inj (List.singleton_inj.1 (Option.some.inj htexts))
      exact ⟨hfit, hbody, hsame⟩
    · intro h
      obtain ⟨hfit, hbody, hsame⟩ := h hnamed
      exact ⟨_, execTexts_of_wellDelimited magic pid c hnamed hfit ⟨hlines, hbody⟩, hsame⟩
  · constructor
    · intro _ h
      exact absurd h hnamed
    · intro _
      refine ⟨resolved, ?_, .inl rfl⟩
      rw [execTexts, if_neg hnamed, hresolved]

/-- `"select 1"` has no placeholder. -/
def plainSession : ClientSession :=
  sessionOf (namedRequest (.ofBytes (ascii "select 1"))) (by decide +kernel)

theorem executesResolved_plain :
    ExecutesResolved .empty 1 {} plainSession (ascii "select 1") :=
  (executesResolved_iff .empty 1 {} plainSession (fun _ => by decide +kernel)
    (by decide +kernel)).2
    fun _ => ⟨by decide, by decide +kernel, .inr (.inl (by decide +kernel))⟩

/-- `"select ?"` with the parameter 5. -/
def paramRequest : Request :=
  { namedRequest (.ofBytes (ascii "select ?")) with
    params := (Vector.replicate maxParams none).set 0 (some (.ofBytes (ascii "int:5")))
      (by decide) }

def paramSession : ClientSession := sessionOf paramRequest (by decide +kernel)

/-- The connector executes the placeholder. -/
theorem not_executesResolved_param :
    ¬ ∀ (magic : CString) (pid : Nat) (c : Connector) (session : ClientSession)
      (resolved : List UInt8),
      resolveParams magic session.request session.request.sqlText = some resolved →
      ExecutesResolved magic pid c session resolved := by
  intro h
  have hresolved : resolveParams .empty paramSession.request paramSession.request.sqlText =
      some (ascii "select 5") := by decide +kernel
  have hdelimited : WellDelimited paramSession.request :=
    ⟨by decide +kernel, by decide +kernel⟩
  obtain ⟨text, htexts, hsame⟩ := h .empty 1 {} paramSession _ hresolved
  rw [execTexts_of_wellDelimited .empty 1 {} rfl (by decide) hdelimited] at htexts
  obtain rfl := Option.some.inj (List.singleton_inj.1 (Option.some.inj htexts))
  revert hsame
  unfold SameUpToNewline
  decide +kernel

/-- Resolving has nothing to do: no prefix is set, and no parameter meets a
placeholder. -/
def NothingToResolve (magic : CString) (request : Request) : Prop :=
  magicText magic request = [] ∧ ∃ params, request.paramList = some params ∧
    (params = [] ∨ findPlaceholder false request.sqlText = none)

/-- Such a request is executed as resolved either way, if it is framed and its numbers fit. -/
theorem executesResolved_of_nothingToResolve {magic : CString} {session : ClientSession}
    (hresolve : NothingToResolve magic session.request) (hfit : session.request.NumbersFit)
    (h : WellDelimited session.request) (pid : Nat) (c : Connector) :
    ExecutesResolved magic pid c session session.request.sqlText := by
  obtain ⟨hmagic, params, hparams, hnone⟩ := hresolve
  by_cases hnamed : session.request.named = true
  · exact ⟨_, execTexts_of_wellDelimited magic pid c hnamed hfit h, .inr (.inl rfl)⟩
  · refine ⟨_, ?_, .inl rfl⟩
    rw [execTexts, if_neg hnamed, resolveParams, hparams, Option.bind_some, hmagic,
      resolveLoop_of_none hnone, List.nil_append]

end DbRelay
