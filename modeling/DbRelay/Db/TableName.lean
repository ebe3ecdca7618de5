import DbRelay.Query.Placeholders

/-!
# Table names

`split_tablename` splits the text of a table into the names of its schema and of the table
itself, and `dbrelay_mssql_catalogsql` puts them into the queries of the catalog.

* `firstDot_append`: the scan passes a text without a free dot, and keeps its two flags.
* `splitTablename_written_iff`: which ways of writing the names are split back.
* `splitTablename_catalogsql_iff`: for which of them the queries name the table.
-/

namespace DbRelay

open Template

/-! ## The functions -/

def quoteAfter (quote : Bool) (c : UInt8) : Bool := if c = 34 then !quote else quote

def bracketAfter (bracket : Bool) (c : UInt8) : Bool :=
  let bracket := if bracket = false ∧ c = 91 then true else bracket
  if bracket = true ∧ c = 93 then false else bracket

/-- The position of the first dot with both flags down. -/
def firstDot (quote bracket : Bool) : List UInt8 → Option Nat
  | [] => none
  | c :: orig =>
    if quoteAfter quote c = false ∧ bracketAfter bracket c = false ∧ c = 46 then some 0
    else (firstDot (quoteAfter quote c) (bracketAfter bracket c) orig).map (· + 1)

/-- The text without its first and its last character, if it starts with a delimiter. -/
def stripDelimiters (tmp : List UInt8) : List UInt8 :=
  match tmp with
  | [] => []
  | c :: rest => if c = 34 ∨ c = 91 then rest.dropLast else c :: rest

/-- `split_tablename`: the schema and the table. -/
def splitTablename (orig : List UInt8) : List UInt8 × List UInt8 :=
  match firstDot false false orig with
  | none => ([], orig)
  | some firstdot =>
    (stripDelimiters (orig.take firstdot), stripDelimiters (orig.drop (firstdot + 1)))

/-- A format of `sprintf`, cut at its conversions, each of which is written `'%s'`.  Outside of
them each quoted part is closed. -/
structure Mask where
  first : List UInt8
  rest : List (List UInt8)
  apart : Apart sqlMarks rest
  closed : ∀ part ∈ first :: rest, quotedBy sqlMarks false part = false

def Mask.sprintf (mask : Mask) (args : List (List UInt8)) : List UInt8 :=
  fill sqlMarks mask.first mask.rest (args.map (bare sqlMarks))

/-- The text is the mask with a literal for each conversion, and they read as the names. -/
def Mask.Names (mask : Mask) (names : List (List UInt8)) (sql : List UInt8) : Prop :=
  Reads sqlMarks mask.first mask.rest names sql

def columnsFrom : List UInt8 :=
  ascii "SELECT COLUMN_NAME,IS_NULLABLE,DATA_TYPE,CHARACTER_MAXIMUM_LENGTH, NUMERIC_SCALE, " ++
  ascii "CASE WHEN COLUMN_DEFAULT IS NULL THEN 0 ELSE 1 END AS HAS_DEFAULT, " ++
  ascii "COLUMNPROPERTY(object_id(TABLE_NAME), COLUMN_NAME, 'IsIdentity') as IS_IDENTITY " ++
  ascii "FROM INFORMATION_SCHEMA.COLUMNS WHERE TABLE_NAME = "

def pkeyFrom : List UInt8 :=
  ascii "SELECT c.COLUMN_NAME FROM  INFORMATION_SCHEMA.TABLE_CONSTRAINTS pk , " ++
  ascii "INFORMATION_SCHEMA.KEY_COLUMN_USAGE c WHERE pk.TABLE_NAME = "

def columnsMask : Mask where
  first := columnsFrom
  rest := [[]]
  apart := by simp [Apart]
  closed := by decide +kernel

def columnsMask2 : Mask where
  first := columnsFrom
  rest := [ascii " AND TABLE_SCHEMA = ", []]
  apart := by
    refine ⟨by decide +kernel, fun h => ?_, by simp [Apart]⟩
    exact absurd h (by decide +kernel)
  closed := by decide +kernel

def pkeyMask : Mask where
  first := pkeyFrom
  rest := [ascii " AND   CONSTRAINT_TYPE = 'PRIMARY KEY' AND   c.TABLE_NAME = pk.TABLE_NAME " ++
    ascii "AND   c.CONSTRAINT_NAME = pk.CONSTRAINT_NAME"]
  apart := ⟨by decide +kernel, fun _ => rfl, trivial⟩
  closed := by decide +kernel

def pkeyMask2 : Mask where
  first := pkeyFrom
  rest := [ascii " AND   pk.TABLE_SCHEMA = ",
    ascii " AND   CONSTRAINT_TYPE = 'PRIMARY KEY' AND   c.TABLE_NAME = pk.TABLE_NAME " ++
    ascii "AND   c.TABLE_SCHEMA = pk.TABLE_SCHEMA " ++
    ascii "AND   c.CONSTRAINT_NAME = pk.CONSTRAINT_NAME"]
  apart := by
    refine ⟨by decide +kernel, fun h => ?_, by decide +kernel, fun _ => rfl, trivial⟩
    exact absurd h (by decide +kernel)
  closed := by decide +kernel

/-- The two cases of `dbrelay_mssql_catalogsql` that split a name. -/
def tableSql (mask mask2 : Mask) (orig : List UInt8) : List UInt8 :=
  let (schema, table) := splitTablename orig
  if schema.length ≠ 0 then mask2.sprintf [table, schema] else mask.sprintf [table]

def dbcmdTables : Nat := 0
def dbcmdColumns : Nat := 1
def dbcmdPkey : Nat := 2
def dbcmdBegin : Nat := 3
def dbcmdCommit : Nat := 4
def dbcmdRollback : Nat := 5

/-- `params[0]`. -/
def firstParam (params : Vector (Option CString) maxParams) : Option CString :=
  params.get ⟨0, maxParams_pos⟩

/-- `dbrelay_mssql_catalogsql`: `some none` is `NULL`, and `none` a read of `params[0]` when it
is `NULL`. -/
def mssqlCatalogsql (dbcmd : Nat) (params : Vector (Option CString) maxParams) :
    Option (Option (List UInt8)) :=
  if dbcmd = dbcmdBegin then some (some (ascii "BEGIN TRAN"))
  else if dbcmd = dbcmdCommit then some (some (ascii "COMMIT TRAN"))
  else if dbcmd = dbcmdRollback then some (some (ascii "ROLLBACK TRAN"))
  else if dbcmd = dbcmdTables then
    some (some (ascii "SELECT * FROM INFORMATION_SCHEMA.tables WHERE TABLE_TYPE='BASE TABLE'"))
  else if dbcmd = dbcmdColumns then
    (firstParam params).map fun param => some (tableSql columnsMask columnsMask2 param.bytes)
  else if dbcmd = dbcmdPkey then
    (firstParam params).map fun param => some (tableSql pkeyMask pkeyMask2 param.bytes)
  else some none

/-! ## The names -/

/-- How an identifier is written. -/
inductive Quoting
  | bare
  | quoted
  | bracketed
  deriving DecidableEq, Repr

/-- A name and a way to write it.  A bare name has none of the characters that the scan looks
at, and a delimited one does not have the delimiter that ends it. -/
structure Written where
  quoting : Quoting
  name : List UInt8
  name_ne_nil : name ≠ []
  noNul : 0 ∉ name
  allowed :
    match quoting with
    | .bare => 46 ∉ name ∧ 34 ∉ name ∧ 91 ∉ name ∧ 93 ∉ name
    | .quoted => 34 ∉ name
    | .bracketed => 93 ∉ name

/-- Each bracket that opens is closed. -/
def BracketsClosed (s : List UInt8) : Prop :=
  ∀ before after, s = before ++ 91 :: after → 93 ∈ after

namespace Written

def text (written : Written) : List UInt8 :=
  match written.quoting with
  | .bare => written.name
  | .quoted => 34 :: (written.name ++ [34])
  | .bracketed => 91 :: (written.name ++ [93])

/-- No bracket is left open between double quotes, and no double quote between brackets. -/
def Balanced (written : Written) : Prop :=
  match written.quoting with
  | .bare => True
  | .quoted => BracketsClosed written.name
  | .bracketed => Even (written.name.count 34)

theorem noNul_text (written : Written) : 0 ∉ written.text := by
  have hname := written.noNul
  unfold text
  split
  · exact hname
  · simpa using hname
  · simpa using hname

end Written

/-! ## The scan -/

/-- The quotes of a table's name, and the dot between two names. -/
def nameMarks : Marks UInt8 where
  quote := 34
  hole := 46
  quote_ne_hole := by decide

theorem bracketsClosed_cons (c : UInt8) (s : List UInt8) :
    BracketsClosed (c :: s) ↔ (c = 91 → 93 ∈ s) ∧ BracketsClosed s := by
  constructor
  · intro h
    refine ⟨fun hc => h [] s (by rw [hc]; rfl), fun before after heq => ?_⟩
    exact h (c :: before) after (by rw [heq]; rfl)
  · rintro ⟨hc, hs⟩ before after heq
    cases before with
    | nil =>
      cases heq
      exact hc rfl
    | cons b before =>
      cases heq
      exact hs before after rfl

theorem foldl_bracketAfter_iff (bracket : Bool) (s : List UInt8) :
    s.foldl bracketAfter bracket = false ↔
      (bracket = true → 93 ∈ s) ∧ BracketsClosed s := by
  induction s generalizing bracket with
  | nil => simp [BracketsClosed]
  | cons c s ih =>
    rw [List.foldl_cons, ih, bracketsClosed_cons, ← and_assoc]
    refine and_congr_left fun _ => ?_
    by_cases hopen : c = 91
    · have hc : bracketAfter bracket c = true := by
        rw [hopen]
        cases bracket <;> rfl
      have hne : (93 : UInt8) ≠ c := by rw [hopen]; decide
      rw [hc, List.mem_cons, or_iff_right hne]
      exact ⟨fun h => ⟨fun _ => h rfl, fun _ => h rfl⟩, fun h _ => h.2 hopen⟩
    · by_cases hclose : c = 93
      · simp [bracketAfter, hclose]
      · have hc : bracketAfter bracket c = bracket := by simp [bracketAfter, hopen, hclose]
        simp [hc, hopen, Ne.symm hclose]

/-- The scan passes a text without a free dot, and keeps its flags. -/
theorem firstDot_append {quote bracket : Bool} {s : List UInt8}
    (h : firstDot quote bracket s = none) (rest : List UInt8) :
    firstDot quote bracket (s ++ rest) =
      (firstDot (s.foldl quoteAfter quote) (s.foldl bracketAfter bracket) rest).map
        (· + s.length) := by
  induction s generalizing quote bracket with
  | nil => simp
  | cons c s ih =>
    rw [firstDot] at h
    split at h
    · cases h
    · rename_i hc
      rw [List.cons_append, firstDot, if_neg hc, ih (Option.map_eq_none_iff.1 h),
        Option.map_map, List.foldl_cons, List.foldl_cons]
      rfl

/-- There is no free dot before the quote that closes. -/
theorem firstDot_quoted (bracket : Bool) {s : List UInt8} (h : 34 ∉ s) :
    firstDot true bracket (s ++ [34]) = none := by
  induction s generalizing bracket with
  | nil => simp [firstDot]
  | cons c s ih =>
    rw [List.mem_cons, not_or] at h
    have hc : quoteAfter true c = true := if_neg fun heq => h.1 heq.symm
    rw [List.cons_append, firstDot, hc, if_neg (by simp), ih _ h.2]
    rfl

/-- There is no free dot before the bracket that closes. -/
theorem firstDot_bracketed (quote : Bool) {s : List UInt8} (h : 93 ∉ s) :
    firstDot quote true (s ++ [93]) = none := by
  induction s generalizing quote with
  | nil => simp [firstDot]
  | cons c s ih =>
    rw [List.mem_cons, not_or] at h
    have hc : bracketAfter true c = true := by simp [bracketAfter, Ne.symm h.1]
    rw [List.cons_append, firstDot, hc, if_neg (by simp), ih _ h.2]
    rfl

theorem firstDot_of_not_mem (quote bracket : Bool) {s : List UInt8} (h : 46 ∉ s) :
    firstDot quote bracket s = none := by
  induction s generalizing quote bracket with
  | nil => rfl
  | cons c s ih =>
    rw [List.mem_cons, not_or] at h
    rw [firstDot, if_neg fun hc => h.1 hc.2.2.symm, ih _ _ h.2]
    rfl

/-! ## The scan of a name -/

namespace Written

/-- There is no free dot in the text of a name. -/
theorem firstDot_text (written : Written) : firstDot false false written.text = none := by
  obtain ⟨quoting, name, -, -, hallowed⟩ := written
  cases quoting with
  | bare => exact firstDot_of_not_mem _ _ hallowed.1
  | quoted =>
    show firstDot false false (34 :: (name ++ [34])) = none
    rw [firstDot, if_neg (by decide)]
    exact Option.map_eq_none_iff.2 (firstDot_quoted _ hallowed)
  | bracketed =>
    show firstDot false false (91 :: (name ++ [93])) = none
    rw [firstDot, if_neg (by decide)]
    exact Option.map_eq_none_iff.2 (firstDot_bracketed _ hallowed)

/-- Both flags are down after a name that is balanced. -/
theorem flags_text_iff (written : Written) :
    written.text.foldl quoteAfter false = false ∧
        written.text.foldl bracketAfter false = false ↔
      written.Balanced := by
  obtain ⟨quoting, name, -, -, hallowed⟩ := written
  cases quoting with
  | bare =>
    refine iff_of_true ⟨?_, ?_⟩ trivial
    · exact quotedBy_of_not_mem nameMarks false hallowed.2.1
    · refine (foldl_bracketAfter_iff false name).2 ⟨by simp, fun before after heq => ?_⟩
      exact absurd (by rw [heq]; simp) hallowed.2.2.1
  | quoted =>
    have hquote : quotedBy nameMarks false (34 :: (name ++ [34])) = false :=
      quotedBy_bare nameMarks false hallowed
    have hbracket : (34 :: (name ++ [34])).foldl bracketAfter false =
        name.foldl bracketAfter false := by
      rw [List.foldl_cons, List.foldl_append]
      simp [bracketAfter]
    show quotedBy nameMarks false (34 :: (name ++ [34])) = false ∧ _ ↔ _
    rw [hquote, show text _ = 34 :: (name ++ [34]) from rfl, hbracket, foldl_bracketAfter_iff]
    exact ⟨fun h => h.2.2, fun h => ⟨rfl, fun h' => Bool.noConfusion h', h⟩⟩
  | bracketed =>
    have hbracket : (91 :: (name ++ [93])).foldl bracketAfter false = false := by
      rw [List.foldl_cons, List.foldl_append]
      simp [bracketAfter]
    have hquote : quotedBy nameMarks false (91 :: (name ++ [93])) = false ↔
        Even (name.count 34) := by
      rw [quotedBy_eq_iff, List.count_cons, List.count_append]
      simp [nameMarks]
    show quotedBy nameMarks false (91 :: (name ++ [93])) = false ∧
      (91 :: (name ++ [93])).foldl bracketAfter false = false ↔ _
    rw [hbracket, hquote]
    exact and_iff_left rfl

theorem stripDelimiters_text (written : Written) :
    stripDelimiters written.text = written.name := by
  obtain ⟨quoting, name, hne, -, hallowed⟩ := written
  cases quoting with
  | bare =>
    show stripDelimiters name = name
    cases name with
    | nil => exact absurd rfl hne
    | cons c name =>
      obtain ⟨-, hquote, hopen, -⟩ := hallowed
      rw [List.mem_cons, not_or] at hquote hopen
      rw [stripDelimiters, if_neg]
      intro h
      rcases h with rfl | rfl
      · exact hquote.1 rfl
      · exact hopen.1 rfl
  | quoted =>
    show stripDelimiters (34 :: (name ++ [34])) = name
    simp [stripDelimiters]
  | bracketed =>
    show stripDelimiters (91 :: (name ++ [93])) = name
    simp [stripDelimiters]

theorem text_of_ne_bare (written : Written) (h : written.quoting ≠ .bare) :
    ∃ c d, (c = 34 ∨ c = 91) ∧ written.text = c :: (written.name ++ [d]) := by
  unfold text
  split
  · rename_i hbare
    exact absurd hbare h
  · exact ⟨34, 34, .inl rfl, rfl⟩
  · exact ⟨91, 93, .inr rfl, rfl⟩

theorem text_eq_name_iff (written : Written) :
    written.text = written.name ↔ written.quoting = .bare := by
  constructor
  · intro h
    by_contra hbare
    obtain ⟨c, d, -, htext⟩ := written.text_of_ne_bare hbare
    have hlen := congrArg List.length (htext.symm.trans h)
    simp only [List.length_cons, List.length_append, List.length_nil] at hlen
    omega
  · intro h
    rw [text, h]

end Written

/-! ## Tables -/

/-- A table, with its schema or alone. -/
structure TableRef where
  schema : Option Written
  table : Written

namespace TableRef

def text (ref : TableRef) : List UInt8 :=
  match ref.schema with
  | none => ref.table.text
  | some schema => schema.text ++ 46 :: ref.table.text

def toCString (ref : TableRef) : CString where
  bytes := ref.text
  noNul := by
    have htable := ref.table.noNul_text
    unfold text
    split
    · exact htable
    · rename_i schema _
      have hschema := schema.noNul_text
      simp [hschema, htable]

def schemaName (ref : TableRef) : List UInt8 := (ref.schema.map Written.name).getD []

/-- The table alone is bare, or the schema is balanced. -/
def Splits (ref : TableRef) : Prop :=
  match ref.schema with
  | none => ref.table.quoting = .bare
  | some schema => schema.Balanced

end TableRef

/-- The dot between two names is found after a balanced schema. -/
theorem firstDot_qualified (schema table : Written) (h : schema.Balanced) :
    firstDot false false (schema.text ++ 46 :: table.text) = some schema.text.length := by
  obtain ⟨hquote, hbracket⟩ := schema.flags_text_iff.2 h
  rw [firstDot_append schema.firstDot_text, hquote, hbracket, firstDot, if_pos (by decide)]
  simp

/-- After any other schema no dot is found, or a later one. -/
theorem firstDot_unbalanced (schema table : Written) (h : ¬ schema.Balanced) {k : Nat}
    (hk : firstDot false false (schema.text ++ 46 :: table.text) = some k) :
    schema.text.length < k := by
  rw [firstDot_append schema.firstDot_text, firstDot, if_neg] at hk
  · rw [Option.map_map, Option.map_eq_some_iff] at hk
    obtain ⟨i, -, rfl⟩ := hk
    simp only [Function.comp]
    omega
  · intro hgiven
    obtain ⟨hquote, hbracket, -⟩ := hgiven
    exact h (schema.flags_text_iff.1 ⟨hquote, by simpa [bracketAfter] using hbracket⟩)

/-- A later dot gives the schema more characters than its name has. -/
theorem length_stripDelimiters_take (schema : Written) (h : ¬ schema.Balanced) {k : Nat}
    (hk : schema.text.length < k) (rest : List UInt8) :
    schema.name.length <
      (stripDelimiters ((schema.text ++ 46 :: rest).take k)).length := by
  have hbare : schema.quoting ≠ .bare := fun hbare => h (by rw [Written.Balanced, hbare]; trivial)
  obtain ⟨c, d, hc, htext⟩ := schema.text_of_ne_bare hbare
  rw [htext] at hk ⊢
  cases k with
  | zero => exact absurd hk (Nat.not_lt_zero _)
  | succ k =>
    rw [List.cons_append, List.take_succ_cons, stripDelimiters, if_pos hc]
    simp only [List.length_cons, List.length_append, List.length_nil] at hk
    simp only [List.length_dropLast, List.length_take, List.length_append, List.length_cons,
      List.length_nil]
    omega

/-- The split gives back the two names. -/
theorem splitTablename_written_iff (ref : TableRef) :
    splitTablename ref.text = (ref.schemaName, ref.table.name) ↔ ref.Splits := by
  obtain ⟨schema, table⟩ := ref
  cases schema with
  | none =>
    show splitTablename table.text = ([], table.name) ↔ table.quoting = .bare
    rw [splitTablename, table.firstDot_text, Prod.mk.injEq, and_iff_right rfl]
    exact table.text_eq_name_iff
  | some schema =>
    show splitTablename (schema.text ++ 46 :: table.text) = (schema.name, table.name) ↔
      schema.Balanced
    constructor
    · intro h
      by_contra hbalanced
      unfold splitTablename at h
      split at h
      · exact schema.name_ne_nil (Prod.mk.inj h).1.symm
      · rename_i k hk
        have hlt := firstDot_unbalanced schema table hbalanced hk
        have hmore := length_stripDelimiters_take schema hbalanced hlt table.text
        rw [(Prod.mk.inj h).1] at hmore
        exact Nat.lt_irrefl _ hmore
    · intro h
      rw [splitTablename, firstDot_qualified schema table h]
      show (stripDelimiters _, stripDelimiters _) = _
      rw [List.take_left, ← List.drop_drop, List.drop_left, List.drop_succ_cons, List.drop_zero,
        schema.stripDelimiters_text, table.stripDelimiters_text]

/-! ## The queries -/

/-- The query for a table reads as the mask with the names of the table. -/
def CatalogNames (dbcmd : Nat) (mask mask2 : Mask) (ref : TableRef) : Prop :=
  ∀ params, firstParam params = some ref.toCString →
    ∃ sql, mssqlCatalogsql dbcmd params = some (some sql) ∧
      match ref.schema with
      | none => mask.Names [ref.table.name] sql
      | some schema => mask2.Names [ref.table.name, schema.name] sql

/-- The two names are split back, and the queries for columns and keys name them. -/
def NamesTable (ref : TableRef) : Prop :=
  splitTablename ref.text = (ref.schemaName, ref.table.name) ∧
    CatalogNames dbcmdColumns columnsMask columnsMask2 ref ∧
    CatalogNames dbcmdPkey pkeyMask pkeyMask2 ref

namespace TableRef

def names (ref : TableRef) : List (List UInt8) :=
  ref.table.name :: (ref.schema.map Written.name).toList

/-- No name has a single quote. -/
def Unquoted (ref : TableRef) : Prop := ∀ name ∈ ref.names, 39 ∉ name

end TableRef

theorem tableSql_names_iff {mask mask2 : Mask} (hmask : mask.rest.length = 1)
    (hmask2 : mask2.rest.length = 2) {ref : TableRef}
    (hsplit : splitTablename ref.text = (ref.schemaName, ref.table.name)) :
    (match ref.schema with
      | none => mask.Names [ref.table.name] (tableSql mask mask2 ref.text)
      | some schema => mask2.Names [ref.table.name, schema.name] (tableSql mask mask2 ref.text)) ↔
      ref.Unquoted := by
  obtain ⟨schema, table⟩ := ref
  rw [tableSql, hsplit]
  cases schema with
  | none => exact reads_fill_bare_iff sqlMarks mask.first hmask mask.apart
  | some schema =>
    have hlen : schema.name.length ≠ 0 := fun h =>
      schema.name_ne_nil (List.length_eq_zero_iff.1 h)
    show mask2.Names _ (if schema.name.length ≠ 0 then _ else _) ↔ _
    rw [if_pos hlen]
    exact reads_fill_bare_iff sqlMarks mask2.first hmask2 mask2.apart

theorem exists_firstParam (param : CString) : ∃ params, firstParam params = some param :=
  ⟨.replicate maxParams (some param), Vector.getElem_replicate _⟩

theorem catalogNames_iff {dbcmd : Nat} {mask mask2 : Mask} (hmask : mask.rest.length = 1)
    (hmask2 : mask2.rest.length = 2)
    (hcmd : ∀ params, mssqlCatalogsql dbcmd params =
      (firstParam params).map fun param => some (tableSql mask mask2 param.bytes))
    {ref : TableRef} (hsplit : splitTablename ref.text = (ref.schemaName, ref.table.name)) :
    CatalogNames dbcmd mask mask2 ref ↔ ref.Unquoted := by
  rw [← tableSql_names_iff hmask hmask2 hsplit]
  constructor
  · intro h
    obtain ⟨params, hparams⟩ := exists_firstParam ref.toCString
    obtain ⟨sql, hsql, hnames⟩ := h params hparams
    rw [hcmd, hparams] at hsql
    cases hsql
    exact hnames
  · intro h params hparams
    refine ⟨tableSql mask mask2 ref.text, ?_, h⟩
    rw [hcmd, hparams]
    rfl

/-- The delimiters are stripped only after a dot, the two flags do not know of each other, and
a single quote is not doubled. -/
theorem splitTablename_catalogsql_iff (ref : TableRef) :
    NamesTable ref ↔ ref.Splits ∧ ref.Unquoted := by
  rw [NamesTable, ← splitTablename_written_iff]
  refine and_congr_right fun hsplit => ?_
  rw [catalogNames_iff rfl rfl (fun _ => rfl) hsplit,
    catalogNames_iff rfl rfl (fun _ => rfl) hsplit, and_self_iff]

/-- The table alone in brackets keeps them. -/
theorem not_splitTablename_bracketed :
    ¬ NamesTable
      { schema := none
        table :=
          { quoting := .bracketed
            name := ascii "order"
            name_ne_nil := by decide
            noNul := by decide
            allowed := by decide } } := by
  intro h
  exact absurd h.1 (by decide)

/-- The schema in quotes may have dots and spaces, and the table in brackets both quotes. -/
example : splitTablename (ascii "\"a. b\".[t\"[ x]") = (ascii "a. b", ascii "t\"[ x") := by decide

/-- A bracket that opens in the quotes hides the dot. -/
example : splitTablename (ascii "\"a[b\".t") = ([], ascii "\"a[b\".t") := by decide

end DbRelay
