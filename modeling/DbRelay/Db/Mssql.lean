import DbRelay.Db.Calls
import DbRelay.Db.CellBuffers
import DbRelay.Lib.Heap
import DbRelay.Query.Transaction

/-!
# The calls of the backend for DB-Library

The calls of `mssql.c` that read results, on a heap.  `dbrelay_mssql_has_results` frees the
buffers of the result set before, allocates one for each column and binds it, and
`dbnextrow` writes the texts of a row through these bindings.

* `hasResults`, `fetchRow` and `colvalue` have no result if they free a block twice, use one
  that was freed, or go out of `colval` or of a buffer.
* `Good` is the invariant of a connection: its pointers are apart and have buffers as targets,
  and each binding is one of them.
* `hasResults_cons`: after a call that says yes, each column is bound to a buffer of its size.
* `delivers_results` and `fits_of_deliversResults`: what a batch must be like for the loops of
  `dbrelay_db_fill_data` to end.

What DB-Library does is taken from its documentation: `dbresults` and `dbsqlexec` drop the
bindings, and `dbnextrow` writes a text with its terminator, however long it is.
-/

namespace DbRelay

namespace Mssql

/-! ## The state -/

/-- What `mssql.c` allocates for the connections of a process.  The temporary strings of `db.c`
are not among it, nor are the texts of `BEGIN`, `COMMIT` and `ROLLBACK`, which
`dbrelay_mssql_catalogsql` copies for each transaction and nobody frees. -/
inductive Block
  | db
  | login
  | dbproc
  | buffer (size : Nat) (text : CArray size)

/-- A statement of a batch, with its rows as `dbnextrow` comes to them. -/
structure Reply extends Statement SybType where
  /-- Behind the last row `dbnextrow` fails each time that it is called. -/
  broken : Bool := false

/-- What the server answers to a command. -/
structure Answer where
  ok : Bool
  replies : List Reply := []

/-- The answer, if no fetch is cut off. -/
def Answer.outcome (answer : Answer) : Outcome SybType :=
  ⟨answer.ok, answer.replies.map Reply.toStatement⟩

/-- What DB-Library keeps for a `DBPROCESS`. -/
structure Dbprocess where
  /-- The commands that were sent, with their outcomes. -/
  log : List (DbCommand × Outcome SybType) := []
  pending : List Reply := []
  columns : List (Column SybType) := []
  rows : List (List (Option CString)) := []
  broken : Bool := false
  rowcount : Int := 0
  /-- The address that `dbbind` was given for a column. -/
  bound : Nat → Option Nat := fun _ => none

/-- `mssql_db_t`, with the address that it has itself. -/
structure Db where
  self : Nat
  login : Nat
  dbproc : Nat
  process : Dbprocess := {}
  colval : Fin maxColumns → Option Nat := fun _ => none
  colnull : Fin maxColumns → Bool := fun _ => false

/-- A connection and the heap of its process. -/
structure State where
  heap : Heap Block
  db : Db

def State.withProcess (s : State) (process : Dbprocess) : State :=
  { s with db := { s.db with process := process } }

def State.withRows (s : State) (rows : List (List (Option CString))) : State :=
  s.withProcess { s.db.process with rows := rows }

/-- The element of `colval` and `colnull` for a column. -/
def index (colnum : Nat) : Option (Fin maxColumns) :=
  if h : 1 ≤ colnum ∧ colnum ≤ maxColumns then some ⟨colnum - 1, by omega⟩ else none

/-! ## The client library -/

/-- `dbresults`. -/
def Dbprocess.dbresults (process : Dbprocess) : RetCode × Dbprocess :=
  match process.pending with
  | [] =>
    (.noMoreResults,
      { process with columns := [], rows := [], broken := false, bound := fun _ => none })
  | reply :: pending =>
    (if reply.ok then .succeed else .fail,
      { process with
        pending := pending
        columns := reply.result.columns
        rows := reply.result.rows
        broken := reply.broken
        rowcount := reply.result.rowcount
        bound := fun _ => none })

/-- The return codes of `dbnextrow`. -/
inductive RowCode
  | regRow
  | fail
  | noMoreRows
  deriving DecidableEq, Repr

/-- `dbnextrow` writes a cell to where its column is bound.  The text of `NULL` is empty. -/
def storeCell (s : State) (colnum : Nat) (cell : Option CString) : Option State :=
  match s.db.process.bound colnum with
  | none => some s
  | some a =>
    match s.heap.block a, index colnum with
    | some (.buffer size text), some i =>
      (text.write 0 ((cell.getD .empty).bytes ++ [0])).bind fun text =>
        (s.heap.write a (.buffer size text)).map fun heap =>
          ⟨heap, { s.db with colnull := Function.update s.db.colnull i cell.isNone }⟩
    | _, _ => none

def storeCells (s : State) : List (Nat × Option CString) → Option State
  | [] => some s
  | (colnum, cell) :: cells => (storeCell s colnum cell).bind fun s => storeCells s cells

/-- The cells of a row with the numbers of their columns. -/
def numbered (row : List (Option CString)) : List (Nat × Option CString) :=
  (List.range' 1 row.length).zip row

/-- `dbnextrow`. -/
def dbnextrow (s : State) : Option (RowCode × State) :=
  match s.db.process.rows with
  | [] => some (if s.db.process.broken then .fail else .noMoreRows, s)
  | row :: rows =>
    (storeCells (s.withRows rows) (numbered row)).map fun s => (.regRow, s)

/-! ## The calls -/

/-- `dbrelay_mssql_exec`, and `dbrelay_mssql_change_db` for the command `use`. -/
def exec (answers : List DbCommand → Answer) (s : State) (command : DbCommand) : Bool × State :=
  let answer := answers (s.db.process.log.map Prod.fst ++ [command])
  (answer.ok,
    s.withProcess
      { log := s.db.process.log ++ [(command, answer.outcome)]
        pending := answer.replies
        rowcount := s.db.process.rowcount })

/-- `dbrelay_mssql_free_results`. -/
def freeResults (s : State) : Option State :=
  (s.heap.release s.db.colval (List.finRange maxColumns)).map fun (heap, colval) =>
    ⟨heap, { s.db with colval := colval }⟩

/-- The buffer of a column, with what `malloc` finds in the memory. -/
def newBuffer (fresh : (size : Nat) → CArray size) (column : Column SybType) : Option Block :=
  (malloc fresh (bindSz column.length)).bind fun ⟨size, text⟩ =>
    (text.store 0 0).map fun text => .buffer size text

/-- A block that `colval` keeps and `dbbind` is given for a column. -/
def State.attach (s : State) (colnum : Nat) (i : Fin maxColumns) (block : Block) : State :=
  ⟨(s.heap.alloc block).2, { s.db with
    colval := Function.update s.db.colval i (some (s.heap.alloc block).1)
    process := { s.db.process with
      bound := Function.update s.db.process.bound colnum (some (s.heap.alloc block).1) } }⟩

/-- The body of the loop over the columns in `dbrelay_mssql_has_results`. -/
def bindColumn (fresh : (size : Nat) → CArray size) (s : State) (colnum : Nat) : Option State :=
  (s.db.process.columns[colnum - 1]?).bind fun column =>
    (newBuffer fresh column).bind fun block =>
      (index colnum).map fun i => s.attach colnum i block

/-- `dbrelay_mssql_has_results`. -/
def hasResults (fresh : (size : Nat) → CArray size) (s : State) : Option (Bool × State) :=
  (freeResults s).bind fun s =>
    match s.db.process.dbresults with
    | (.noMoreResults, process) => some (false, s.withProcess process)
    | (_, process) =>
      ((List.range' 1 process.columns.length).foldlM (bindColumn fresh)
        (s.withProcess process)).map fun s => (true, s)

/-- `dbrelay_mssql_fetch_row`. -/
def fetchRow (s : State) : Option (Bool × State) :=
  (dbnextrow s).map fun (rc, s) => (decide (rc ≠ .noMoreRows), s)

/-- `dbrelay_mssql_colvalue`: the text that it copies. -/
def colvalue (s : State) (colnum : Nat) : Option (Option CString) :=
  (index colnum).bind fun i =>
    if s.db.colnull i then some none
    else
      (s.db.colval i).bind fun a =>
        match s.heap.block a with
        | some (.buffer _ text) =>
          if 0 ∈ text.toList then some (some (.ofBytes text.toList)) else none
        | _ => none

/-! ## The invariant -/

/-- The buffers that a connection has. -/
def State.buffers (s : State) : Finset Nat := Heap.targets s.db.colval

/-- The pointers of a connection are apart and have buffers as targets. -/
structure Good (s : State) : Prop where
  apart : Heap.Apart s.db.colval
  buffer : ∀ {i a}, s.db.colval i = some a →
    ∃ size text, s.heap.block a = some (.buffer size text)

/-- The client library writes nowhere but to the buffers of the connection. -/
def Bound (s : State) : Prop :=
  ∀ {colnum a}, s.db.process.bound colnum = some a →
    ∃ i, index colnum = some i ∧ s.db.colval i = some a

/-- A column is bound to a buffer of this size. -/
def Sized (s : State) (colnum size : Nat) : Prop :=
  ∃ i a text, index colnum = some i ∧ s.db.process.bound colnum = some a ∧
    s.db.colval i = some a ∧ s.heap.block a = some (.buffer size text)

/-- A call may change the buffers of its connection and nothing else in the heap. -/
structure Changes (s s' : State) : Prop where
  good : Good s'
  self : s'.db.self = s.db.self
  login : s'.db.login = s.db.login
  dbproc : s'.db.dbproc = s.db.dbproc
  live : s'.heap.live = s.heap.live \ s.buffers ∪ s'.buffers
  new : Disjoint s'.buffers (s.heap.live \ s.buffers)
  frame : ∀ a ∈ s.heap.live \ s.buffers, s'.heap.block a = s.heap.block a

theorem index_eq_some_iff {colnum : Nat} {i : Fin maxColumns} :
    index colnum = some i ↔ colnum = i.val + 1 := by
  have hi := i.isLt
  rw [index]
  split
  · rw [Option.some.injEq, Fin.ext_iff]
    show colnum - 1 = i.val ↔ _
    omega
  · refine iff_of_false (fun h => nomatch h) ?_
    omega

theorem Good.buffers_subset {s : State} (hs : Good s) : s.buffers ⊆ s.heap.live := by
  intro a ha
  obtain ⟨i, hi⟩ := Heap.mem_targets.1 ha
  obtain ⟨size, text, hblock⟩ := hs.buffer hi
  exact Heap.mem_live_of_eq hblock

theorem Changes.refl {s : State} (hs : Good s) : Changes s s where
  good := hs
  self := rfl
  login := rfl
  dbproc := rfl
  live := (Finset.sdiff_union_of_subset hs.buffers_subset).symm
  new := Finset.disjoint_sdiff
  frame _ _ := rfl

theorem Changes.trans {s s₁ s₂ : State} (h₁ : Changes s s₁) (h₂ : Changes s₁ s₂) :
    Changes s s₂ := by
  have hrest : s₁.heap.live \ s₁.buffers = s.heap.live \ s.buffers := by
    rw [h₁.live, Finset.union_sdiff_right, Finset.sdiff_eq_self_of_disjoint h₁.new.symm]
  refine ⟨h₂.good, h₂.self.trans h₁.self, h₂.login.trans h₁.login,
    h₂.dbproc.trans h₁.dbproc, ?_, ?_, fun a ha => ?_⟩
  · rw [h₂.live, hrest]
  · rw [← hrest]
    exact h₂.new
  · rw [h₂.frame a (hrest ▸ ha), h₁.frame a ha]

/-- A change of what the client library keeps. -/
theorem Changes.withProcess {s s' : State} (h : Changes s s') (process : Dbprocess) :
    Changes s (s'.withProcess process) :=
  ⟨⟨h.good.apart, h.good.buffer⟩, h.self, h.login, h.dbproc, h.live, h.new, h.frame⟩

/-! ## A row -/

/-- The length of what `dbnextrow` writes for a cell, without the terminator. -/
def cellLength (cell : Option CString) : Nat := (cell.getD .empty).bytes.length

/-- What a write into the bound buffers leaves as it is. -/
structure Stored (s s' : State) : Prop extends Changes s s' where
  process : s'.db.process = s.db.process
  colval : s'.db.colval = s.db.colval
  sized : ∀ {colnum size}, Sized s colnum size → Sized s' colnum size

theorem Stored.refl {s : State} (hs : Good s) : Stored s s :=
  ⟨.refl hs, rfl, rfl, fun h => h⟩

theorem Stored.trans {s s₁ s₂ : State} (h₁ : Stored s s₁) (h₂ : Stored s₁ s₂) : Stored s s₂ :=
  ⟨h₁.toChanges.trans h₂.toChanges, h₂.process.trans h₁.process, h₂.colval.trans h₁.colval,
    fun h => h₂.sized (h₁.sized h)⟩

section Write

variable {s : State} (hs : Good s) {i : Fin maxColumns} {a size : Nat} {text text' : CArray size}
  (hcolval : s.db.colval i = some a) (hblock : s.heap.block a = some (.buffer size text))
  {heap : Heap Block} (hheap : s.heap.write a (.buffer size text') = some heap)

include hs hcolval hblock hheap

/-- A buffer gets another text. -/
theorem stored_of_write (colnull : Fin maxColumns → Bool) :
    Stored s ⟨heap, { s.db with colnull := colnull }⟩ := by
  have ha : a ∈ s.buffers := Heap.mem_targets.2 ⟨i, hcolval⟩
  have hother : ∀ b ≠ a, heap.block b = s.heap.block b := (Heap.block_write hheap).2
  refine ⟨⟨⟨hs.apart, fun {j b} hj => ?_⟩, rfl, rfl, rfl, ?_, Finset.disjoint_sdiff,
    fun b hb => hother b ?_⟩, rfl, rfl, ?_⟩
  · rcases eq_or_ne b a with rfl | hb
    · exact ⟨size, text', (Heap.block_write hheap).1⟩
    · obtain ⟨size', text₂, hj'⟩ := hs.buffer hj
      exact ⟨size', text₂, (hother b hb).trans hj'⟩
  · show heap.live = _
    rw [Heap.live_write hheap]
    exact (Finset.sdiff_union_of_subset hs.buffers_subset).symm
  · exact fun heq => (Finset.mem_sdiff.1 hb).2 (heq ▸ ha)
  · intro colnum size' h
    obtain ⟨j, b, text₂, hindex, hbound, hcolval', hblock'⟩ := h
    rcases eq_or_ne b a with rfl | hb
    · rw [hblock] at hblock'
      cases hblock'
      exact ⟨j, b, text', hindex, hbound, hcolval', (Heap.block_write hheap).1⟩
    · exact ⟨j, b, text₂, hindex, hbound, hcolval', (hother b hb).trans hblock'⟩

omit hs hblock in
/-- The column of the buffer has the new text. -/
theorem colvalue_write {colnum : Nat} (hindex : index colnum = some i) {cell : Option CString}
    (hstart : (cell.getD .empty).bytes ++ [0] <+: text'.toList) :
    colvalue ⟨heap, { s.db with colnull := Function.update s.db.colnull i cell.isNone }⟩
      colnum = some cell := by
  rw [colvalue, hindex, Option.bind_some]
  simp only [Function.update_self, hcolval, Option.bind_some, (Heap.block_write hheap).1]
  cases cell with
  | none => rfl
  | some cell =>
    have hmem : (0 : UInt8) ∈ text'.toList :=
      hstart.subset (List.mem_append_right _ (List.mem_singleton_self _))
    rw [if_pos hmem]
    refine congrArg (fun cell => some (some cell)) (CString.ext' ?_)
    exact CArray.string_of_prefix cell.noNul hstart

omit hblock in
/-- The other columns keep theirs. -/
theorem colvalue_write_of_ne {colnum : Nat} (hindex : index colnum = some i) (null : Bool)
    {other : Nat} (hne : other ≠ colnum) :
    colvalue ⟨heap, { s.db with colnull := Function.update s.db.colnull i null }⟩ other =
      colvalue s other := by
  rw [colvalue, colvalue]
  rcases hindex' : index other with _ | j
  · rfl
  · have hij : j ≠ i := fun heq => hne
      ((index_eq_some_iff.1 hindex').trans (heq ▸ (index_eq_some_iff.1 hindex).symm))
    simp only [Option.bind_some, Function.update_of_ne hij]
    rcases hj : s.db.colval j with _ | b
    · rfl
    · have hba : b ≠ a := fun heq => hij (hs.apart j i a (heq ▸ hj) hcolval)
      simp only [Option.bind_some, (Heap.block_write hheap).2 b hba]

end Write

/-- The buffer of a column gets a text that is shorter than it. -/
theorem storeCell_spec {s : State} (hs : Good s) {colnum size : Nat}
    (hsized : Sized s colnum size) (cell : Option CString) :
    (cellLength cell < size → ∃ s', storeCell s colnum cell = some s' ∧ Stored s s' ∧
      colvalue s' colnum = some cell ∧
      ∀ other ≠ colnum, colvalue s' other = colvalue s other) ∧
    (¬cellLength cell < size → storeCell s colnum cell = none) := by
  obtain ⟨i, a, text, hindex, hbound, hcolval, hblock⟩ := hsized
  rw [storeCell, hbound]
  simp only [hblock, hindex]
  constructor
  · intro hfits
    have hroom : ([] : List UInt8).length + ((cell.getD .empty).bytes ++ [0]).length ≤ size := by
      rw [List.length_nil, List.length_append, List.length_singleton]
      exact (Nat.zero_add _).le.trans hfits
    obtain ⟨text', hwrite, hprefix⟩ := CArray.write_append (a := text) List.nil_prefix
      ((cell.getD .empty).bytes ++ [0]) hroom
    rw [List.nil_append] at hprefix
    rw [List.length_nil] at hwrite
    obtain ⟨heap, hheap⟩ := Option.isSome_iff_exists.1
      (Heap.write_isSome_iff (v := Block.buffer size text').2 (Heap.mem_live_of_eq hblock))
    rw [hwrite, Option.bind_some, hheap]
    exact ⟨_, rfl, stored_of_write hs hcolval hblock hheap _,
      colvalue_write hcolval hheap hindex hprefix,
      fun other hne => colvalue_write_of_ne hs hcolval hheap hindex _ hne⟩
  · intro hlong
    have hnone : text.write 0 ((cell.getD .empty).bytes ++ [0]) = none := by
      refine CArray.write_eq_none (by simp) ?_
      rw [List.length_append, List.length_singleton]
      unfold cellLength at hlong
      omega
    rw [hnone]
    rfl

/-- The cells of different columns, each bound to a buffer of the size `size colnum`. -/
theorem storeCells_spec {size : Nat → Nat} {s : State} (hs : Good s)
    {cells : List (Nat × Option CString)} (hdistinct : (cells.map Prod.fst).Nodup)
    (hsized : ∀ p ∈ cells, Sized s p.1 (size p.1)) :
    ((∀ p ∈ cells, cellLength p.2 < size p.1) → ∃ s', storeCells s cells = some s' ∧
      Stored s s' ∧ (∀ p ∈ cells, colvalue s' p.1 = some p.2) ∧
      ∀ other ∉ cells.map Prod.fst, colvalue s' other = colvalue s other) ∧
    ((¬∀ p ∈ cells, cellLength p.2 < size p.1) → storeCells s cells = none) := by
  induction cells generalizing s with
  | nil =>
    refine ⟨fun _ => ⟨s, rfl, .refl hs, ?_, fun _ _ => rfl⟩, fun h => absurd ?_ h⟩
    · exact fun p hp => absurd hp List.not_mem_nil
    · exact fun p hp => absurd hp List.not_mem_nil
  | cons p cells ih =>
    rw [List.map_cons, List.nodup_cons] at hdistinct
    rw [List.forall_mem_cons] at hsized
    obtain ⟨hstore, hlong⟩ := storeCell_spec hs hsized.1 p.2
    by_cases hfits : cellLength p.2 < size p.1
    · obtain ⟨s₁, hfirst, hstored, hvalue, hothers⟩ := hstore hfits
      obtain ⟨hrest, hrestLong⟩ := ih hstored.good hdistinct.2
        fun q hq => hstored.sized (hsized.2 q hq)
      rw [storeCells, hfirst, Option.bind_some]
      constructor
      · intro hall
        obtain ⟨s', hrun, hstored', hvalues, hothers'⟩ := hrest (List.forall_mem_cons.1 hall).2
        refine ⟨s', hrun, hstored.trans hstored', List.forall_mem_cons.2 ⟨?_, hvalues⟩, ?_⟩
        · rw [hothers' p.1 hdistinct.1, hvalue]
        · intro other hother
          rw [List.map_cons, List.mem_cons, not_or] at hother
          rw [hothers' other hother.2, hothers other hother.1]
      · intro hnot
        exact hrestLong fun hall => hnot (List.forall_mem_cons.2 ⟨hfits, hall⟩)
    · rw [storeCells, hlong hfits]
      exact ⟨fun hall => absurd (List.forall_mem_cons.1 hall).1 hfits, fun _ => rfl⟩

/-- Each column of the result set has a buffer of its size. -/
def Ready (s : State) : Prop :=
  ∀ i column, s.db.process.columns[i]? = some column →
    Sized s (i + 1) (bindSz column.length).toNat

/-- Each text of a row is shorter than the buffer of its column. -/
def RowBinds (columns : List (Column SybType)) (row : List (Option CString)) : Prop :=
  ∀ p ∈ columns.zip row, (cellLength p.2 : Int) < bindSz p.1.length

instance (columns : List (Column SybType)) (row : List (Option CString)) :
    Decidable (RowBinds columns row) :=
  inferInstanceAs (Decidable (∀ p ∈ columns.zip row, _))

theorem mem_numbered_iff {row : List (Option CString)} {p : Nat × Option CString} :
    p ∈ numbered row ↔ ∃ i, p.1 = i + 1 ∧ row[i]? = some p.2 := by
  rw [numbered, List.mem_iff_getElem?]
  constructor
  · intro h
    obtain ⟨i, hi⟩ := h
    obtain ⟨hnum, hrow⟩ := List.getElem?_zip_eq_some.1 hi
    have hlt : i < row.length := (List.getElem?_eq_some_iff.1 hrow).1
    rw [List.getElem?_range' hlt, Nat.one_mul, Nat.add_comm, Option.some.injEq] at hnum
    exact ⟨i, hnum.symm, hrow⟩
  · intro h
    obtain ⟨i, hnum, hrow⟩ := h
    have hlt : i < row.length := (List.getElem?_eq_some_iff.1 hrow).1
    refine ⟨i, List.getElem?_zip_eq_some.2 ⟨?_, hrow⟩⟩
    rw [List.getElem?_range' hlt, Nat.one_mul, Nat.add_comm, hnum]

theorem numbered_nodup (row : List (Option CString)) : ((numbered row).map Prod.fst).Nodup := by
  rw [numbered, List.map_fst_zip (by rw [List.length_range'])]
  exact List.nodup_range'

/-- The size of the buffer of a column, by its number. -/
def bufferSize (columns : List (Column SybType)) (colnum : Nat) : Nat :=
  ((columns[colnum - 1]?).map fun column => (bindSz column.length).toNat).getD 0

theorem bufferSize_succ {columns : List (Column SybType)} {i : Nat} {column : Column SybType}
    (h : columns[i]? = some column) :
    bufferSize columns (i + 1) = (bindSz column.length).toNat := by
  rw [bufferSize, Nat.add_sub_cancel, h]
  rfl

/-- The condition by columns is the one by numbers. -/
theorem rowBinds_iff {columns : List (Column SybType)} {row : List (Option CString)}
    (hwidth : row.length = columns.length) :
    RowBinds columns row ↔ ∀ p ∈ numbered row, cellLength p.2 < bufferSize columns p.1 := by
  constructor
  · intro h p hp
    obtain ⟨i, hnum, hrow⟩ := mem_numbered_iff.1 hp
    have hlt : i < columns.length := hwidth ▸ (List.getElem?_eq_some_iff.1 hrow).1
    have hcolumn := List.getElem?_eq_getElem hlt
    have hbinds : (cellLength p.2 : Int) < bindSz columns[i].length :=
      h (columns[i], p.2)
        (List.mem_iff_getElem?.2 ⟨i, List.getElem?_zip_eq_some.2 ⟨hcolumn, hrow⟩⟩)
    rw [hnum, bufferSize_succ hcolumn]
    omega
  · intro h p hp
    obtain ⟨i, hi⟩ := List.mem_iff_getElem?.1 hp
    obtain ⟨hcolumn, hrow⟩ := List.getElem?_zip_eq_some.1 hi
    have hlt := h (i + 1, p.2) (mem_numbered_iff.2 ⟨i, rfl, hrow⟩)
    rw [bufferSize_succ hcolumn] at hlt
    change cellLength p.2 < _ at hlt
    omega

theorem fetchRow_nil {s : State} (h : s.db.process.rows = []) :
    fetchRow s = some (s.db.process.broken, s) := by
  rw [fetchRow, dbnextrow, h]
  cases s.db.process.broken <;> rfl

/-- The next row is in the buffers after a call, if its texts fit them. -/
theorem fetchRow_cons {s : State} (hs : Good s) (hready : Ready s) {row : List (Option CString)}
    {rows : List (List (Option CString))} (hrows : s.db.process.rows = row :: rows)
    (hwidth : row.length = s.db.process.columns.length) :
    (RowBinds s.db.process.columns row → ∃ s', fetchRow s = some (true, s') ∧ Changes s s' ∧
      s'.db.process = { s.db.process with rows := rows } ∧ Ready s' ∧
      List.Forall₂ (fun colnum cell => colvalue s' colnum = some cell)
        (List.range' 1 s.db.process.columns.length) row) ∧
    (¬RowBinds s.db.process.columns row → fetchRow s = none) := by
  have hfetch : fetchRow s =
      (storeCells (s.withRows rows) (numbered row)).map fun s => (true, s) := by
    rw [fetchRow, dbnextrow, hrows]
    show Option.map _ (Option.map _ _) = _
    rw [Option.map_map]
    rfl
  have hsized : ∀ p ∈ numbered row,
      Sized (s.withRows rows) p.1 (bufferSize s.db.process.columns p.1) := by
    intro p hp
    obtain ⟨i, hnum, hrow⟩ := mem_numbered_iff.1 hp
    have hlt : i < s.db.process.columns.length :=
      hwidth ▸ (List.getElem?_eq_some_iff.1 hrow).1
    rw [hnum, bufferSize_succ (List.getElem?_eq_getElem hlt)]
    exact hready i _ (List.getElem?_eq_getElem hlt)
  obtain ⟨hstore, hlong⟩ := storeCells_spec (s := s.withRows rows) ⟨hs.apart, hs.buffer⟩
    (numbered_nodup row) hsized
  rw [rowBinds_iff hwidth, hfetch]
  constructor
  · intro hbinds
    obtain ⟨s', hrun, hstored, hvalues, -⟩ := hstore hbinds
    refine ⟨s', by rw [hrun]; rfl, ((Changes.refl hs).withProcess _).trans hstored.toChanges,
      hstored.process, fun i column hcolumn => ?_, ?_⟩
    · rw [hstored.process] at hcolumn
      exact hstored.sized (hready i column hcolumn)
    · rw [DbCalls.forall₂_range'_iff]
      refine ⟨hwidth, fun i cell hi => ?_⟩
      rw [Nat.add_comm]
      exact hvalues (i + 1, cell) (mem_numbered_iff.2 ⟨i, rfl, hi⟩)
  · intro hnot
    rw [hlong hnot]
    rfl

/-! ## The buffers of a result set -/

/-- `malloc` takes the size, and there is room for the first terminator. -/
theorem newBuffer_spec (fresh : (size : Nat) → CArray size) (column : Column SybType) :
    (0 < bindSz column.length →
      ∃ text, newBuffer fresh column = some (.buffer (bindSz column.length).toNat text)) ∧
    (¬0 < bindSz column.length → newBuffer fresh column = none) := by
  constructor
  · intro hpos
    have hsize : 0 < (bindSz column.length).toNat := by omega
    refine ⟨(fresh (bindSz column.length).toNat).set 0 0 hsize, ?_⟩
    have hstore : (fresh (bindSz column.length).toNat).store 0 0 =
        some ((fresh (bindSz column.length).toNat).set 0 0 hsize) := dif_pos hsize
    rw [newBuffer, malloc_eq (Int.le_of_lt hpos)]
    simp only [Option.bind_some, hstore, Option.map_some]
  · intro hpos
    rw [newBuffer]
    by_cases hzero : 0 ≤ bindSz column.length
    · have hsize : ¬0 < (bindSz column.length).toNat := by omega
      have hstore : (fresh (bindSz column.length).toNat).store 0 0 = none := dif_neg hsize
      rw [malloc_eq hzero]
      simp only [Option.bind_some, hstore, Option.map_none]
    · rw [malloc, if_neg hzero]
      rfl

/-! ### A new buffer -/

section Attach

variable {s : State} {i : Fin maxColumns}

theorem attach_colval_of_ne (colnum : Nat) (block : Block) {j : Fin maxColumns} (h : j ≠ i) :
    (s.attach colnum i block).db.colval j = s.db.colval j :=
  Function.update_of_ne h _ _

theorem attach_colval_self (colnum : Nat) (block : Block) :
    (s.attach colnum i block).db.colval i = some (s.heap.alloc block).1 :=
  Function.update_self _ _ _

theorem attach_binding_of_ne {colnum : Nat} (block : Block) {other : Nat} (h : other ≠ colnum) :
    (s.attach colnum i block).db.process.bound other = s.db.process.bound other :=
  Function.update_of_ne h _ _

theorem attach_binding_self (colnum : Nat) (block : Block) :
    (s.attach colnum i block).db.process.bound colnum = some (s.heap.alloc block).1 :=
  Function.update_self _ _ _

/-- The pointers that there were stay. -/
theorem attach_colval (hfree : s.db.colval i = none) (colnum : Nat) (block : Block)
    {j : Fin maxColumns} {a : Nat} (h : s.db.colval j = some a) :
    (s.attach colnum i block).db.colval j = some a := by
  rw [attach_colval_of_ne, h]
  intro heq
  rw [heq, hfree] at h
  cases h

theorem attach_changes (hs : Good s) (hfree : s.db.colval i = none) (colnum size : Nat)
    (text : CArray size) : Changes s (s.attach colnum i (.buffer size text)) := by
  have hnew := s.heap.alloc_not_mem (.buffer size text)
  have hbuffers : (s.attach colnum i (.buffer size text)).buffers =
      insert (s.heap.alloc (.buffer size text)).1 s.buffers :=
    Heap.targets_update_some hfree _
  refine ⟨⟨hs.apart.update_some i fun hmem => hnew (hs.buffers_subset hmem), ?_⟩,
    rfl, rfl, rfl, ?_, ?_, ?_⟩
  · intro j a hj
    rcases eq_or_ne j i with rfl | hne
    · rw [attach_colval_self, Option.some.injEq] at hj
      rw [← hj]
      exact ⟨size, text, s.heap.block_alloc _⟩
    · rw [attach_colval_of_ne _ _ hne] at hj
      obtain ⟨size', text', hblock⟩ := hs.buffer hj
      exact ⟨size', text', s.heap.block_alloc_of_eq _ hblock⟩
  · show (s.heap.alloc _).2.live = _
    rw [hbuffers, s.heap.live_alloc, Finset.union_insert,
      Finset.sdiff_union_of_subset hs.buffers_subset]
  · rw [hbuffers, Finset.disjoint_insert_left]
    exact ⟨fun hmem => hnew (Finset.mem_sdiff.1 hmem).1, Finset.disjoint_sdiff⟩
  · intro a ha
    exact s.heap.block_alloc_of_mem _ (Finset.mem_sdiff.1 ha).1

/-- The new binding is a pointer of the connection too. -/
theorem attach_bound (hbound : Bound s) (hfree : s.db.colval i = none) (block : Block) :
    Bound (s.attach (i.val + 1) i block) := by
  intro colnum a ha
  rcases eq_or_ne colnum (i.val + 1) with rfl | hne
  · rw [attach_binding_self, Option.some.injEq] at ha
    exact ⟨i, index_eq_some_iff.2 rfl, by rw [attach_colval_self, ha]⟩
  · rw [attach_binding_of_ne _ hne] at ha
    obtain ⟨j, hj, hpointer⟩ := hbound ha
    exact ⟨j, hj, attach_colval hfree _ _ hpointer⟩

theorem attach_sized_self (size : Nat) (text : CArray size) :
    Sized (s.attach (i.val + 1) i (.buffer size text)) (i.val + 1) size :=
  ⟨i, _, text, index_eq_some_iff.2 rfl, attach_binding_self _ _, attach_colval_self _ _,
    s.heap.block_alloc _⟩

theorem attach_sized (hfree : s.db.colval i = none) (block : Block) {colnum size : Nat}
    (h : Sized s colnum size) : Sized (s.attach (i.val + 1) i block) colnum size := by
  obtain ⟨j, a, text, hindex, hbound, hcolval, hblock⟩ := h
  refine ⟨j, a, text, hindex, ?_, attach_colval hfree _ _ hcolval,
    s.heap.block_alloc_of_eq _ hblock⟩
  have hne : colnum ≠ i.val + 1 := by
    intro heq
    rw [heq, index_eq_some_iff.2 rfl, Option.some.injEq] at hindex
    rw [← hindex, hfree] at hcolval
    cases hcolval
  rw [attach_binding_of_ne _ hne, hbound]

end Attach

/-- A column gets a buffer if it has an element in `colval` and a size that `malloc` takes. -/
theorem bindColumn_spec (fresh : (size : Nat) → CArray size) {s : State} {i : Nat}
    {column : Column SybType} (hcolumn : s.db.process.columns[i]? = some column) :
    (∀ hi : i < maxColumns, 0 < bindSz column.length →
      ∃ text, bindColumn fresh s (i + 1) =
        some (s.attach (i + 1) ⟨i, hi⟩ (.buffer (bindSz column.length).toNat text))) ∧
    (¬(i < maxColumns ∧ 0 < bindSz column.length) → bindColumn fresh s (i + 1) = none) := by
  obtain ⟨hbuffer, hnone⟩ := newBuffer_spec fresh column
  rw [bindColumn, Nat.add_sub_cancel, hcolumn, Option.bind_some]
  constructor
  · intro hi hpos
    obtain ⟨text, htext⟩ := hbuffer hpos
    have hindex : index (i + 1) = some ⟨i, hi⟩ := index_eq_some_iff.2 rfl
    refine ⟨text, ?_⟩
    rw [htext, Option.bind_some, hindex, Option.map_some]
  · intro h
    by_cases hpos : 0 < bindSz column.length
    · obtain ⟨text, htext⟩ := hbuffer hpos
      have hindex : index (i + 1) = none := by
        rw [index, dif_neg]
        omega
      rw [htext, Option.bind_some, hindex]
      rfl
    · rw [hnone hpos]
      rfl

/-- The invariant of the loop over the columns: the first `k` of them have their buffers. -/
structure BoundUpTo (s : State) (k : Nat) : Prop where
  good : Good s
  bound : Bound s
  free : ∀ i : Fin maxColumns, k ≤ i.val → s.db.colval i = none
  sized : ∀ i column, i < k → s.db.process.columns[i]? = some column →
    Sized s (i + 1) (bindSz column.length).toNat

theorem BoundUpTo.ready {s : State} {k : Nat} (h : BoundUpTo s k)
    (hk : s.db.process.columns.length ≤ k) : Ready s := by
  intro i column hi
  have hlt := (List.getElem?_eq_some_iff.1 hi).1
  exact h.sized i column (by omega) hi

/-- One turn of the loop. -/
theorem BoundUpTo.attach {s : State} {k : Nat} (h : BoundUpTo s k) (hk : k < maxColumns)
    {column : Column SybType} (hcolumn : s.db.process.columns[k]? = some column)
    (text : CArray (bindSz column.length).toNat) :
    BoundUpTo (s.attach (k + 1) ⟨k, hk⟩ (.buffer _ text)) (k + 1) where
  good := (attach_changes h.good (h.free ⟨k, hk⟩ (Nat.le_refl k)) (k + 1) _ text).good
  bound := attach_bound h.bound (h.free ⟨k, hk⟩ (Nat.le_refl k)) _
  free i hi := by
    have hne : i ≠ ⟨k, hk⟩ := by
      intro heq
      rw [heq] at hi
      exact absurd hi (Nat.not_succ_le_self k)
    rw [attach_colval_of_ne _ _ hne]
    exact h.free i (by omega)
  sized i c hi hc := by
    rcases Nat.lt_succ_iff_lt_or_eq.1 hi with hlt | heq
    · exact attach_sized (h.free ⟨k, hk⟩ (Nat.le_refl k)) _ (h.sized i c hlt hc)
    · rw [heq] at hc ⊢
      rw [Option.some.inj (hc.symm.trans hcolumn)]
      exact attach_sized_self (i := ⟨k, hk⟩) _ text

/-- The loop over the columns, from the column `k + 1` on. -/
theorem bindColumns_spec (fresh : (size : Nat) → CArray size) {s : State} {k : Nat}
    (h : BoundUpTo s k) (hk : k ≤ maxColumns) {rest : List (Column SybType)}
    (hrest : s.db.process.columns.drop k = rest) :
    (k + rest.length ≤ maxColumns ∧ (∀ column ∈ rest, 0 < bindSz column.length) →
      ∃ s', (List.range' (k + 1) rest.length).foldlM (bindColumn fresh) s = some s' ∧
        Changes s s' ∧ Bound s' ∧ Ready s' ∧
        ∃ bound, s'.db.process = { s.db.process with bound := bound }) ∧
    (¬(k + rest.length ≤ maxColumns ∧ ∀ column ∈ rest, 0 < bindSz column.length) →
      (List.range' (k + 1) rest.length).foldlM (bindColumn fresh) s = none) := by
  induction rest generalizing s k with
  | nil =>
    rw [List.drop_eq_nil_iff] at hrest
    refine ⟨fun _ => ⟨s, rfl, .refl h.good, h.bound, h.ready hrest, _, rfl⟩, fun hnot => ?_⟩
    exact absurd ⟨hk, fun column hmem => absurd hmem List.not_mem_nil⟩ hnot
  | cons column rest ih =>
    have hget : s.db.process.columns[k]? = some column := by
      rw [← Nat.add_zero k, ← List.getElem?_drop, hrest, List.getElem?_cons_zero]
    have hdrop : s.db.process.columns.drop (k + 1) = rest := by
      rw [← List.drop_drop, hrest, List.drop_one, List.tail_cons]
    obtain ⟨hbind, hnone⟩ := bindColumn_spec fresh (s := s) hget
    rw [List.length_cons, List.range'_succ, List.foldlM_cons, List.forall_mem_cons]
    by_cases hfirst : k < maxColumns ∧ 0 < bindSz column.length
    · obtain ⟨text, hrun⟩ := hbind hfirst.1 hfirst.2
      have hchanges := attach_changes h.good (h.free ⟨k, hfirst.1⟩ (Nat.le_refl k)) (k + 1) _ text
      obtain ⟨hsome, hfails⟩ := ih (h.attach hfirst.1 hget text) hfirst.1 hdrop
      rw [hrun, Option.bind_eq_bind, Option.bind_some]
      constructor
      · rintro ⟨hlen, -, hpos⟩
        obtain ⟨s', hrun', hchanges', hlast⟩ := hsome ⟨by omega, hpos⟩
        exact ⟨s', hrun', hchanges.trans hchanges', hlast⟩
      · intro hnot
        exact hfails fun hall => hnot ⟨by omega, hfirst.2, hall.2⟩
    · rw [hnone hfirst]
      refine ⟨fun hall => absurd ⟨?_, hall.2.1⟩ hfirst, fun _ => rfl⟩
      omega

/-! ## The next result set -/

theorem freeResults_spec {s : State} (hs : Good s) :
    ∃ heap, freeResults s = some ⟨heap, { s.db with colval := fun _ => none }⟩ ∧
      heap.live = s.heap.live \ s.buffers ∧ ∀ a ∉ s.buffers, heap.block a = s.heap.block a := by
  obtain ⟨heap, hrelease, hlive, hblock⟩ := Heap.release_spec hs.apart hs.buffers_subset
    (List.finRange maxColumns) fun i _ => List.mem_finRange i
  exact ⟨heap, by rw [freeResults, hrelease]; rfl, hlive, hblock⟩

/-- A connection whose buffers were freed. -/
theorem changes_freed {s : State} {heap : Heap Block} (hlive : heap.live = s.heap.live \ s.buffers)
    (hblock : ∀ a ∉ s.buffers, heap.block a = s.heap.block a) (process : Dbprocess) :
    Changes s ⟨heap, { s.db with colval := fun _ => none, process := process }⟩ where
  good := ⟨Heap.apart_none, fun h => nomatch h⟩
  self := rfl
  login := rfl
  dbproc := rfl
  live := by
    show heap.live = _ ∪ Heap.targets _
    rw [Heap.targets_none, Finset.union_empty, hlive]
  new := by
    show Disjoint (Heap.targets _) _
    rw [Heap.targets_none]
    exact Finset.disjoint_empty_left _
  frame a ha := hblock a (Finset.mem_sdiff.1 ha).2

/-- At the end no buffer is left. -/
theorem hasResults_nil (fresh : (size : Nat) → CArray size) {s : State} (hs : Good s)
    (h : s.db.process.pending = []) :
    ∃ s', hasResults fresh s = some (false, s') ∧ Changes s s' ∧ s'.buffers = ∅ ∧
      s'.db.process = s.db.process.dbresults.2 := by
  obtain ⟨heap, hfree, hlive, hblock⟩ := freeResults_spec hs
  rw [hasResults, hfree]
  simp only [Option.bind_some, Dbprocess.dbresults, h]
  exact ⟨_, rfl, changes_freed hlive hblock _, Heap.targets_none, rfl⟩

/-- A result set for which there are buffers. -/
theorem hasResults_cons (fresh : (size : Nat) → CArray size) {s : State} (hs : Good s)
    {reply : Reply} {pending : List Reply} (h : s.db.process.pending = reply :: pending) :
    (Binds reply.result.columns → ∃ s', hasResults fresh s = some (true, s') ∧ Changes s s' ∧
      Bound s' ∧ Ready s' ∧
      ∃ bound, s'.db.process = { s.db.process.dbresults.2 with bound := bound }) ∧
    (¬Binds reply.result.columns → hasResults fresh s = none) := by
  obtain ⟨heap, hfree, hlive, hblock⟩ := freeResults_spec hs
  have hchanges := changes_freed hlive hblock s.db.process.dbresults.2
  generalize hstart : State.mk heap { s.db with
    colval := fun _ => none, process := s.db.process.dbresults.2 } = start at hchanges
  have hcolumns : start.db.process.columns = reply.result.columns := by
    rw [← hstart, Dbprocess.dbresults, h]
  have hunbound : Bound start := by
    intro colnum a ha
    rw [← hstart, Dbprocess.dbresults, h] at ha
    cases ha
  have hrun : hasResults fresh s =
      ((List.range' 1 start.db.process.columns.length).foldlM (bindColumn fresh) start).map
        fun s => (true, s) := by
    rw [hasResults, hfree, ← hstart]
    simp only [Option.bind_some, Dbprocess.dbresults, h]
    cases reply.ok <;> rfl
  have hbegin : BoundUpTo start 0 :=
    ⟨hchanges.good, hunbound, fun i _ => by rw [← hstart],
      fun i _ hi => absurd hi (Nat.not_lt_zero i)⟩
  obtain ⟨hbind, hnone⟩ := bindColumns_spec fresh hbegin (Nat.zero_le _) rfl
  rw [List.drop_zero, hcolumns, Nat.zero_add] at hbind hnone
  rw [hrun, hcolumns]
  constructor
  · intro hall
    obtain ⟨s', hrun', hchanges', hbound, hready, bound, hprocess⟩ := hbind hall
    refine ⟨s', by rw [hrun']; rfl, hchanges.trans hchanges', hbound, hready, bound, ?_⟩
    rw [hprocess, ← hstart]
  · intro hnot
    rw [hnone hnot]
    rfl

/-! ## What is delivered -/

theorem process_storeCell {s s' : State} {colnum : Nat} {cell : Option CString}
    (h : storeCell s colnum cell = some s') : s'.db.process = s.db.process := by
  rw [storeCell] at h
  split at h
  · cases h
    rfl
  · split at h
    · obtain ⟨text, -, h⟩ := Option.bind_eq_some_iff.1 h
      obtain ⟨heap, -, rfl⟩ := Option.map_eq_some_iff.1 h
      rfl
    · cases h

theorem process_storeCells {s s' : State} {cells : List (Nat × Option CString)}
    (h : storeCells s cells = some s') : s'.db.process = s.db.process := by
  induction cells generalizing s with
  | nil =>
    cases h
    rfl
  | cons p cells ih =>
    obtain ⟨s₁, hfirst, hrest⟩ := Option.bind_eq_some_iff.1 h
    rw [ih hrest, process_storeCell hfirst]

theorem columns_fetchRow {s s' : State} {more : Bool} (h : fetchRow s = some (more, s')) :
    s'.db.process.columns = s.db.process.columns := by
  obtain ⟨⟨rc, s₁⟩, hnext, hlast⟩ := Option.map_eq_some_iff.1 h
  obtain ⟨-, rfl⟩ := Prod.mk.inj hlast
  rw [dbnextrow] at hnext
  split at hnext
  · cases hnext
    rfl
  · obtain ⟨s₂, hstore, hlast⟩ := Option.map_eq_some_iff.1 hnext
    obtain ⟨-, rfl⟩ := Prod.mk.inj hlast
    rw [process_storeCells hstore]
    rfl

/-- The calls of this backend.  `fresh` is what `malloc` finds in the memory. -/
def calls (fresh : (size : Nat) → CArray size) : DbCalls State SybType where
  hasResults := hasResults fresh
  numcols s := s.db.process.columns.length
  column s colnum := s.db.process.columns[colnum - 1]?
  fetchRow := fetchRow
  colvalue := colvalue
  rowcount s := s.db.process.rowcount
  keepsColumns h := by
    rw [columns_fetchRow h]
    exact ⟨rfl, rfl⟩

variable (fresh : (size : Nat) → CArray size)

/-- The rows that are left, each of which fits the buffers. -/
structure RowsFit (process : Dbprocess) : Prop where
  ends : process.broken = false
  binds : ∀ row ∈ process.rows, RowBinds process.columns row

/-- The state behind the last row. -/
structure AfterRows (s s' : State) : Prop extends Changes s s' where
  process : s'.db.process = { s.db.process with rows := [] }

abbrev colnums (s : State) : List Nat := List.range' 1 s.db.process.columns.length

theorem delivers_rows {s : State} (hs : Good s) (hready : Ready s)
    (hwidth : ∀ row ∈ s.db.process.rows, row.length = s.db.process.columns.length)
    (hfit : RowsFit s.db.process) :
    ∃ s', Cursor.Delivers fetchRow ((calls fresh).IsRow (colnums s)) s s.db.process.rows s' ∧
      AfterRows s s' := by
  obtain ⟨hends, hbinds⟩ := hfit
  generalize hrows : s.db.process.rows = rows at hwidth hbinds
  induction rows generalizing s with
  | nil =>
    refine ⟨s, .done (by rw [fetchRow_nil hrows, hends]), .refl hs, ?_⟩
    rw [← hrows]
  | cons row rows ih =>
    rw [List.forall_mem_cons] at hwidth hbinds
    obtain ⟨s₁, hfetch, hchanges, hprocess, hready₁, hvalues⟩ :=
      (fetchRow_cons hs hready hrows hwidth.1).1 hbinds.1
    have hcolumns : s₁.db.process.columns = s.db.process.columns := by rw [hprocess]
    obtain ⟨s', hdelivers, hafter⟩ := ih hchanges.good hready₁
      (by rw [hprocess]; exact hends) (by rw [hprocess]) (by rw [hcolumns]; exact hwidth.2)
      (by rw [hcolumns]; exact hbinds.2)
    refine ⟨s', .more hfetch ⟨hvalues, rfl⟩ ?_, hchanges.trans hafter.toChanges, ?_⟩
    · rw [colnums, hcolumns] at hdelivers
      exact hdelivers
    · rw [hafter.process, hprocess]

theorem rowsFit_of_delivers {s s' : State} (hs : Good s) (hready : Ready s)
    (hwidth : ∀ row ∈ s.db.process.rows, row.length = s.db.process.columns.length)
    {rows : List (List (Option CString))}
    (h : Cursor.Delivers fetchRow ((calls fresh).IsRow (colnums s)) s rows s') :
    RowsFit s.db.process ∧ rows = s.db.process.rows ∧ AfterRows s s' := by
  generalize hrows : s.db.process.rows = left at hwidth
  induction left generalizing s rows with
  | nil =>
    have hfetch := fetchRow_nil hrows
    by_cases hends : s.db.process.broken = true
    · rw [hends] at hfetch
      refine absurd h (Cursor.not_delivers_of_always (P := fun t => t = s) rfl ?_ rows s')
      intro t ht
      rw [ht]
      exact ⟨s, hfetch, fun _ _ hrow => hrow.2⟩
    · rw [Bool.not_eq_true] at hends
      rw [hends] at hfetch
      obtain ⟨rfl, rfl⟩ := h.eq_nil hfetch
      refine ⟨⟨hends, fun row hrow => ?_⟩, rfl, .refl hs, ?_⟩
      · rw [hrows] at hrow
        exact absurd hrow List.not_mem_nil
      · rw [← hrows]
  | cons row left ih =>
    rw [List.forall_mem_cons] at hwidth
    obtain ⟨hbound, hnone⟩ := fetchRow_cons hs hready hrows hwidth.1
    by_cases hbinds : RowBinds s.db.process.columns row
    · obtain ⟨s₁, hfetch, hchanges, hprocess, hready₁, hvalues⟩ := hbound hbinds
      have hcolumns : s₁.db.process.columns = s.db.process.columns := by rw [hprocess]
      obtain ⟨row', rows', s₂, rfl, ⟨hrow, rfl⟩, hrest⟩ := h.eq_cons hfetch
      rw [colnums, ← hcolumns] at hrest
      obtain ⟨hfit, hrows', hafter⟩ := ih hchanges.good hready₁ hrest (by rw [hprocess])
        (by rw [hcolumns]; exact hwidth.2)
      have hsame : row' = row := by
        refine List.right_unique_forall₂' ?_ hrow hvalues
        intro colnum cell cell' hcell hcell'
        exact Option.some.inj (hcell.symm.trans hcell')
      refine ⟨⟨?_, ?_⟩, by rw [hsame, hrows'], hchanges.trans hafter.toChanges, ?_⟩
      · have hends := hfit.ends
        rwa [hprocess] at hends
      · have hleft := hfit.binds
        rw [hprocess] at hleft
        rw [hrows]
        exact List.forall_mem_cons.2 ⟨hbinds, hleft⟩
      · rw [hafter.process, hprocess]
    · exact absurd h (Cursor.not_delivers_of_none (hnone hbinds) rows s')

theorem isColumns_iff {s : State} {columns : List (Column SybType)} :
    (calls fresh).IsColumns s ((calls fresh).colnums s) columns ↔
      columns = s.db.process.columns := by
  rw [DbCalls.IsColumns, DbCalls.colnums, DbCalls.forall₂_range'_iff]
  show _ ∧ (∀ i column, _ → s.db.process.columns[1 + i - 1]? = some column) ↔ _
  simp only [Nat.add_sub_cancel_left]
  constructor
  · intro h
    obtain ⟨hlength, hcolumns⟩ := h
    refine List.ext_getElem hlength fun i hi hi' => ?_
    have hcolumn := hcolumns i _ (List.getElem?_eq_getElem hi)
    rw [List.getElem?_eq_getElem hi'] at hcolumn
    exact (Option.some.inj hcolumn).symm
  · rintro rfl
    exact ⟨rfl, fun _ _ h => h⟩

/-- There are buffers for the columns of a statement, its rows fit them and end. -/
structure Reply.Fits (reply : Reply) : Prop where
  columns : Binds reply.result.columns
  ends : reply.broken = false
  binds : ∀ row ∈ reply.result.rows, RowBinds reply.result.columns row

/-- The state behind the last result set. -/
structure AfterResults (s s' : State) : Prop extends Changes s s' where
  freed : s'.buffers = ∅
  log : s'.db.process.log = s.db.process.log
  pending : s'.db.process.pending = []

theorem delivers_results {s : State} (hs : Good s)
    (hfits : ∀ reply ∈ s.db.process.pending, reply.Fits) :
    ∃ s', (calls fresh).DeliversResults s
      (s.db.process.pending.map fun reply => reply.result) s' ∧ AfterResults s s' := by
  generalize hpending : s.db.process.pending = pending at hfits
  induction pending generalizing s with
  | nil =>
    obtain ⟨s', hnext, hchanges, hfreed, hprocess⟩ := hasResults_nil fresh hs hpending
    rw [Dbprocess.dbresults, hpending] at hprocess
    exact ⟨s', .done hnext, hchanges, hfreed, by rw [hprocess], by rw [hprocess]⟩
  | cons reply pending ih =>
    rw [List.forall_mem_cons] at hfits
    obtain ⟨hfit, hfits⟩ := hfits
    obtain ⟨s₁, hnext, hchanges, -, hready, bound, hprocess⟩ :=
      (hasResults_cons fresh hs hpending).1 hfit.columns
    rw [Dbprocess.dbresults, hpending] at hprocess
    obtain ⟨s₂, hrows, hafter⟩ := delivers_rows fresh hchanges.good hready
      (by rw [hprocess]; exact reply.result.width)
      ⟨by rw [hprocess]; exact hfit.ends, by rw [hprocess]; exact hfit.binds⟩
    have hprocess₂ := hafter.process
    rw [hprocess] at hprocess₂
    obtain ⟨s', hrest, hlast⟩ := ih hafter.good (by rw [hprocess₂]) hfits
    refine ⟨s', .more hnext ⟨(isColumns_iff fresh).2 (by rw [hprocess]), ?_, ?_⟩ hrest,
      (hchanges.trans hafter.toChanges).trans hlast.toChanges, hlast.freed, ?_, hlast.pending⟩
    · have hsame : s₁.db.process.rows = reply.result.rows := by rw [hprocess]
      rw [← hsame]
      exact hrows
    · show s₂.db.process.rowcount = _
      rw [hprocess₂]
    · rw [hlast.log, hprocess₂]

theorem fits_of_deliversResults {s s' : State} (hs : Good s) {results : List (ResultSet SybType)}
    (h : (calls fresh).DeliversResults s results s') :
    (∀ reply ∈ s.db.process.pending, reply.Fits) ∧
      results = (s.db.process.pending.map fun reply => reply.result) ∧ AfterResults s s' := by
  generalize hpending : s.db.process.pending = pending
  induction pending generalizing s results with
  | nil =>
    obtain ⟨s₁, hnext, hchanges, hfreed, hprocess⟩ := hasResults_nil fresh hs hpending
    rw [Dbprocess.dbresults, hpending] at hprocess
    obtain ⟨rfl, rfl⟩ := h.eq_nil hnext
    refine ⟨fun _ hmem => absurd hmem List.not_mem_nil, rfl, hchanges, hfreed, ?_, ?_⟩
    · rw [hprocess]
    · rw [hprocess]
  | cons reply pending ih =>
    obtain ⟨hbind, hnone⟩ := hasResults_cons fresh hs hpending
    by_cases hbinds : Binds reply.result.columns
    · obtain ⟨s₁, hnext, hchanges, -, hready, bound, hprocess⟩ := hbind hbinds
      rw [Dbprocess.dbresults, hpending] at hprocess
      obtain ⟨result, results', s₂, rfl, hresult, hrest⟩ := h.eq_cons hnext
      obtain ⟨hfit, hrows, hafter⟩ := rowsFit_of_delivers fresh hchanges.good hready
        (by rw [hprocess]; exact reply.result.width) hresult.rows
      have hcolumns := (isColumns_iff fresh).1 hresult.columns
      have hcount : s₂.db.process.rowcount = result.rowcount := hresult.rowcount
      have hprocess₂ := hafter.process
      rw [hprocess] at hprocess₂ hfit hcolumns hrows
      rw [hprocess₂] at hcount
      obtain ⟨hfits, hresults, hlast⟩ := ih hafter.good hrest (by rw [hprocess₂])
      have hsame : result = reply.result := by
        cases result
        cases hcolumns
        cases hrows
        cases hcount
        rfl
      refine ⟨List.forall_mem_cons.2 ⟨⟨hbinds, hfit.ends, hfit.binds⟩, hfits⟩, ?_,
        (hchanges.trans hafter.toChanges).trans hlast.toChanges, hlast.freed, ?_, hlast.pending⟩
      · rw [hsame, hresults, List.map_cons]
      · rw [hlast.log, hprocess₂]
    · exact absurd h (Cursor.not_delivers_of_none (hnone hbinds) results s')

end Mssql

end DbRelay
