import DbRelay.Db.FillData

/-!
# The buffers of a cell

The text of a cell goes through two buffers.  `dbrelay_mssql_has_results` allocates the one
that the client library writes the text into, and the writer of a column a temporary one,
which `dbrelay_mssql_colvalue` copies it into.  Both sizes come from the declared length.

* `columnSz` is the formula of the temporary one, beside `bindSz`.
* `fetchedCell` is the way of a text through both buffers.
* `cellHolds_iff`: when a text of at most the declared length comes through.
-/

namespace DbRelay

/-- The size of the temporary buffer of `dbrelay_write_json_column_std` and
`dbrelay_write_json_column_csv`. -/
def columnSz (colsize : Int) : Int := if 256 < colsize then colsize else 256

/-- What the client library writes into the bound buffer of a row with this cell. -/
def bindCell (fresh : (size : Nat) → CArray size) (colsize : Int) (cell : CString) :
    Option (List UInt8) :=
  (malloc fresh (bindSz colsize)).bind fun ⟨_, colval⟩ =>
    (colval.store 0 0).bind fun colval =>
      (colval.write 0 (cell.bytes ++ [0])).map CArray.string

/-- The text in the temporary buffer after `dbrelay_mssql_colvalue`. -/
def fetchedCell (fresh : (size : Nat) → CArray size) (colsize : Int) (cell : CString) :
    Option (List UInt8) :=
  (malloc fresh (columnSz colsize)).bind fun ⟨_, tmp⟩ =>
    (bindCell fresh colsize cell).bind fun colval =>
      (tmp.write 0 (colval ++ [0])).map CArray.string

/-- The text and its terminator fit both buffers, and the writers of a column get it as it
is. -/
structure CellHolds {T : Type} (api : DbApi T) (column : Column T) (cell : CString) : Prop where
  value : ∀ fresh, fetchedCell fresh column.length cell = some cell.bytes
  std : ∀ json colname, (writeJsonColumnStd api json column colname (some cell)).isSome = true
  csv : ∀ json, (writeJsonColumnCsv json column (some cell)).isSome = true

/-! ## The way of a text -/

/-- The sum does not wrap, but for the largest `int`. -/
theorem bindSz_eq {colsize : Int} (hint : colsize + 1 < 2 ^ 31) :
    bindSz colsize = if 256 < colsize then colsize + 1 else 256 := by
  unfold bindSz wrapInt
  split
  · rw [Int.bmod_def]
    split <;> omega
  · rfl

theorem bindSz_neg {colsize : Int} (hint : colsize + 1 = 2 ^ 31) : bindSz colsize < 0 := by
  have hcolsize : colsize = 2 ^ 31 - 1 := by omega
  rw [hcolsize]
  decide

/-- The bound buffer takes a text that is shorter than it. -/
theorem bindCell_eq (fresh : (size : Nat) → CArray size) {colsize : Int} (cell : CString)
    (h : 0 < bindSz colsize) :
    bindCell fresh colsize cell =
      if (cell.bytes.length : Int) < bindSz colsize then some cell.bytes else none := by
  have hpos : 0 < (bindSz colsize).toNat := by omega
  have hstore : (fresh (bindSz colsize).toNat).store 0 0 =
      some ((fresh (bindSz colsize).toNat).set 0 0 hpos) := dif_pos hpos
  have hlt : cell.bytes.length < (bindSz colsize).toNat ↔
      (cell.bytes.length : Int) < bindSz colsize := by omega
  rw [bindCell, malloc_eq (Int.le_of_lt h)]
  simp only [Option.bind_some, hstore, CArray.write_string _ cell.noNul, hlt]

theorem columnSz_pos (colsize : Int) : 0 < columnSz colsize := by
  unfold columnSz
  split <;> omega

/-- A text comes through if it is shorter than both buffers. -/
theorem fetchedCell_eq (fresh : (size : Nat) → CArray size) {colsize : Int} (cell : CString)
    (h : 0 < bindSz colsize) :
    fetchedCell fresh colsize cell =
      if (cell.bytes.length : Int) < bindSz colsize ∧ (cell.bytes.length : Int) < columnSz colsize
      then some cell.bytes
      else none := by
  have hpos := columnSz_pos colsize
  have hlt : cell.bytes.length < (columnSz colsize).toNat ↔
      (cell.bytes.length : Int) < columnSz colsize := by omega
  rw [fetchedCell, malloc_eq (Int.le_of_lt hpos), Option.bind_some, bindCell_eq fresh cell h]
  by_cases hbind : (cell.bytes.length : Int) < bindSz colsize
  · rw [if_pos hbind]
    simp only [Option.bind_some, CArray.write_string _ cell.noNul, hlt, hbind, true_and]
  · rw [if_neg hbind, if_neg fun h => hbind h.1]
    rfl

/-- Without a bound buffer there is no text. -/
theorem fetchedCell_none (fresh : (size : Nat) → CArray size) {colsize : Int} (cell : CString)
    (h : bindSz colsize < 0) : fetchedCell fresh colsize cell = none := by
  have hnone : malloc fresh (bindSz colsize) = none := if_neg (Int.not_le.2 h)
  rw [fetchedCell, bindCell, hnone]
  exact Option.bind_fun_none _

/-! ## The cells of a column -/

variable {T : Type}

theorem cellSz_eq (column : Column T) : (cellSz column : Int) = columnSz column.length := by
  unfold cellSz columnSz
  split <;> omega

/-- A text of at most the declared length comes through exactly if it is shorter than that
length, or than 256, and the length plus one is an `int`. -/
theorem cellHolds_iff (api : DbApi T) {column : Column T} (hlength : 0 ≤ column.length)
    (hint : column.length < 2 ^ 31) {cell : CString} (hcell : cell.bytes.length ≤ column.length) :
    CellHolds api column cell ↔
      cell.bytes.length < max 256 column.length ∧ column.length + 1 < 2 ^ 31 := by
  have hcolumn : columnSz column.length = max 256 column.length := by
    unfold columnSz
    split <;> omega
  have hcellSz := cellSz_eq column
  constructor
  · intro h
    have hvalue := h.value fun size => .replicate size 0
    have hnext : column.length + 1 < 2 ^ 31 := by
      by_contra hlast
      rw [fetchedCell_none _ cell (bindSz_neg (by omega))] at hvalue
      cases hvalue
    have hbind := bindSz_eq hnext
    have hpos : 0 < bindSz column.length := by
      rw [hbind]
      split <;> omega
    rw [fetchedCell_eq _ cell hpos] at hvalue
    split at hvalue
    · rename_i hfits
      rw [hcolumn] at hfits
      exact ⟨hfits.2, hnext⟩
    · cases hvalue
  · intro h
    obtain ⟨hshort, hnext⟩ := h
    have hbind := bindSz_eq hnext
    have hpos : 0 < bindSz column.length := by
      rw [hbind]
      split <;> omega
    have hlt : (cell.bytes.length : Int) < bindSz column.length := by
      rw [hbind]
      split <;> omega
    have hcolumnLt : cell.bytes.length < cellSz column := by omega
    refine ⟨fun fresh => ?_, fun json colname => ?_, fun json => ?_⟩
    · rw [fetchedCell_eq fresh cell hpos, if_pos ⟨hlt, by rwa [hcolumn]⟩]
    · rw [writeJsonColumnStd]
      simp only [hcolumnLt, if_true]
      split <;> rfl
    · rw [writeJsonColumnCsv]
      simp only [hcolumnLt, if_true]
      split <;> rfl

def varcharColumn (length : Int) : Column SybType where
  name := .ofBytes (ascii "first")
  type := .varchar
  length := length
  precision := 0
  scale := 0

def fullCell (length : Nat) : CString := ⟨List.replicate length 120, by simp [List.mem_replicate]⟩

theorem cellHolds_varchar254 : CellHolds mssql (varcharColumn 254) (fullCell 254) :=
  (cellHolds_iff mssql (by decide) (by decide) (by decide +kernel)).2
    ⟨by decide +kernel, by decide⟩

/-- The terminator of a text of 256 bytes is written behind a buffer of 256. -/
theorem not_cellHolds_varchar256 : ¬CellHolds mssql (varcharColumn 256) (fullCell 256) := by
  intro h
  have hstd := h.std (.new false) (ascii "first")
  have hnone : (writeJsonColumnStd mssql (.new false) (varcharColumn 256) (ascii "first")
      (some (fullCell 256))).isSome = false := by decide +kernel
  rw [hnone] at hstd
  cases hstd

end DbRelay
