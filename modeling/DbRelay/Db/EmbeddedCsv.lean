import DbRelay.Db.Standard
import DbRelay.Lib.Csv

/-!
# Result sets with embedded comma-separated values

With the flag `embedcsv` the rows of a result set are one JSON string.  The texts
of the cells are appended as they are, and so are the escapes of the quotes and
newlines that the writer adds.  The string is read as UTF-8.  An `Atom` is a character
of a cell or a comma, or one of these escapes, so a text of atoms should decode to the
code units of the atoms.

* `readChars_atoms`: however the bytes of the cells combine into escapes, the
  decoded string is shorter, or has fewer newlines, than the atoms say, unless all
  the characters stand for themselves.
* `decodableCsv_iff`: so the rows read back exactly when all cells are plain.
-/

namespace DbRelay

open JsonWriter Json

variable {T : Type}

/-! ## Atoms -/

/-- A piece of the string of rows. -/
inductive Atom
  | byte (b : UInt8) (hb : b < 128)
  /-- A character of more than one byte. -/
  | wide (c : Char) (hc : Utf8.IsWide c)
  /-- The escape that ends a row. -/
  | newline
  /-- The escape before and after a cell with a comma. -/
  | quote
  deriving DecidableEq

abbrev Atom.comma : Atom := .byte Json.comma (by decide)

def Atom.ofChar (c : Char) : Atom :=
  if hc : Utf8.IsWide c then .wide c hc
  else .byte (UInt8.ofNat c.toNat) (by
    have hlt : c.toNat < 128 := Nat.lt_of_not_le hc
    rw [UInt8.lt_iff_toNat_lt, UInt8.toNat_ofNat']
    exact (Nat.mod_le _ _).trans_lt hlt)

def Atom.bytes : Atom → List UInt8
  | .byte b _ => [b]
  | .wide c _ => String.utf8EncodeChar c
  | .newline => ascii "\\n"
  | .quote => ascii "\\\""

/-- The code units that an atom should decode to. -/
def Atom.codes : Atom → List UInt16
  | .byte b _ => [b.toUInt16]
  | .wide c _ => Utf8.utf16 c
  | .newline => [10]
  | .quote => [34]

def Atom.IsPlain : Atom → Prop
  | .byte b _ => isPlain .utf8 b = true
  | _ => True

def rawBytes (atoms : List Atom) : List UInt8 := atoms.flatMap Atom.bytes

def atomCodes (atoms : List Atom) : List UInt16 := atoms.flatMap Atom.codes

theorem bytes_ofChar (c : Char) : (Atom.ofChar c).bytes = String.utf8EncodeChar c := by
  unfold Atom.ofChar
  split
  · rfl
  · rename_i hc
    exact (Utf8.utf8EncodeChar_narrow hc).symm

theorem codes_ofChar (c : Char) : (Atom.ofChar c).codes = Utf8.utf16 c := by
  unfold Atom.ofChar
  split
  · rfl
  · rename_i hc
    exact (Utf8.utf16_narrow hc).symm

theorem ofChar_ne_newline (c : Char) : Atom.ofChar c ≠ .newline := by
  unfold Atom.ofChar
  split <;> simp

/-- A character is plain if each of its bytes is. -/
theorem ofChar_isPlain_iff (c : Char) :
    (Atom.ofChar c).IsPlain ↔ ∀ b ∈ String.utf8EncodeChar c, isPlain .bytes b = true := by
  unfold Atom.ofChar
  split
  · rename_i hc
    refine iff_of_true trivial fun b hb => ?_
    have hge := Utf8.le_of_mem_utf8EncodeChar hc b hb
    obtain ⟨hquote, hback, -⟩ := not_ascii_of_le hge
    simp only [isPlain, decide_eq_true_eq]
    exact ⟨UInt8.le_trans (by decide) hge, hquote, hback, fun h => by cases h⟩
  · rename_i hc
    rw [Utf8.utf8EncodeChar_narrow hc, List.forall_mem_singleton]
    refine ⟨isPlain_of_utf8, fun h => ?_⟩
    have hlt : c.toNat < 128 := Nat.lt_of_not_le hc
    simp only [Atom.IsPlain, isPlain, decide_eq_true_eq] at h ⊢
    refine ⟨h.1, h.2.1, h.2.2.1, fun _ => ?_⟩
    rw [UInt8.lt_iff_toNat_lt, UInt8.toNat_ofNat']
    exact (Nat.mod_le _ _).trans_lt hlt

/-- Two for each code unit, and one more for each newline. -/
def weight (atoms : List Atom) : Nat := 2 * (atomCodes atoms).length + atoms.count .newline

/-- The same for the decoded string. -/
def codeWeight (codes : List UInt16) : Nat := 2 * codes.length + codes.count 10

theorem weight_cons (atom : Atom) (atoms : List Atom) :
    weight (atom :: atoms) =
      2 * atom.codes.length + weight atoms + if atom = .newline then 1 else 0 := by
  rw [weight, weight, atomCodes, atomCodes, List.flatMap_cons, List.length_append, List.count_cons]
  by_cases h : atom = .newline
  · simp [h]
    omega
  · simp [h]
    omega

theorem weight_byte (b : UInt8) (hb : b < 128) (atoms : List Atom) :
    weight (.byte b hb :: atoms) = 2 + weight atoms := by
  rw [weight_cons, if_neg (by simp), Nat.add_zero]
  rfl

theorem codeWeight_cons (code : UInt16) (codes : List UInt16) :
    codeWeight (code :: codes) = 2 + codeWeight codes + if code = 10 then 1 else 0 := by
  rw [codeWeight, codeWeight, List.length_cons, List.count_cons]
  by_cases h : code = 10
  · simp [h]
    omega
  · simp [h]
    omega

theorem ite_le_one (p : Prop) [Decidable p] : (if p then 1 else 0) ≤ 1 := by
  split <;> omega

/-- Atoms that all are plain decode to their code units. -/
theorem isChars_rawBytes {atoms : List Atom} (h : ∀ atom ∈ atoms, atom.IsPlain) :
    IsChars .utf8 (rawBytes atoms) (atomCodes atoms) := by
  induction atoms with
  | nil => exact .nil
  | cons atom atoms ih =>
    have hrest := ih fun a ha => h a (List.mem_cons_of_mem _ ha)
    cases atom with
    | byte b hb => exact .plain (h _ List.mem_cons_self) hrest
    | wide c hc => exact .wide rfl hc hrest
    | newline => exact .escape rfl hrest
    | quote => exact .escape rfl hrest

/-- An ASCII byte in front is an atom, or the backslash of an escape. -/
theorem atoms_of_byte {atoms : List Atom} {b : UInt8} {s t : List UInt8} (hb : b < 128)
    (hquote : b ≠ quote) (hback : b ≠ backslash) (h : rawBytes atoms ++ quote :: s = b :: t) :
    ∃ atoms', atoms = .byte b hb :: atoms' ∧ t = rawBytes atoms' ++ quote :: s := by
  cases atoms with
  | nil => exact absurd (List.cons.inj h).1.symm hquote
  | cons atom atoms =>
    cases atom with
    | byte c hc =>
      rcases List.cons.inj h with ⟨rfl, rfl⟩
      exact ⟨atoms, rfl, rfl⟩
    | wide c hc =>
      rw [rawBytes, List.flatMap_cons, Atom.bytes, List.append_assoc] at h
      exact absurd hb (UInt8.not_lt.2 (Utf8.le_of_wide_append hc h))
    | newline => exact absurd (List.cons.inj h).1.symm hback
    | quote => exact absurd (List.cons.inj h).1.symm hback

/-- A hexadecimal digit is a byte of its own. -/
theorem atoms_of_hexDigit {atoms : List Atom} {b : UInt8} {s t : List UInt8} {code : UInt16}
    (hb : Json.hexDigit b = some code) (h : rawBytes atoms ++ quote :: s = b :: t) :
    ∃ hlt atoms', atoms = .byte b hlt :: atoms' ∧ t = rawBytes atoms' ++ quote :: s := by
  have hne : ∀ c, Json.hexDigit c = none → b ≠ c := by
    rintro c hc rfl
    rw [hc] at hb
    cases hb
  have hlt : b < 128 := by
    unfold Json.hexDigit at hb
    rw [UInt8.lt_iff_toNat_lt]
    have h128 : (128 : UInt8).toNat = 128 := rfl
    split at hb
    · rename_i hdigit
      have := Decimal.isDigit_iff.1 hdigit
      omega
    split at hb
    · rename_i hletter
      have hle := UInt8.le_iff_toNat_le.1 hletter.2
      have h102 : (102 : UInt8).toNat = 102 := rfl
      omega
    split at hb
    · rename_i hletter
      have hle := UInt8.le_iff_toNat_le.1 hletter.2
      have h70 : (70 : UInt8).toNat = 70 := rfl
      omega
    · cases hb
  exact ⟨hlt, atoms_of_byte hlt (hne _ rfl) (hne _ rfl) h⟩

/-- The last atom does not escape the quote after it. -/
def EndsPlain (atoms : List Atom) : Prop :=
  ∀ atom ∈ atoms.getLast?, atom.bytes ≠ [backslash]

theorem EndsPlain.tail {atom : Atom} {atoms : List Atom} (h : EndsPlain (atom :: atoms)) :
    EndsPlain atoms :=
  fun a ha => h a (List.mem_getLast?_cons ha)

theorem EndsPlain.cons {atom : Atom} {atoms : List Atom} (hatom : atom.bytes ≠ [backslash])
    (h : EndsPlain atoms) : EndsPlain (atom :: atoms) := by
  intro a ha
  cases atoms with
  | nil =>
    rw [List.getLast?_singleton, Option.mem_some_iff] at ha
    exact ha ▸ hatom
  | cons atom' atoms => exact h a (by rwa [List.getLast?_cons_cons] at ha)

/-- The decoded string has at most the weight of the atoms, and the same weight
only if all atoms are plain. -/
def Shrinks (codes : List UInt16) (atoms : List Atom) : Prop :=
  codeWeight codes ≤ weight atoms ∧
    (codeWeight codes = weight atoms → ∀ atom ∈ atoms, atom.IsPlain)

theorem shrinks_of_lt {codes : List UInt16} {atoms : List Atom}
    (h : codeWeight codes < weight atoms) : Shrinks codes atoms :=
  ⟨le_of_lt h, fun heq => absurd heq (ne_of_lt h)⟩

/-- Only the newline decodes to one. -/
theorem count_codes {atom : Atom} (h : atom.IsPlain) :
    atom.codes.count 10 = if atom = .newline then 1 else 0 := by
  cases atom with
  | byte b hb =>
    rw [if_neg (by simp), List.count_eq_zero]
    intro hmem
    have h10 : b = 10 := toUInt16_injective (List.mem_singleton.1 hmem).symm
    subst h10
    cases h
  | wide c hc =>
    rw [if_neg (by simp), List.count_eq_zero]
    exact fun hmem => absurd (Utf8.le_of_mem_utf16 hc 10 hmem) (by decide)
  | newline => rfl
  | quote => rfl

/-- An atom that is plain decodes to its code units. -/
theorem Shrinks.cons {codes : List UInt16} {atoms : List Atom} (h : Shrinks codes atoms)
    {atom : Atom} (hatom : atom.IsPlain) : Shrinks (atom.codes ++ codes) (atom :: atoms) := by
  have hcount := count_codes hatom
  have hcodes : codeWeight (atom.codes ++ codes) =
      2 * atom.codes.length + codeWeight codes + if atom = .newline then 1 else 0 := by
    rw [codeWeight, codeWeight, List.length_append, List.count_append, hcount]
    omega
  rw [Shrinks, hcodes, weight_cons]
  refine ⟨by have := h.1; omega, ?_⟩
  intro heq a ha
  rcases List.mem_cons.1 ha with rfl | ha
  · exact hatom
  · exact h.2 (by omega) a ha

/-- The bytes of an escape are ASCII. -/
theorem escapeCode_lt {e : UInt8} {code : UInt16} (h : escapeCode e = some code) : e < 128 := by
  by_contra hnot
  have hne : ∀ c : UInt8, c < 128 → e ≠ c := by
    rintro c hc rfl
    exact hnot hc
  unfold escapeCode at h
  rw [if_neg (hne _ (by decide)), if_neg (hne _ (by decide)), if_neg (hne _ (by decide)),
    if_neg (hne _ (by decide)), if_neg (hne _ (by decide)), if_neg (hne _ (by decide)),
    if_neg (hne _ (by decide)), if_neg (hne _ (by decide))] at h
  cases h

/-- What the induction on the number of atoms gives for `n`: fewer atoms shrink. -/
def FewerShrink (n : Nat) (s rest : List UInt8) : Prop :=
  ∀ {atoms : List Atom} {codes : List UInt16}, atoms.length < n → EndsPlain atoms →
    readChars .utf8 (rawBytes atoms ++ quote :: s) = some (codes, rest) → Shrinks codes atoms

/-- A backslash of a cell that escapes a letter takes more than it gives. -/
theorem weight_of_letter {atoms : List Atom} {s t rest : List UInt8} {codes : List UInt16}
    (hfewer : FewerShrink (atoms.length + 1) s rest) {hb : backslash < 128}
    (hends : EndsPlain (.byte backslash hb :: atoms)) {e : UInt8} {code : UInt16}
    (ht : rawBytes atoms ++ quote :: s = e :: t) (he : escapeCode e = some code)
    (h : readChars .utf8 t = some (codes, rest)) :
    codeWeight (code :: codes) < 2 + weight atoms := by
  have hcodes := codeWeight_cons code codes
  have hcase := ite_le_one (code = 10)
  rcases atoms with _ | ⟨atom, atoms⟩
  · exact absurd rfl (hends (.byte backslash hb) rfl)
  cases atom with
  | byte e' he' =>
    rcases List.cons.inj ht with ⟨rfl, rfl⟩
    have hle := (hfewer (by simp only [List.length_cons]; omega) hends.tail.tail h).1
    rw [weight_byte]
    omega
  | wide c hc =>
    rw [rawBytes, List.flatMap_cons, Atom.bytes, List.append_assoc] at ht
    exact absurd (escapeCode_lt he) (UInt8.not_lt.2 (Utf8.le_of_wide_append hc ht))
  | newline =>
    -- The backslash takes the one of the newline, whose letter stays.
    have htext : rawBytes (.newline :: atoms) ++ quote :: s =
        backslash :: (rawBytes (.byte 110 (by decide) :: atoms) ++ quote :: s) := rfl
    rw [htext] at ht
    rcases List.cons.inj ht with ⟨rfl, rfl⟩
    have hends' : EndsPlain (.byte 110 (by decide) :: atoms) := hends.tail.tail.cons (by decide)
    have hle := (hfewer (by simp only [List.length_cons]; omega) hends' h).1
    rw [weight_byte] at hle
    have hcode : code = 92 := (Option.some.inj he).symm
    rw [hcode, if_neg (by decide)] at hcodes
    rw [hcode, weight_cons, if_pos rfl]
    show _ < 2 + (2 * 1 + _ + 1)
    omega
  | quote =>
    have htext : rawBytes (.quote :: atoms) ++ quote :: s =
        backslash :: (quote :: (rawBytes atoms ++ quote :: s)) := rfl
    rw [htext] at ht
    rcases List.cons.inj ht with ⟨rfl, rfl⟩
    have hzero : codeWeight codes = 0 := by
      rw [(readChars_quote h).1]
      rfl
    rw [weight_cons]
    show _ < 2 + (2 * 1 + _ + _)
    omega

/-- So does one that escapes a code unit in hexadecimal digits. -/
theorem weight_of_hexCode {atoms : List Atom} {s t rest : List UInt8} {codes : List UInt16}
    (hfewer : FewerShrink (atoms.length + 1) s rest) (hends : EndsPlain atoms) {a b c d : UInt8}
    {code : UInt16} (ht : rawBytes atoms ++ quote :: s = 117 :: a :: b :: c :: d :: t)
    (hcode : hexCode a b c d = some code) (h : readChars .utf8 t = some (codes, rest)) :
    codeWeight (code :: codes) < 2 + weight atoms := by
  have hcodes := codeWeight_cons code codes
  have hcase := ite_le_one (code = 10)
  simp only [hexCode, Option.bind_eq_some_iff, Option.map_eq_some_iff] at hcode
  rcases hcode with ⟨x, hx, y, hy, z, hz, w, hw, -⟩
  obtain ⟨atoms₀, rfl, ht₀⟩ :=
    atoms_of_byte (show (117 : UInt8) < 128 by decide) (by decide) (by decide) ht
  rcases atoms_of_hexDigit hx ht₀.symm with ⟨_, atoms₁, rfl, ht₁⟩
  rcases atoms_of_hexDigit hy ht₁.symm with ⟨_, atoms₂, rfl, ht₂⟩
  rcases atoms_of_hexDigit hz ht₂.symm with ⟨_, atoms₃, rfl, ht₃⟩
  rcases atoms_of_hexDigit hw ht₃.symm with ⟨_, atoms₄, rfl, ht₄⟩
  rw [ht₄] at h
  have hle := (hfewer (by simp only [List.length_cons]; omega) hends.tail.tail.tail.tail.tail h).1
  simp only [weight_byte]
  omega

/-- By induction on the number of atoms.  An escape that starts with a byte of a
cell takes more than it gives. -/
theorem readChars_atoms {atoms : List Atom} {s rest : List UInt8} {codes : List UInt16}
    (hends : EndsPlain atoms)
    (h : readChars .utf8 (rawBytes atoms ++ quote :: s) = some (codes, rest)) :
    Shrinks codes atoms := by
  induction hlen : atoms.length using Nat.strong_induction_on generalizing atoms codes with
  | _ n ih =>
    subst hlen
    rcases atoms with _ | ⟨atom, atoms⟩
    · rw [rawBytes, List.flatMap_nil, List.nil_append, readChars.eq_def] at h
      simp only [if_true] at h
      cases h
      exact ⟨le_refl _, fun _ atom hatom => by cases hatom⟩
    have hfewer : FewerShrink (atoms.length + 1) s rest :=
      fun hlt hends' h' => ih _ hlt hends' h' rfl
    have htail : ∀ {codes' : List UInt16},
        readChars .utf8 (rawBytes atoms ++ quote :: s) = some (codes', rest) →
        Shrinks codes' atoms :=
      fun h' => hfewer (Nat.lt_succ_self _) hends.tail h'
    cases atom with
    | newline =>
      have htext : rawBytes (.newline :: atoms) ++ quote :: s =
          backslash :: 110 :: (rawBytes atoms ++ quote :: s) := rfl
      rw [htext] at h
      rcases readChars_escape (show escapeCode 110 = some 10 from rfl) h with ⟨codes', rfl, h'⟩
      exact (htail h').cons (show Atom.IsPlain .newline from trivial)
    | quote =>
      have htext : rawBytes (.quote :: atoms) ++ quote :: s =
          backslash :: quote :: (rawBytes atoms ++ quote :: s) := rfl
      rw [htext] at h
      rcases readChars_escape (show escapeCode quote = some 34 from rfl) h with ⟨codes', rfl, h'⟩
      exact (htail h').cons (show Atom.IsPlain .quote from trivial)
    | wide c hc =>
      have htext : rawBytes (.wide c hc :: atoms) ++ quote :: s =
          String.utf8EncodeChar c ++ (rawBytes atoms ++ quote :: s) := List.append_assoc _ _ _
      rw [htext, readChars_wide hc] at h
      rcases Option.map_eq_some_iff.1 h with ⟨x, h', heq⟩
      cases heq
      exact (htail h').cons (show Atom.IsPlain (.wide c hc) from trivial)
    | byte b hb =>
      have htext : rawBytes (.byte b hb :: atoms) ++ quote :: s =
          b :: (rawBytes atoms ++ quote :: s) := rfl
      rw [htext] at h
      by_cases hplain : isPlain .utf8 b = true
      · rcases readChars_plain hplain h with ⟨codes', rfl, h'⟩
        exact (htail h').cons (show Atom.IsPlain (.byte b hb) from hplain)
      apply shrinks_of_lt
      rw [weight_byte]
      rcases readChars_not_plain (fun _ => hb) hplain h with ⟨-, rfl⟩ | ⟨rfl, hescape⟩
      · exact Nat.lt_add_right _ (by decide)
      rcases hescape with ⟨e, code, t, ht, he, codes', rfl, h'⟩ |
        ⟨a, b, c, d, code, t, ht, hcode, codes', rfl, h'⟩
      · exact weight_of_letter hfewer hends ht he h'
      · exact weight_of_hexCode hfewer hends.tail ht hcode h'

/-! ## The atoms of rows -/

/-- The three characters of the format as code units. -/
def csvDialect : Csv.Dialect UInt16 where
  comma := 44
  newline := 10
  quote := 34
  comma_ne_newline := by decide
  comma_ne_quote := by decide
  newline_ne_quote := by decide

/-- The text of a cell.  `NULL` is an empty cell. -/
def cellText : Option CString → List UInt8
  | none => []
  | some tmp => tmp.bytes

/-- The text of a cell is UTF-8. -/
def CellUtf8 (cell : Option CString) : Prop := (Utf8.decode (cellText cell)).isSome = true

instance (cell : Option CString) : Decidable (CellUtf8 cell) :=
  inferInstanceAs (Decidable (_ = _))

def cellChars (cell : Option CString) : List Char := (Utf8.decode (cellText cell)).getD []

/-- The characters of a cell as code units. -/
def cellCodes (cell : Option CString) : List UInt16 := Utf8.units (cellChars cell)

def cellAtoms (cell : Option CString) : List Atom :=
  if 44 ∈ cellCodes cell then .quote :: ((cellChars cell).map .ofChar ++ [.quote])
  else (cellChars cell).map .ofChar

def cellsAtoms : List (Option CString) → List Atom
  | [] => []
  | [cell] => cellAtoms cell
  | cell :: cells => cellAtoms cell ++ .comma :: cellsAtoms cells

def rowAtoms (row : List (Option CString)) : List Atom := cellsAtoms row ++ [.newline]

def rowsAtoms (rows : List (List (Option CString))) : List Atom := rows.flatMap rowAtoms

theorem encode_cellChars {cell : Option CString} (h : CellUtf8 cell) :
    Utf8.encode (cellChars cell) = cellText cell := by
  obtain ⟨chars, hchars⟩ := Option.isSome_iff_exists.1 h
  rw [cellChars, hchars, Option.getD_some]
  exact Utf8.decode_eq_some_iff.1 hchars

theorem comma_mem_cellCodes {cell : Option CString} (h : CellUtf8 cell) :
    44 ∈ cellCodes cell ↔ 44 ∈ cellText cell := by
  rw [← encode_cellChars h]
  exact Utf8.mem_units_iff (show (44 : UInt8) < 128 by decide)

theorem atomCodes_map_ofChar (chars : List Char) :
    atomCodes (chars.map .ofChar) = Utf8.units chars := by
  rw [atomCodes, Utf8.units, List.flatMap_map]
  exact List.flatMap_congr fun c _ => codes_ofChar c

theorem rawBytes_map_ofChar (chars : List Char) :
    rawBytes (chars.map .ofChar) = Utf8.encode chars := by
  rw [rawBytes, Utf8.encode, List.flatMap_map]
  exact List.flatMap_congr fun c _ => bytes_ofChar c

theorem atomCodes_cons (atom : Atom) (atoms : List Atom) :
    atomCodes (atom :: atoms) = atom.codes ++ atomCodes atoms := rfl

theorem atomCodes_append (atoms atoms' : List Atom) :
    atomCodes (atoms ++ atoms') = atomCodes atoms ++ atomCodes atoms' :=
  List.flatMap_append

theorem length_cellAtoms (cell : Option CString) :
    (atomCodes (cellAtoms cell)).length = Csv.fieldSize csvDialect (cellCodes cell) := by
  have hcomma : csvDialect.comma = 44 := rfl
  rw [cellAtoms, Csv.fieldSize, hcomma]
  by_cases h : 44 ∈ cellCodes cell
  · rw [if_pos h, if_pos h, atomCodes_cons, atomCodes_append, atomCodes_map_ofChar,
      List.length_append, List.length_append, cellCodes]
    show 1 + (_ + 1) = _
    omega
  · rw [if_neg h, if_neg h, atomCodes_map_ofChar, cellCodes, Nat.add_zero]

theorem length_rowAtoms {row : List (Option CString)} (hrow : row ≠ []) :
    (atomCodes (rowAtoms row)).length = Csv.rowSize csvDialect (row.map cellCodes) := by
  have hcells : (atomCodes (cellsAtoms row)).length + 1 =
      (row.map fun cell => Csv.fieldSize csvDialect (cellCodes cell)).sum + row.length := by
    induction row with
    | nil => exact absurd rfl hrow
    | cons cell cells ih =>
      cases cells with
      | nil =>
        rw [cellsAtoms, length_cellAtoms]
        simp
      | cons cell' cells =>
        have hrest := ih (List.cons_ne_nil _ _)
        rw [cellsAtoms, atomCodes_append, atomCodes_cons, List.length_append, List.length_append,
          length_cellAtoms]
        · simp only [List.map_cons, List.sum_cons, List.length_cons, Atom.codes,
            List.length_nil] at hrest ⊢
          omega
        · exact List.cons_ne_nil _ _
  rw [rowAtoms, atomCodes_append, List.length_append, Csv.rowSize, List.map_map, List.length_map]
  exact hcells

theorem count_map_ofChar (chars : List Char) :
    (chars.map Atom.ofChar).count .newline = 0 := by
  rw [List.count_eq_zero]
  intro hmem
  obtain ⟨c, -, hc⟩ := List.mem_map.1 hmem
  exact ofChar_ne_newline c hc

theorem count_cellAtoms (cell : Option CString) : (cellAtoms cell).count .newline = 0 := by
  have hchars := count_map_ofChar (cellChars cell)
  rw [cellAtoms]
  split
  · rw [List.count_cons, List.count_append, hchars]
    rfl
  · exact hchars

theorem count_rowAtoms (row : List (Option CString)) : (rowAtoms row).count .newline = 1 := by
  have hcells : (cellsAtoms row).count .newline = 0 := by
    induction row with
    | nil => rfl
    | cons cell cells ih =>
      cases cells with
      | nil => exact count_cellAtoms cell
      | cons cell' cells =>
        rw [cellsAtoms, List.count_append, List.count_cons, count_cellAtoms, ih]
        · rfl
        · exact List.cons_ne_nil _ _
  rw [rowAtoms, List.count_append, hcells]
  rfl

/-- The weight is what the reader of comma-separated values asks for. -/
theorem weight_rowsAtoms {rows : List (List (Option CString))} (hrows : ∀ row ∈ rows, row ≠ []) :
    weight (rowsAtoms rows) =
      2 * ((rows.map (·.map cellCodes)).map (Csv.rowSize csvDialect)).sum + rows.length := by
  induction rows with
  | nil => rfl
  | cons row rows ih =>
    have hrest := ih fun r hr => hrows r (List.mem_cons_of_mem _ hr)
    have hlen := length_rowAtoms (hrows row List.mem_cons_self)
    have hcount := count_rowAtoms row
    rw [weight] at hrest ⊢
    rw [rowsAtoms] at hrest ⊢
    rw [List.flatMap_cons, atomCodes_append, List.length_append, List.count_append]
    simp only [List.map_cons, List.sum_cons, List.length_cons]
    omega

theorem endsPlain_rowsAtoms (rows : List (List (Option CString))) :
    EndsPlain (rowsAtoms rows) := by
  induction rows with
  | nil =>
    intro atom hatom
    cases hatom
  | cons row rows ih =>
    have happend : ∀ atoms : List Atom, EndsPlain (atoms ++ .newline :: rowsAtoms rows) := by
      intro atoms atom hatom
      rw [List.getLast?_append_of_ne_nil _ (List.cons_ne_nil _ _)] at hatom
      exact ih.cons (show Atom.newline.bytes ≠ [backslash] by decide) atom hatom
    rw [rowsAtoms, List.flatMap_cons, rowAtoms, List.append_assoc]
    exact happend _

/-! ## What the string of rows decodes to -/

/-- The text of a cell is UTF-8, and each byte of it stands for itself in a string. -/
def CellPlain (cell : Option CString) : Prop :=
  CellUtf8 cell ∧ ∀ b ∈ cellText cell, isPlain .bytes b = true

instance (cell : Option CString) : Decidable (CellPlain cell) :=
  inferInstanceAs (Decidable (_ ∧ ∀ b ∈ cellText cell, _))

def RowsPlain (rows : List (List (Option CString))) : Prop :=
  ∀ row ∈ rows, ∀ cell ∈ row, CellPlain cell

/-- The cells of the rows are UTF-8. -/
def RowsUtf8 (rows : List (List (Option CString))) : Prop :=
  ∀ row ∈ rows, ∀ cell ∈ row, CellUtf8 cell

theorem RowsPlain.rowsUtf8 {rows : List (List (Option CString))} (h : RowsPlain rows) :
    RowsUtf8 rows :=
  fun row hrow cell hcell => (h row hrow cell hcell).1

theorem cellAtoms_isPlain_iff {cell : Option CString} (h : CellUtf8 cell) :
    (∀ atom ∈ cellAtoms cell, atom.IsPlain) ↔ CellPlain cell := by
  have hchars : (∀ atom ∈ (cellChars cell).map Atom.ofChar, atom.IsPlain) ↔
      ∀ b ∈ cellText cell, isPlain .bytes b = true := by
    rw [← encode_cellChars h, Utf8.encode, List.forall_mem_map]
    simp only [List.mem_flatMap]
    constructor
    · rintro hplain b ⟨c, hc, hb⟩
      exact (ofChar_isPlain_iff c).1 (hplain c hc) b hb
    · exact fun hplain c hc => (ofChar_isPlain_iff c).2 fun b hb => hplain b ⟨c, hc, hb⟩
  have hquote : Atom.IsPlain .quote := trivial
  rw [CellPlain, and_iff_right h, cellAtoms]
  split
  · rw [List.forall_mem_cons, List.forall_mem_append, hchars, and_iff_right hquote]
    simpa using fun _ => hquote
  · exact hchars

theorem rowsAtoms_isPlain_iff {rows : List (List (Option CString))} (h : RowsUtf8 rows) :
    (∀ atom ∈ rowsAtoms rows, atom.IsPlain) ↔ RowsPlain rows := by
  have hcells : ∀ row : List (Option CString), (∀ cell ∈ row, CellUtf8 cell) →
      ((∀ atom ∈ cellsAtoms row, atom.IsPlain) ↔ ∀ cell ∈ row, CellPlain cell) := by
    intro row hrow
    induction row with
    | nil => simp [cellsAtoms]
    | cons cell cells ih =>
      have hcell := cellAtoms_isPlain_iff (hrow cell List.mem_cons_self)
      cases cells with
      | nil =>
        rw [cellsAtoms, hcell]
        simp
      | cons cell' cells =>
        have hcomma : Atom.IsPlain .comma := by
          show isPlain .utf8 comma = true
          decide
        rw [cellsAtoms, List.forall_mem_append, List.forall_mem_cons, hcell,
          ih fun c hc => hrow c (List.mem_cons_of_mem _ hc), and_iff_right hcomma]
        · simp only [List.forall_mem_cons]
        · exact List.cons_ne_nil _ _
  have hrow : ∀ row : List (Option CString), (∀ cell ∈ row, CellUtf8 cell) →
      ((∀ atom ∈ rowAtoms row, atom.IsPlain) ↔ ∀ cell ∈ row, CellPlain cell) := by
    intro row hutf8
    have hnewline : ∀ atom ∈ [Atom.newline], atom.IsPlain := by
      intro atom hatom
      rw [List.mem_singleton.1 hatom]
      exact trivial
    rw [rowAtoms, List.forall_mem_append, and_iff_left hnewline, hcells row hutf8]
  rw [RowsPlain]
  induction rows with
  | nil => simp [rowsAtoms]
  | cons row rows ih =>
    rw [rowsAtoms] at ih ⊢
    simp only [List.flatMap_cons, List.forall_mem_append, List.forall_mem_cons]
    exact and_congr (hrow row (h row List.mem_cons_self))
      (ih fun r hr => h r (List.mem_cons_of_mem _ hr))

/-- A plain cell holds neither quotes nor newlines. -/
theorem not_mem_cellCodes {cell : Option CString} (h : CellPlain cell) :
    10 ∉ cellCodes cell ∧ 34 ∉ cellCodes cell := by
  have hbyte : ∀ b : UInt8, b < 128 → isPlain .bytes b = false →
      b.toUInt16 ∉ cellCodes cell := by
    intro b hb hplain hmem
    rw [cellCodes, Utf8.mem_units_iff hb, encode_cellChars h.1] at hmem
    rw [h.2 b hmem] at hplain
    cases hplain
  exact ⟨hbyte 10 (by decide) (by decide), hbyte 34 (by decide) (by decide)⟩

/-- A plain cell decodes to its field. -/
theorem atomCodes_cellAtoms {cell : Option CString} (h : CellPlain cell) :
    atomCodes (cellAtoms cell) = Csv.encodeField csvDialect (cellCodes cell) := by
  have hplain := not_mem_cellCodes h
  have hdouble : (cellCodes cell).flatMap
      (fun c => if c = csvDialect.quote then [c, c] else [c]) = cellCodes cell := by
    rw [List.flatMap_congr (g := fun c => [c])]
    · exact List.flatMap_singleton' _
    · intro c hc
      rw [if_neg]
      rintro rfl
      exact hplain.2 hc
  rw [cellAtoms, Csv.encodeField, hdouble]
  by_cases hcomma : 44 ∈ cellCodes cell
  · rw [if_pos hcomma, if_pos (.inl hcomma), atomCodes_cons, atomCodes_append,
      atomCodes_map_ofChar]
    rfl
  · rw [if_neg hcomma, if_neg, atomCodes_map_ofChar, cellCodes]
    rw [not_or, not_or]
    exact ⟨hcomma, hplain.1, hplain.2⟩

/-- Plain rows decode to what the writer of comma-separated values gives. -/
theorem atomCodes_rowsAtoms {rows : List (List (Option CString))} (h : RowsPlain rows) :
    atomCodes (rowsAtoms rows) = Csv.encode csvDialect (rows.map (·.map cellCodes)) := by
  have hrow : ∀ row : List (Option CString),
      (∀ cell ∈ row, CellPlain cell) →
      atomCodes (rowAtoms row) = Csv.encodeRow csvDialect (row.map cellCodes) := by
    intro row hplain
    rw [rowAtoms, atomCodes_append]
    induction row with
    | nil => rfl
    | cons cell cells ih =>
      have hcell := atomCodes_cellAtoms (hplain cell List.mem_cons_self)
      have hrest := ih fun c hc => hplain c (List.mem_cons_of_mem _ hc)
      cases cells with
      | nil =>
        rw [cellsAtoms, hcell]
        rfl
      | cons cell' cells =>
        rw [cellsAtoms, atomCodes_append, atomCodes_cons, hcell, List.append_assoc,
          List.append_assoc, hrest]
        · rfl
        · exact List.cons_ne_nil _ _
  rw [RowsPlain] at h
  induction rows with
  | nil => rfl
  | cons row rows ih =>
    have hrest := ih fun r hr => h r (List.mem_cons_of_mem _ hr)
    rw [rowsAtoms] at hrest ⊢
    rw [List.flatMap_cons, atomCodes_append, hrest, hrow row (h row List.mem_cons_self)]
    rfl

/-- The string of plain rows, each with a cell, reads as the rows. -/
theorem read_rowsAtoms {rows : List (List (Option CString))} (h : RowsPlain rows)
    (hrows : ∀ row ∈ rows, row ≠ []) :
    Csv.read csvDialect (atomCodes (rowsAtoms rows)) = some (rows.map (·.map cellCodes)) := by
  rw [atomCodes_rowsAtoms h]
  apply Csv.read_encode
  intro row hrow
  rcases List.mem_map.1 hrow with ⟨r, hr, rfl⟩
  simpa using hrows r hr

/-- If the string of rows reads as the rows, all cells are plain. -/
theorem rowsPlain_of_read {rows : List (List (Option CString))} {s rest : List UInt8}
    {codes : List UInt16} (hutf8 : RowsUtf8 rows)
    (hcodes : readChars .utf8 (rawBytes (rowsAtoms rows) ++ quote :: s) = some (codes, rest))
    (hread : Csv.read csvDialect codes = some (rows.map (·.map cellCodes))) :
    RowsPlain rows ∧ ∀ row ∈ rows, row ≠ [] := by
  rcases Csv.size_le_of_read csvDialect hread with ⟨hne, hsize, hcount⟩
  have hrows : ∀ row ∈ rows, row ≠ [] := by
    intro row hrow
    have := hne _ (List.mem_map_of_mem hrow)
    simpa using this
  have hshrinks := readChars_atoms (endsPlain_rowsAtoms rows) hcodes
  have hweight := weight_rowsAtoms hrows
  have hnewline : csvDialect.newline = 10 := rfl
  rw [List.length_map, hnewline] at hcount
  have heq : codeWeight codes = weight (rowsAtoms rows) := by
    have hle := hshrinks.1
    rw [codeWeight] at hle ⊢
    omega
  exact ⟨(rowsAtoms_isPlain_iff hutf8).1 (hshrinks.2 heq), hrows⟩

/-! ## What the writer appends -/

/-- The bytes of a cell.  A cell with a comma has quotes around it. -/
def cellBytes (cell : Option CString) : List UInt8 :=
  if 44 ∈ cellText cell then ascii "\\\"" ++ cellText cell ++ ascii "\\\"" else cellText cell

def cellsBytes : List (Option CString) → List UInt8
  | [] => []
  | [cell] => cellBytes cell
  | cell :: cells => cellBytes cell ++ comma :: cellsBytes cells

/-- The bytes of the string of rows. -/
def rowsBytes (rows : List (List (Option CString))) : List UInt8 :=
  rows.flatMap fun row => cellsBytes row ++ ascii "\\n"

theorem rawBytes_append (atoms atoms' : List Atom) :
    rawBytes (atoms ++ atoms') = rawBytes atoms ++ rawBytes atoms' :=
  List.flatMap_append

theorem rawBytes_cellAtoms {cell : Option CString} (h : CellUtf8 cell) :
    rawBytes (cellAtoms cell) = cellBytes cell := by
  rw [cellAtoms, cellBytes]
  by_cases hcomma : 44 ∈ cellText cell
  · rw [if_pos ((comma_mem_cellCodes h).2 hcomma), if_pos hcomma, ← encode_cellChars h,
      ← rawBytes_map_ofChar, ← List.singleton_append, rawBytes_append, rawBytes_append,
      ← List.append_assoc]
    rfl
  · rw [if_neg fun hmem => hcomma ((comma_mem_cellCodes h).1 hmem), if_neg hcomma,
      rawBytes_map_ofChar, encode_cellChars h]

theorem rawBytes_cellsAtoms {row : List (Option CString)} (h : ∀ cell ∈ row, CellUtf8 cell) :
    rawBytes (cellsAtoms row) = cellsBytes row := by
  induction row with
  | nil => rfl
  | cons cell cells ih =>
    have hcell := rawBytes_cellAtoms (h cell List.mem_cons_self)
    cases cells with
    | nil => exact hcell
    | cons cell' cells =>
      rw [cellsAtoms, cellsBytes, rawBytes_append, hcell,
        ← ih fun c hc => h c (List.mem_cons_of_mem _ hc)]
      · rfl
      · exact List.cons_ne_nil _ _
      · exact List.cons_ne_nil _ _

/-- The atoms stand for what is written. -/
theorem rawBytes_rowsAtoms {rows : List (List (Option CString))} (h : RowsUtf8 rows) :
    rawBytes (rowsAtoms rows) = rowsBytes rows := by
  induction rows with
  | nil => rfl
  | cons row rows ih =>
    rw [rowsAtoms, List.flatMap_cons, rawBytes_append, ← rowsAtoms,
      ih fun r hr => h r (List.mem_cons_of_mem _ hr), rowAtoms, rawBytes_append,
      rawBytes_cellsAtoms (h row List.mem_cons_self)]
    rfl

/-- A cell, if the copies fit. -/
theorem writeJsonColumn_csv (api : DbApi T) (json : JsonWriter) (hmode : json.mode = .csv)
    (column : Column T) (cell : Option CString) (maxcolname : Int) :
    ∃ json', Wrote json (cellBytes cell) json' ∧
      writeJsonColumn api json column cell maxcolname =
        if CellFits column cell then
          some (json', (columnName maxcolname column.name.bytes).2)
        else none := by
  have hfits := columnName_fits_iff maxcolname column.name.bytes
  rw [writeJsonColumn, hmode]
  simp only
  cases cell with
  | none =>
    refine ⟨json, .refl json, ?_⟩
    by_cases hname : isUnnamedColumn column.name.bytes = true ∨
        column.name.bytes.length < colnameSz
    · rw [if_pos (hfits.2 hname), if_pos (show CellFits column none from ⟨hname, by simp⟩)]
      rfl
    · rw [if_neg fun h => hname (hfits.1 h), if_neg fun h : CellFits column none => hname h.1]
  | some tmp =>
    refine ⟨if 44 ∈ tmp.bytes then
        ((json.addJson (ascii "\\\"")).addJson tmp.bytes).addJson (ascii "\\\"")
      else json.addJson tmp.bytes, ?_, ?_⟩
    · rw [cellBytes, cellText]
      split
      · exact (((Wrote.refl json).append (ascii "\\\"")).append tmp.bytes).append (ascii "\\\"")
      · exact (Wrote.refl json).append tmp.bytes
    · by_cases hname : isUnnamedColumn column.name.bytes = true ∨
          column.name.bytes.length < colnameSz
      · rw [if_pos (hfits.2 hname), writeJsonColumnCsv]
        by_cases hcell : tmp.bytes.length < cellSz column
        · rw [if_pos hcell,
            if_pos (show CellFits column (some tmp) from ⟨hname, by simpa using hcell⟩)]
          split
          · rfl
          · rfl
        · rw [if_neg hcell, if_neg fun h : CellFits column (some tmp) => hcell (h.2 tmp rfl)]
          rfl
      · rw [if_neg fun h => hname (hfits.1 h),
          if_neg fun h : CellFits column (some tmp) => hname h.1]

theorem writeCells_csv (api : DbApi T) (json : JsonWriter) (hmode : json.mode = .csv)
    (maxcolname : Int) (cells : List (Column T × Option CString)) :
    ∃ json', Wrote json (cellsBytes (cells.map Prod.snd)) json' ∧
      writeCells api json maxcolname cells =
        if ∀ p ∈ cells, CellFits p.1 p.2 then some json' else none := by
  induction cells generalizing json maxcolname with
  | nil => exact ⟨json, .refl json, by simp [writeCells]⟩
  | cons p cells ih =>
    rcases p with ⟨column, cell⟩
    rcases writeJsonColumn_csv api json hmode column cell maxcolname with ⟨json₁, hcell, heq⟩
    have hmode₁ : json₁.mode = .csv := hcell.unchanged.2.2.2.2.trans hmode
    have hcomma : Wrote json (cellBytes cell ++ if cells = [] then [] else ascii ",")
        (if json₁.mode = .csv ∧ cells ≠ [] then json₁.addJson (ascii ",") else json₁) := by
      by_cases hnil : cells = []
      · rw [if_pos hnil, if_neg fun h => h.2 hnil, List.append_nil]
        exact hcell
      · rw [if_neg hnil, if_pos ⟨hmode₁, hnil⟩]
        exact hcell.append (ascii ",")
    rcases ih _ (hcomma.unchanged.2.2.2.2.trans hmode) (columnName maxcolname column.name.bytes).2
      with ⟨json', hcells, hrest⟩
    refine ⟨json', ?_, ?_⟩
    · have htext : cellsBytes (((column, cell) :: cells).map Prod.snd) =
          cellBytes cell ++ (if cells = [] then [] else ascii ",") ++
            cellsBytes (cells.map Prod.snd) := by
        cases cells with
        | nil => simp [cellsBytes]
        | cons q cells =>
          rw [List.map_cons, List.map_cons, cellsBytes, if_neg (List.cons_ne_nil _ _),
            List.append_assoc]
          · rfl
          · exact List.cons_ne_nil _ _
      rw [htext]
      exact hcomma.trans hcells
    · rw [writeCells, heq]
      simp only [List.forall_mem_cons]
      by_cases hfits : CellFits column cell
      · rw [if_pos hfits, Option.bind_some]
        simp only
        rw [hrest]
        simp only [and_iff_right hfits]
      · rw [if_neg hfits, if_neg fun h => hfits h.1]
        rfl

theorem writeRows_csv (api : DbApi T) (columns : List (Column T)) (json : JsonWriter)
    (hmode : json.mode = .csv) (rows : List (List (Option CString)))
    (hwidth : ∀ row ∈ rows, row.length = columns.length) :
    ∃ json', Wrote json (rowsBytes rows) json' ∧
      writeRows api columns json rows =
        if ∀ row ∈ rows, ∀ p ∈ columns.zip row, CellFits p.1 p.2 then some json' else none := by
  induction rows generalizing json with
  | nil => exact ⟨json, .refl json, by simp [writeRows]⟩
  | cons row rows ih =>
    have hsnd : (columns.zip row).map Prod.snd = row :=
      List.map_snd_zip (by rw [hwidth row List.mem_cons_self])
    rcases writeCells_csv api json hmode 0 (columns.zip row) with ⟨json₁, hcells, heq⟩
    rw [hsnd] at hcells
    have hmode₁ : json₁.mode = .csv := hcells.unchanged.2.2.2.2.trans hmode
    have hrow := hcells.append (ascii "\\n")
    rcases ih _ (hrow.unchanged.2.2.2.2.trans hmode)
      fun r hr => hwidth r (List.mem_cons_of_mem _ hr)
      with ⟨json', hrows, hrest⟩
    refine ⟨json', ?_, ?_⟩
    · have htext : rowsBytes (row :: rows) =
          cellsBytes row ++ ascii "\\n" ++ rowsBytes rows := by
        rw [rowsBytes, List.flatMap_cons]
        rfl
      rw [htext]
      exact hrow.trans hrows
    · rw [writeRows, writeRow]
      simp only [hmode, reduceCtorEq, if_false, List.forall_mem_cons]
      rw [heq]
      by_cases hfits : ∀ p ∈ columns.zip row, CellFits p.1 p.2
      · rw [if_pos hfits, Option.map_some, Option.bind_some]
        simp only [hmode₁, reduceCtorEq, if_false]
        simp only [and_iff_right hfits]
        exact hrest
      · rw [if_neg hfits, if_neg fun h => hfits h.1]
        rfl

theorem mode_writeRows (api : DbApi T) (columns : List (Column T)) {json json' : JsonWriter}
    (hmode : json.mode = .csv) {rows : List (List (Option CString))}
    (hwidth : ∀ row ∈ rows, row.length = columns.length)
    (h : writeRows api columns json rows = some json') : json'.mode = .csv := by
  rcases writeRows_csv api columns json hmode rows hwidth with ⟨json₁, hrows, heq⟩
  rw [heq] at h
  split at h
  · cases h
    exact hrows.unchanged.2.2.2.2.trans hmode
  · cases h

/-! ## The text of result sets -/

/-- The members of a result set, without what comes before the first one. -/
def csvMembers (api : DbApi T) (stale : CString) (pp : Bool) (level : Int)
    (result : ResultSet T) : List UInt8 :=
  keyText pp (ascii "fields") ++
    (Tree.array (fieldItems api stale 0 result.columns)).text pp level ++ ascii ", " ++
    keyText pp (ascii "rows") ++ ascii "\"" ++ rowsBytes result.rows ++ ascii "\"," ++
    keyText pp (ascii "count") ++ (countMember result.rowcount).text pp level

def csvResult (api : DbApi T) (stale : CString) (pp : Bool) (level : Int)
    (result : ResultSet T) : List UInt8 :=
  ascii "\x7b" ++ pretty pp (ascii "\n") ++
    (tabs pp (level + 1) ++ csvMembers api stale pp (level + 1) result) ++
    pretty pp (ascii "\n") ++ tabs pp level ++ ascii "\x7d"

/-- `first` says that no result set was written before. -/
def csvItems (api : DbApi T) (stale : CString) (pp : Bool) (level : Int) (first : Bool) :
    List (ResultSet T) → List UInt8
  | [] => []
  | result :: results => (if first then [] else ascii "," ++ pretty pp (ascii "\n")) ++
      tabs pp level ++ csvResult api stale pp level result ++
      csvItems api stale pp level false results

/-- The rows, after a member that was written before. -/
theorem writeRows_member (api : DbApi T) (json : JsonWriter) (hmode : json.mode = .csv)
    {node : JsonNode} {stack : List JsonNode} (hstack : json.stack = node :: stack)
    (hitems : node.numItems ≠ 0) (hpending : json.pending = false) (result : ResultSet T) :
    ∃ json', Wrote { json with stack := countTop 1 json.stack, pending := true }
        (ascii ", " ++ keyText json.prettyprint (ascii "rows") ++ ascii "\"" ++
          rowsBytes result.rows ++ ascii "\",") json' ∧
      ((writeRows api result.columns ((json.addKey (ascii "rows")).addJson (ascii "\""))
        result.rows).map fun json => json.addJson (ascii "\",")) =
        if ResultFits result then some json' else none := by
  have hlead : keyLead json = ascii ", " := by
    rw [keyLead_cons hstack hpending, if_neg (by simpa using hitems)]
  have hopen := (addKey_wrote json (ascii "rows")).append (ascii "\"")
  rw [hlead] at hopen
  rcases writeRows_csv api result.columns _ (hopen.unchanged.2.2.2.2.trans hmode) result.rows
    result.width with ⟨json₁, hrows, heq⟩
  refine ⟨_, (hopen.trans hrows).append (ascii "\","), ?_⟩
  show Option.map _ (writeRows api result.columns
    ((json.addKey (ascii "rows")).append (ascii "\"")) result.rows) = _
  rw [heq]
  by_cases hfits : ∀ row ∈ result.rows, ∀ p ∈ result.columns.zip row, CellFits p.1 p.2
  · rw [if_pos hfits, if_pos (show ResultFits result from hfits)]
    rfl
  · rw [if_neg hfits, if_neg (show ¬ResultFits result from hfits)]
    rfl

/-- The row count, whose comma is in front of it already. -/
theorem writeCount_pending (json : JsonWriter) {node : JsonNode} {stack : List JsonNode}
    (hstack : json.stack = node :: stack) (hitems : node.numItems ≠ 0)
    (hpending : json.pending = true) (rowcount : Int) :
    Wrote { json with stack := countTop 1 json.stack, pending := false }
      (keyText json.prettyprint (ascii "count") ++
        (countMember rowcount).text json.prettyprint json.tabLevel) (writeCount json rowcount) := by
  have hlead : keyLead json = [] := by
    simp [keyLead, hasItems, hstack, hpending, hitems]
  have hone : (countMember rowcount).items = 1 := by
    unfold countMember
    split <;> rfl
  have h := Member.run_calls (countMember rowcount) (ascii "count") json
  rw [hlead, hone, List.nil_append] at h
  rw [writeCount_eq]
  exact h

/-- A result set in an object that is open. -/
theorem csvMembers_wrote (api : DbApi T) (stale : CString) (json : JsonWriter)
    (hmode : json.mode = .csv) {stack : List JsonNode}
    (hstack : json.stack = { nodeType := .object } :: stack) (hpending : json.pending = false)
    (result : ResultSet T) :
    ∃ json', Wrote { json with stack := { nodeType := .object, numItems := 4 } :: stack }
        (tabs json.prettyprint json.tabLevel ++
          csvMembers api stale json.prettyprint json.tabLevel result) json' ∧
      ((writeRows api result.columns (((writeFields api stale
        ((json.addKey (ascii "fields")).newArray) 0 result.columns).endArray.addKey
          (ascii "rows")).addJson (ascii "\"")) result.rows).map fun json =>
            writeCount (json.addJson (ascii "\",")) result.rowcount) =
        if ResultFits result then some json' else none := by
  have hcalls : (writeFields api stale ((json.addKey (ascii "fields")).newArray) 0
      result.columns).endArray = json.run ((Member.tree (.array
        (fieldItems api stale 0 result.columns))).calls (ascii "fields")) := by
    rw [writeFields_eq, Member.calls, Tree.calls, run_cons, run_cons, run_append]
    rfl
  have hfields := Member.run_calls (.tree (.array (fieldItems api stale 0 result.columns)))
    (ascii "fields") json
  have hlead : keyLead json = tabs json.prettyprint json.tabLevel := by
    rw [keyLead_cons hstack hpending]
    rfl
  rw [hlead, Member.text, ← hcalls] at hfields
  generalize (writeFields api stale ((json.addKey (ascii "fields")).newArray) 0
    result.columns).endArray = json₁ at hfields ⊢
  have h₁ := hfields.unchanged
  have hstack₁ : json₁.stack = { nodeType := .object, numItems := 2 } :: stack := by
    rw [h₁.1, hstack]
    rfl
  rcases writeRows_member api json₁ (h₁.2.2.2.2.trans hmode) hstack₁ (by decide) h₁.2.1 result
    with ⟨json₂, hrows, heq⟩
  have h₂ := hrows.unchanged
  have hstack₂ : json₂.stack = { nodeType := .object, numItems := 3 } :: stack := by
    rw [h₂.1, hstack₁]
    rfl
  have hcount := writeCount_pending json₂ hstack₂ (by decide) h₂.2.1 result.rowcount
  refine ⟨writeCount json₂ result.rowcount, ?_, ?_⟩
  · have h := (hfields.chain hrows).chain hcount
    have hpp : json₂.prettyprint = json.prettyprint := h₂.2.2.2.1.trans h₁.2.2.2.1
    have hpp₁ : json₁.prettyprint = json.prettyprint := h₁.2.2.2.1
    have hlevel : json₂.tabLevel = json.tabLevel := h₂.2.2.1.trans h₁.2.2.1
    rw [hstack₂, hpp, hpp₁, hlevel] at h
    have hjson : { json with
        stack := countTop 1 ({ nodeType := .object, numItems := 3 } :: stack)
        pending := false } =
        { json with stack := { nodeType := .object, numItems := 4 } :: stack } := by
      rw [← hpending]
      rfl
    rw [hjson] at h
    rw [csvMembers]
    simpa only [List.append_assoc] using h
  · have hmap := congrArg (Option.map fun json => writeCount json result.rowcount) heq
    rw [Option.map_map] at hmap
    rw [show (fun json : JsonWriter => writeCount (json.addJson (ascii "\",")) result.rowcount) =
      (fun json => writeCount json result.rowcount) ∘ fun json => json.addJson (ascii "\",")
        from rfl, hmap]
    split
    · rfl
    · rfl

theorem writeResult_csv (api : DbApi T) (stale : CString) (json : JsonWriter)
    (hmode : json.mode = .csv) (result : ResultSet T) :
    ∃ json', Wrote { json with stack := countTop 1 json.stack, pending := false }
        (nodeLead json ++ csvResult api stale json.prettyprint json.tabLevel result) json' ∧
      writeResult api stale json result =
        if ResultFits result then some json' else none := by
  have hnew := (newNode_wrote json .object (ascii "\x7b")).unchanged
  have hmode' : (newNode .object (ascii "\x7b") json).mode = .csv := hnew.2.2.2.2.trans hmode
  rcases csvMembers_wrote api stale (newNode .object (ascii "\x7b") json) hmode' hnew.1 hnew.2.1
    result with ⟨json₁, hmembers, heq⟩
  have htext : tabs (newNode .object (ascii "\x7b") json).prettyprint
        (newNode .object (ascii "\x7b") json).tabLevel ++
      csvMembers api stale (newNode .object (ascii "\x7b") json).prettyprint
        (newNode .object (ascii "\x7b") json).tabLevel result =
      tabs json.prettyprint (json.tabLevel + 1) ++
        csvMembers api stale json.prettyprint (json.tabLevel + 1) result := by
    rw [hnew.2.2.1, hnew.2.2.2.1]
  rw [htext] at hmembers
  refine ⟨endNode (ascii "\x7d") json₁, node_wrote (ascii "\x7d") hmembers, ?_⟩
  have hfields : (writeFields api stale
      (((newNode .object (ascii "\x7b") json).addKey (ascii "fields")).newArray) 0
        result.columns).endArray.addKey (ascii "rows") =
      (newNode .object (ascii "\x7b") json).run ((.addKey (ascii "fields") :: .newArray ::
        (fieldItems api stale 0 result.columns).calls) ++ [.endArray, .addKey (ascii "rows")]) := by
    rw [writeFields_eq, run_append]
    rfl
  have hrowsMode : ((writeFields api stale
      (((newNode .object (ascii "\x7b") json).addKey (ascii "fields")).newArray) 0
        result.columns).endArray.addKey (ascii "rows")).mode = .csv := by
    rw [hfields, mode_run, hmode']
  rw [writeResult, newObject]
  show Option.map _ (writeRows api result.columns (if ((writeFields api stale
      (((newNode .object (ascii "\x7b") json).addKey (ascii "fields")).newArray) 0
        result.columns).endArray.addKey (ascii "rows")).mode = .std then _ else _) result.rows) = _
  rw [hrowsMode, if_neg (by decide)]
  cases hvalue : writeRows api result.columns (((writeFields api stale
      (((newNode .object (ascii "\x7b") json).addKey (ascii "fields")).newArray) 0
        result.columns).endArray.addKey (ascii "rows")).addJson (ascii "\"")) result.rows with
  | none =>
    rw [hvalue] at heq
    by_cases hfits : ResultFits result
    · rw [if_pos hfits] at heq
      cases heq
    · rw [if_neg hfits]
      rfl
  | some json₂ =>
    have hmode₂ : json₂.mode = .csv := by
      refine mode_writeRows api result.columns ?_ result.width hvalue
      exact hrowsMode
    rw [hvalue, Option.map_some] at heq
    by_cases hfits : ResultFits result
    · rw [if_pos hfits] at heq
      rw [if_pos hfits, Option.map_some, ← Option.some.inj heq, hmode₂, if_neg (by decide)]
      rfl
    · rw [if_neg hfits] at heq
      cases heq

theorem writeResults_csv (api : DbApi T) (stale : CString) (results : List (ResultSet T))
    (json : JsonWriter) (hmode : json.mode = .csv) {node : JsonNode} {stack : List JsonNode}
    (hstack : json.stack = node :: stack) (hpending : json.pending = false) :
    ∃ n json', Wrote
        { json with stack := { node with numItems := n } :: stack, pending := false }
        (csvItems api stale json.prettyprint json.tabLevel (decide (node.numItems = 0)) results)
        json' ∧
      writeResults api stale json results =
        if ∀ result ∈ results, ResultFits result then some json' else none := by
  induction results generalizing json node with
  | nil =>
    refine ⟨node.numItems, json, ?_, by simp [writeResults]⟩
    rw [csvItems, ← hstack, ← hpending]
    exact .refl json
  | cons result results ih =>
    rcases writeResult_csv api stale json hmode result with ⟨json₁, hresult, heq⟩
    have h₁ := hresult.unchanged
    have hstack₁ : json₁.stack = { node with numItems := node.numItems + 1 } :: stack := by
      rw [h₁.1, hstack]
      rfl
    rcases ih json₁ (h₁.2.2.2.2.trans hmode) hstack₁ h₁.2.1 with ⟨n, json₂, hresults, hrest⟩
    refine ⟨n, json₂, ?_, ?_⟩
    · have htext : csvItems api stale json₁.prettyprint json₁.tabLevel
          (decide (node.numItems + 1 = 0)) results =
          csvItems api stale json.prettyprint json.tabLevel false results := by
        rw [h₁.2.2.1, h₁.2.2.2.1]
        rfl
      rw [htext] at hresults
      have hchain := hresult.chain hresults
      rw [nodeLead_cons hstack hpending] at hchain
      rw [csvItems]
      simpa only [List.append_assoc] using hchain
    · rw [writeResults, heq]
      simp only [List.forall_mem_cons]
      by_cases hfits : ResultFits result
      · rw [if_pos hfits, Option.bind_some, hrest]
        simp only [and_iff_right hfits]
      · rw [if_neg hfits, if_neg fun h => hfits h.1]
        rfl

/-- The array of result sets. -/
def csvArray (api : DbApi T) (stale : CString) (pp : Bool) (level : Int)
    (results : List (ResultSet T)) : List UInt8 :=
  ascii "[" ++ pretty pp (ascii "\n") ++ csvItems api stale pp (level + 1) true results ++
    pretty pp (ascii "\n") ++ tabs pp level ++ ascii "]"

/-- The text that a batch gives with embedded comma-separated values. -/
theorem queryText_csv (api : DbApi T) (stale : CString) (prettyprint : Bool)
    (results : List (ResultSet T)) :
    queryText api stale prettyprint .csv results =
      if ∀ result ∈ results, ResultWritable api result then
        some (keyText prettyprint (ascii "data") ++ csvArray api stale prettyprint 0 results)
      else none := by
  have hkey := addKey_wrote ((JsonWriter.new prettyprint).setMode .csv) (ascii "data")
  have hlead : keyLead ((JsonWriter.new prettyprint).setMode .csv) = [] := rfl
  rw [hlead, List.nil_append] at hkey
  refine queryText_eq ?_
  rw [dbFillData]
  generalize ((JsonWriter.new prettyprint).setMode .csv).addKey (ascii "data") = json at hkey ⊢
  have hk := hkey.unchanged
  have hnew := (newNode_wrote json .array (ascii "[")).unchanged
  rcases writeResults_csv api stale results (newNode .array (ascii "[") json)
    (hnew.2.2.2.2.trans hk.2.2.2.2) hnew.1 hnew.2.1 with ⟨n, json', hitems, heq⟩
  have hpending : (newNode .array (ascii "[") json).pending = false := hnew.2.1
  rw [← hpending] at hitems
  have htext := (node_wrote (ascii "]") hitems).toString_eq
  have hnode : nodeLead json = [] := by
    rw [nodeLead, hk.2.1]
    rfl
  have hstart : json.toString = keyText prettyprint (ascii "data") := hkey.toString_eq
  rw [newArray, heq]
  by_cases hfits : ∀ result ∈ results, ResultFits result
  · rw [if_pos hfits, if_pos hfits, Option.map_some, Option.map_some, csvArray]
    have hpp : json.prettyprint = prettyprint := hk.2.2.2.1
    have hlevel : json.tabLevel = 0 := hk.2.2.1
    rw [hnew.2.2.1, hnew.2.2.2.1, hnode, hpp, hlevel] at htext
    refine congrArg some (htext.trans ?_)
    show json.toString ++ _ = _
    rw [hstart, List.nil_append]
    rfl
  · rw [if_neg hfits, if_neg hfits]
    rfl

/-! ## What the text stands for -/

/-- `v` has the rows of a result set as comma-separated values.  The texts of the cells are
UTF-8, as the text that they are in. -/
def ShowsCsv (result : ResultSet T) (v : Value) : Prop :=
  ∃ fields codes ms,
    v = .object ((codeUnits (ascii "fields"), fields) ::
      (codeUnits (ascii "rows"), .string codes) :: ms) ∧
    RowsUtf8 result.rows ∧
      Csv.read csvDialect codes = some (result.rows.map (·.map cellCodes))

/-- The text, between braces, is JSON from which the rows can be read. -/
def DecodableCsv (api : DbApi T) (stale : CString) (prettyprint : Bool)
    (results : List (ResultSet T)) : Prop :=
  ∃ text sets, queryText api stale prettyprint .csv results = some text ∧
    IsText .utf8 (ascii "\x7b" ++ text ++ ascii "\x7d")
      (.object [(codeUnits (ascii "data"), .array sets)]) ∧
    List.Forall₂ ShowsCsv results sets

/-- The value of a result set whose rows are plain. -/
def csvValue (api : DbApi T) (stale : CString) (result : ResultSet T) : Value :=
  .object [(codeUnits (ascii "fields"),
      (Tree.array (fieldItems api stale 0 result.columns)).toJson),
    (codeUnits (ascii "rows"), .string (atomCodes (rowsAtoms result.rows))),
    (codeUnits (ascii "count"), (countMember result.rowcount).toJson)]

theorem isKey_literal : IsKey .utf8 (ascii "fields") ∧ IsKey .utf8 (ascii "rows") ∧
    IsKey .utf8 (ascii "count") := by
  decide

/-- The rest of the members after the fields, with what is before the rows. -/
def rowsText (pp : Bool) (level : Int) (result : ResultSet T) : List UInt8 :=
  quote :: (ascii "rows" ++ quote :: (pretty pp (ascii " ") ++ colon :: (pretty pp (ascii " ") ++
    (quote :: (rowsBytes result.rows ++ [quote]))))) ++ [] ++ comma ::
    (keyText pp (ascii "count") ++ (countMember result.rowcount).text pp level)

theorem csvMembers_eq (api : DbApi T) (stale : CString) (pp : Bool) (level : Int)
    (result : ResultSet T) :
    csvMembers api stale pp level result =
      quote :: (ascii "fields" ++ quote :: (pretty pp (ascii " ") ++ colon ::
        (pretty pp (ascii " ") ++
          (Tree.array (fieldItems api stale 0 result.columns)).text pp level))) ++ [] ++
        comma :: (ascii " " ++ rowsText pp level result) := by
  rw [csvMembers, rowsText]
  simp only [List.append_assoc, keyText_append]
  simp [ascii]

theorem fields_derives (api : DbApi T) (stale : CString) (pp : Bool) (level : Int)
    (columns : List (Column T)) :
    Derives .utf8 (.value (Tree.array (fieldItems api stale 0 columns)).toJson)
      ((Tree.array (fieldItems api stale 0 columns)).text pp level) :=
  Tree.derives _ (show Tree.WellFormed .utf8 (.array _) from
    wellFormed_fieldItems api stale 0 columns)
    pp level

/-- The row count, as the last member. -/
theorem count_derives (pp : Bool) (level : Int) (rowcount : Int) :
    Derives .utf8 (.members [(codeUnits (ascii "count"), (countMember rowcount).toJson)])
      (keyText pp (ascii "count") ++ (countMember rowcount).text pp level) := by
  have hvalue := Member.derives (countMember rowcount) (wellFormed_count rowcount).2.1 pp level
  have h := Derives.lastMember isSpace_nil (isChars_codeUnits isKey_literal.2.2)
    (isSpace_blank pp) (isSpace_blank pp) hvalue isSpace_nil
  rw [keyText_append]
  simpa only [List.nil_append, List.append_nil] using h

theorem rowsText_derives {result : ResultSet T} (hplain : RowsPlain result.rows) (pp : Bool)
    (level : Int) :
    Derives .utf8 (.members [(codeUnits (ascii "rows"),
        .string (atomCodes (rowsAtoms result.rows))),
      (codeUnits (ascii "count"), (countMember result.rowcount).toJson)])
      (rowsText pp level result) := by
  have hchars := isChars_rawBytes ((rowsAtoms_isPlain_iff hplain.rowsUtf8).2 hplain)
  rw [rawBytes_rowsAtoms hplain.rowsUtf8] at hchars
  exact .member isSpace_nil (isChars_codeUnits isKey_literal.2.1) (isSpace_blank pp)
    (isSpace_blank pp) (.string hchars) isSpace_nil (count_derives pp level result.rowcount)

theorem csvMembers_derives (api : DbApi T) (stale : CString) {result : ResultSet T}
    (hplain : RowsPlain result.rows) (pp : Bool) (level : Int) :
    Derives .utf8 (.members [(codeUnits (ascii "fields"),
        (Tree.array (fieldItems api stale 0 result.columns)).toJson),
      (codeUnits (ascii "rows"), .string (atomCodes (rowsAtoms result.rows))),
      (codeUnits (ascii "count"), (countMember result.rowcount).toJson)])
      (csvMembers api stale pp level result) := by
  have hblank : IsSpace (ascii " ") := by decide
  rw [csvMembers_eq]
  exact .member isSpace_nil (isChars_codeUnits isKey_literal.1) (isSpace_blank pp)
    (isSpace_blank pp) (fields_derives api stale pp level result.columns) isSpace_nil
    ((rowsText_derives hplain pp level).space_members hblank)

theorem csvResult_derives (api : DbApi T) (stale : CString) {result : ResultSet T}
    (hplain : RowsPlain result.rows) (pp : Bool) (level : Int) :
    Derives .utf8 (.value (csvValue api stale result)) (csvResult api stale pp level result) := by
  have hbody := (((csvMembers_derives api stale hplain pp (level + 1)).space_members
    (isSpace_tabs pp (level + 1))).space_members (isSpace_newline pp)).members_space
      ((isSpace_newline pp).append (isSpace_tabs pp level))
  rw [csvResult]
  simpa [csvValue, ascii] using Derives.object hbody

/-- A result set begins with its brace. -/
theorem skipSpace_csvResult (api : DbApi T) (stale : CString) (pp : Bool) (level : Int)
    (result : ResultSet T) (s : List UInt8) :
    skipSpace (csvResult api stale pp level result ++ s) =
      csvResult api stale pp level result ++ s := by
  rw [csvResult]
  simp only [List.append_assoc]
  exact skipSpace_cons rfl _

theorem csvItems_cons (api : DbApi T) (stale : CString) (pp : Bool) (level : Int)
    (first : Bool) (result : ResultSet T) (results : List (ResultSet T)) :
    csvItems api stale pp level first (result :: results) =
      (if first then [] else ascii "," ++ pretty pp (ascii "\n")) ++ (tabs pp level ++
        csvResult api stale pp level result ++ csvItems api stale pp level false results) := by
  rw [csvItems]
  simp only [List.append_assoc]

/-- Result sets with plain rows, without the comma before the first one. -/
theorem csvItems_derives (api : DbApi T) (stale : CString) (pp : Bool) (level : Int)
    {results : List (ResultSet T)} (hplain : ∀ result ∈ results, RowsPlain result.rows) :
    results = [] ∨ ∃ t, Derives .utf8 (.elements (results.map (csvValue api stale))) t ∧
      ∀ first, csvItems api stale pp level first results =
        (if first then [] else ascii "," ++ pretty pp (ascii "\n")) ++ t := by
  induction results with
  | nil => exact .inl rfl
  | cons result results ih =>
    rw [List.forall_mem_cons] at hplain
    have hresult := csvResult_derives api stale hplain.1 pp level
    refine .inr ⟨_, ?_, fun first => csvItems_cons api stale pp level first result results⟩
    rcases ih hplain.2 with rfl | ⟨t, ht, htext⟩
    · have h := Derives.lastElement (isSpace_tabs pp level) hresult isSpace_nil
      simpa only [csvItems, List.map_cons, List.map_nil] using h
    · have h := Derives.element (isSpace_tabs pp level) hresult isSpace_nil
        (ht.space_elements (isSpace_newline pp))
      rw [htext]
      simpa [ascii] using h

theorem csvArray_derives (api : DbApi T) (stale : CString) (pp : Bool) (level : Int)
    {results : List (ResultSet T)} (hplain : ∀ result ∈ results, RowsPlain result.rows) :
    Derives .utf8 (.value (.array (results.map (csvValue api stale))))
      (csvArray api stale pp level results) := by
  rw [csvArray]
  rcases csvItems_derives api stale pp (level + 1) hplain with rfl | ⟨t, ht, htext⟩
  · have hspace := ((isSpace_newline pp).append (isSpace_newline pp)).append
      (isSpace_tabs pp level)
    rw [csvItems, List.append_nil]
    simpa [ascii] using Derives.emptyArray hspace
  · have hbody := (ht.space_elements (isSpace_newline pp)).elements_space
      ((isSpace_newline pp).append (isSpace_tabs pp level))
    rw [htext]
    simpa [ascii] using Derives.array hbody

/-! ## Other rows do not read back -/

/-- If the parser finds the rows in the members, they are plain. -/
theorem rowsPlain_of_parseMembers (api : DbApi T) (stale : CString) {pp : Bool} {level : Int}
    {result : ResultSet T} {fuel : Nat} {fields : Value} {codes : List UInt16}
    {ms : List (List UInt16 × Value)} {s rest : List UInt8}
    (hfuel : 2 * (csvMembers api stale pp level result).length ≤ fuel)
    (hutf8 : RowsUtf8 result.rows)
    (hread : Csv.read csvDialect codes = some (result.rows.map (·.map cellCodes)))
    (h : parseMembers .utf8 fuel (skipSpace (csvMembers api stale pp level result ++ s)) =
      some ((codeUnits (ascii "fields"), fields) ::
        (codeUnits (ascii "rows"), .string codes) :: ms, rest)) :
    RowsPlain result.rows ∧ ∀ row ∈ result.rows, row ≠ [] := by
  have htext := csvMembers_eq api stale pp level result
  have hlen := congrArg List.length htext
  simp only [List.length_append, List.length_cons] at hlen
  rcases fuel with _ | fuel
  · omega
  have hlen' : 2 * ((Tree.array (fieldItems api stale 0 result.columns)).text pp level).length ≤
      fuel := by
    omega
  have hmembers := parsed_members isSpace_nil (isChars_codeUnits isKey_literal.1)
    (isSpace_blank pp) (isSpace_blank pp) (fields_derives api stale pp level result.columns)
    isSpace_nil (parsed_of_derives (fields_derives api stale pp level result.columns))
    hlen' (show isSpace comma = false from rfl) (show isNumberChar comma = false from rfl)
    (ascii " " ++ (rowsText pp level result ++ s))
  rw [if_neg (by decide), if_pos rfl] at hmembers
  have hsplit : csvMembers api stale pp level result ++ s =
      [] ++ (quote :: (ascii "fields" ++ quote :: (pretty pp (ascii " ") ++ colon ::
        (pretty pp (ascii " ") ++
          (Tree.array (fieldItems api stale 0 result.columns)).text pp level)))) ++ [] ++
        comma :: (ascii " " ++ (rowsText pp level result ++ s)) := by
    rw [htext]
    simp only [List.nil_append, List.append_assoc, List.cons_append]
  rw [hsplit, hmembers] at h
  rcases Option.map_eq_some_iff.1 h with ⟨⟨ms', t⟩, hrows, heq⟩
  simp only [Prod.mk.injEq, List.cons.injEq] at heq
  obtain ⟨⟨-, rfl⟩, rfl⟩ := heq
  have hskip : skipSpace (ascii " " ++ (rowsText pp level result ++ s)) =
      quote :: (ascii "rows" ++ quote :: (pretty pp (ascii " ") ++ colon ::
        (pretty pp (ascii " ") ++ (quote :: (rowsBytes result.rows ++ quote ::
          (comma :: (keyText pp (ascii "count") ++
            ((countMember result.rowcount).text pp level ++ s)))))))) := by
    rw [skipSpace_append (by decide), rowsText]
    simp only [List.append_assoc, List.cons_append, List.nil_append]
    exact skipSpace_cons rfl _
  rw [hskip] at hrows
  rcases fuel with _ | _ | fuel
  · cases hrows
  · rcases parseMembers_cons hrows with ⟨u, u', -, hvalue⟩
    cases hvalue
  rcases parseMembers_cons hrows with ⟨u, u', hkey, hvalue⟩
  rw [(parseKey_codeUnits (isSpace_blank pp) hkey).2, skipSpace_append (isSpace_blank pp),
    skipSpace_cons rfl, parseValue, if_pos rfl] at hvalue
  rcases Option.map_eq_some_iff.1 hvalue with ⟨⟨codes', t⟩, hcodes, heq⟩
  simp only [Prod.mk.injEq, Value.string.injEq] at heq
  rw [heq.1, ← rawBytes_rowsAtoms hutf8] at hcodes
  exact rowsPlain_of_read hutf8 hcodes hread

theorem rowsPlain_of_parseValue (api : DbApi T) (stale : CString) {pp : Bool} {level : Int}
    {result : ResultSet T} {fuel : Nat} {v : Value} {s rest : List UInt8}
    (hshows : ShowsCsv result v)
    (hfuel : 2 * (csvResult api stale pp level result).length ≤ fuel)
    (h : parseValue .utf8 fuel (csvResult api stale pp level result ++ s) = some (v, rest)) :
    RowsPlain result.rows ∧ ∀ row ∈ result.rows, row ≠ [] := by
  rcases hshows with ⟨fields, codes, ms, rfl, hutf8, hread⟩
  have hlen : (csvMembers api stale pp (level + 1) result).length + 2 ≤
      (csvResult api stale pp level result).length := by
    have hopen : (ascii "\x7b").length = 1 := rfl
    have hclose : (ascii "\x7d").length = 1 := rfl
    rw [csvResult]
    simp only [List.length_append, hopen, hclose]
    omega
  rcases fuel with _ | fuel
  · omega
  have htext : csvResult api stale pp level result ++ s =
      openBrace :: (pretty pp (ascii "\n") ++ (tabs pp (level + 1) ++
        (csvMembers api stale pp (level + 1) result ++
          (pretty pp (ascii "\n") ++ (tabs pp level ++ (ascii "\x7d" ++ s)))))) := by
    rw [csvResult]
    simp only [List.append_assoc]
    rfl
  have hhead : (skipSpace (csvMembers api stale pp (level + 1) result ++
      (pretty pp (ascii "\n") ++ (tabs pp level ++ (ascii "\x7d" ++ s))))).head? ≠
        some closeBrace := by
    rw [csvMembers_eq]
    simp only [List.append_assoc, List.cons_append]
    rw [skipSpace_cons rfl, List.head?_cons]
    decide
  rw [htext, parseValue, if_neg (by decide), if_neg (by decide), if_pos rfl,
    skipSpace_append (isSpace_newline pp), skipSpace_append (isSpace_tabs pp (level + 1)),
    if_neg hhead] at h
  rcases Option.map_eq_some_iff.1 h with ⟨⟨ms', t⟩, hmembers, heq⟩
  simp only [Prod.mk.injEq, Value.object.injEq] at heq
  rw [heq.1] at hmembers
  exact rowsPlain_of_parseMembers api stale (by omega) hutf8 hread hmembers

/-- By induction on the result sets.  The parser goes on after a result set whose rows
are plain. -/
theorem rowsPlain_of_parseElements (api : DbApi T) (stale : CString) {pp : Bool} {level : Int}
    {results : List (ResultSet T)} {fuel : Nat} {sets : List Value} {w s rest : List UInt8}
    (hshows : List.Forall₂ ShowsCsv results sets)
    (hfuel : 2 * (csvItems api stale pp level false results).length ≤ fuel + 1)
    (h : parseElements .utf8 fuel (skipSpace (csvItems api stale pp level true results ++
      (w ++ closeBracket :: s))) = some (sets, rest)) :
    ∀ result ∈ results, RowsPlain result.rows ∧ ∀ row ∈ result.rows, row ≠ [] := by
  induction hshows generalizing fuel rest with
  | nil =>
    intro result hresult
    cases hresult
  | @cons result v results sets hv hshows ih =>
    have hlen : (csvResult api stale pp level result).length +
        (csvItems api stale pp level false results).length + 1 ≤
        (csvItems api stale pp level false (result :: results)).length := by
      have hcomma : (ascii ",").length = 1 := rfl
      simp only [csvItems, if_neg Bool.false_ne_true, List.length_append, hcomma]
      omega
    rcases fuel with _ | fuel
    · omega
    have hfirst := h
    rw [csvItems_cons, if_pos rfl, List.nil_append, List.append_assoc, List.append_assoc,
      skipSpace_append (isSpace_tabs pp level), skipSpace_csvResult] at hfirst
    rcases parseElements_cons hfirst with ⟨t, hvalue⟩
    have hresult := rowsPlain_of_parseValue api stale hv (by omega) hvalue
    rw [List.forall_mem_cons]
    refine ⟨hresult, ?_⟩
    cases results with
    | nil =>
      intro result' hresult'
      cases hresult'
    | cons result' results =>
      have hderives := csvResult_derives api stale hresult.1 pp level
      have hsplit : csvItems api stale pp level true (result :: result' :: results) ++
          (w ++ closeBracket :: s) =
          tabs pp level ++ csvResult api stale pp level result ++ [] ++ comma ::
            (pretty pp (ascii "\n") ++ (csvItems api stale pp level true (result' :: results) ++
              (w ++ closeBracket :: s))) := by
        rw [csvItems_cons, csvItems_cons api stale pp level false,
          csvItems_cons api stale pp level true, if_pos rfl, if_neg Bool.false_ne_true]
        simp only [List.nil_append, List.append_nil, List.append_assoc]
        rfl
      rw [hsplit, parsed_elements (isSpace_tabs pp level) hderives isSpace_nil
        (parsed_of_derives hderives) (by omega) rfl rfl, if_neg (by decide), if_pos rfl,
        skipSpace_append (isSpace_newline pp)] at h
      rcases Option.map_eq_some_iff.1 h with ⟨⟨sets', t'⟩, hitems, heq⟩
      simp only [Prod.mk.injEq, List.cons.injEq] at heq
      rw [heq.1.2] at hitems
      exact ih (by omega) hitems

theorem rowsPlain_of_parseArray (api : DbApi T) (stale : CString) {pp : Bool} {level : Int}
    {results : List (ResultSet T)} {fuel : Nat} {sets : List Value} {s rest : List UInt8}
    (hshows : List.Forall₂ ShowsCsv results sets)
    (hfuel : 2 * (csvArray api stale pp level results).length ≤ fuel)
    (h : parseValue .utf8 fuel (csvArray api stale pp level results ++ s) =
      some (.array sets, rest)) :
    ∀ result ∈ results, RowsPlain result.rows ∧ ∀ row ∈ result.rows, row ≠ [] := by
  cases hshows with
  | nil =>
    intro result hresult
    cases hresult
  | @cons result v results sets hv hshows =>
    have hlen : (csvItems api stale pp (level + 1) false (result :: results)).length ≤
        (csvArray api stale pp level (result :: results)).length := by
      have hopen : (ascii "[").length = 1 := rfl
      have hclose : (ascii "]").length = 1 := rfl
      have hcomma : (ascii ",").length = 1 := rfl
      rw [csvArray, csvItems_cons, csvItems_cons]
      simp only [if_pos, if_neg Bool.false_ne_true, List.length_append, hopen, hclose, hcomma,
        List.length_nil]
      omega
    rcases fuel with _ | fuel
    · cases h
    have htext : csvArray api stale pp level (result :: results) ++ s =
        openBracket :: (pretty pp (ascii "\n") ++
          (csvItems api stale pp (level + 1) true (result :: results) ++
            (pretty pp (ascii "\n") ++ tabs pp level ++ closeBracket :: s))) := by
      rw [csvArray]
      simp only [List.append_assoc]
      rfl
    have hhead : (skipSpace (csvItems api stale pp (level + 1) true (result :: results) ++
        (pretty pp (ascii "\n") ++ tabs pp level ++ closeBracket :: s))).head? ≠
          some closeBracket := by
      rw [csvItems_cons, if_pos rfl, List.nil_append, List.append_assoc, List.append_assoc,
        skipSpace_append (isSpace_tabs pp (level + 1)), skipSpace_csvResult, csvResult]
      simp only [List.append_assoc]
      exact show some openBrace ≠ some closeBracket by decide
    rw [htext, parseValue, if_neg (by decide), if_pos rfl,
      skipSpace_append (isSpace_newline pp), if_neg hhead] at h
    rcases Option.map_eq_some_iff.1 h with ⟨⟨sets', t⟩, hitems, heq⟩
    simp only [Prod.mk.injEq, Value.array.injEq] at heq
    rw [heq.1] at hitems
    exact rowsPlain_of_parseElements api stale (.cons hv hshows) (by omega) hitems

/-! ## Decodable exactly when plain -/

/-- The rows read back exactly when the columns have their buffers, every copy fits its
buffer, no row is empty, and each cell is UTF-8 whose bytes stand for themselves in a JSON
string. -/
theorem decodableCsv_iff (api : DbApi T) (stale : CString) (prettyprint : Bool)
    (results : List (ResultSet T)) :
    DecodableCsv api stale prettyprint results ↔
      ∀ result ∈ results, api.Binds result ∧ ∀ row ∈ result.rows, row ≠ [] ∧
        (∀ p ∈ result.columns.zip row, CellFits p.1 p.2) ∧ ∀ cell ∈ row, CellPlain cell := by
  have hdata : IsKey .utf8 (ascii "data") := by decide
  constructor
  · intro h
    rcases h with ⟨text, sets, htext, hjson, hsets⟩
    rw [queryText_csv] at htext
    split at htext
    · rename_i hfits
      obtain rfl := Option.some.inj htext
      have hskip : ∀ t, skipSpace (csvArray api stale prettyprint 0 results ++ t) =
          csvArray api stale prettyprint 0 results ++ t := by
        intro t
        rw [csvArray]
        simp only [List.append_assoc]
        exact skipSpace_cons rfl _
      rcases parseValue_of_isText_between hskip hjson with ⟨fuel, rest, hfuel, hparse⟩
      have hplain := rowsPlain_of_parseArray api stale hsets hfuel hparse
      intro result hresult
      refine ⟨(hfits result hresult).1, fun row hrow => ?_⟩
      exact ⟨(hplain result hresult).2 row hrow, (hfits result hresult).2 row hrow,
        (hplain result hresult).1 row hrow⟩
    · cases htext
  · intro h
    have hfits : ∀ result ∈ results, ResultWritable api result := fun result hresult =>
      ⟨(h result hresult).1, fun row hrow => ((h result hresult).2 row hrow).2.1⟩
    have hplain : ∀ result ∈ results, RowsPlain result.rows :=
      fun result hresult row hrow => ((h result hresult).2 row hrow).2.2
    refine ⟨_, results.map (csvValue api stale), ?_,
      isText_between hdata (csvArray_derives api stale prettyprint 0 hplain) prettyprint, ?_⟩
    · rw [queryText_csv, if_pos hfits]
    · rw [List.forall₂_map_right_iff, List.forall₂_same]
      intro result hresult
      refine ⟨_, _, _, rfl, (hplain result hresult).rowsUtf8,
        read_rowsAtoms (hplain result hresult) ?_⟩
      exact fun row hrow => ((h result hresult).2 row hrow).1

/-- `select 'a"b' as x`: one row, with a quote in its cell. -/
def quoteInCell : ResultSet MysqlType where
  columns := [⟨.ofBytes (ascii "x"), .varString, 3, 3, 0⟩]
  rows := [[some (.ofBytes (ascii "a\"b"))]]
  rowcount := 1
  width := width_singleton

/-- The string of rows ends at the quote. -/
theorem not_decodableCsv_quoteInCell : ¬DecodableCsv mysql .empty false [quoteInCell] := by
  intro h
  obtain ⟨text, sets, htext, hjson, -⟩ := h
  have hnone : ((queryText mysql .empty false .csv [quoteInCell]).bind fun text =>
      parse .utf8 (ascii "\x7b" ++ text ++ ascii "\x7d")).isNone = true := by
    decide +kernel
  rw [htext, Option.bind_some, parse_of_isText hjson] at hnone
  cases hnone

end DbRelay
