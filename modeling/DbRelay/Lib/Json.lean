import DbRelay.Lib.CString
import DbRelay.Lib.Decimal
import DbRelay.Lib.Utf8

/-!
# JSON texts

The grammar of RFC 8259 over bytes, and a parser for it.

A number is kept as its text.  A string is the list of its UTF-16 code units.  An
object is the list of its members in the order of the text.

What is not escaped in a string is read as an `Encoding` says: each byte is the code
unit of the same value, or the bytes are UTF-8.

* `Derives`: the grammar, one constructor for each production.
* `parse`: the parser.  `parseValue` and its companions take fuel, and the
  length of the text gives enough of it.
* `parse_of_isText`: the parser reads every text of the grammar, as the one
  value that the grammar gives it.
-/

namespace Json

open Decimal

/-! ## Values and bytes -/

/-- A JSON value. -/
inductive Value
  | null
  | bool (b : Bool)
  | number (text : List UInt8)
  | string (codes : List UInt16)
  | array (items : List Value)
  | object (members : List (List UInt16 × Value))

abbrev quote : UInt8 := 34
abbrev comma : UInt8 := 44
abbrev colon : UInt8 := 58
abbrev openBracket : UInt8 := 91
abbrev backslash : UInt8 := 92
abbrev closeBracket : UInt8 := 93
abbrev openBrace : UInt8 := 123
abbrev closeBrace : UInt8 := 125

/-- The insignificant whitespace. -/
def isSpace (b : UInt8) : Bool := decide (b = 32 ∨ b = 9 ∨ b = 10 ∨ b = 13)

/-- Whitespace only. -/
def IsSpace (w : List UInt8) : Prop := ∀ b ∈ w, isSpace b = true

instance (w : List UInt8) : Decidable (IsSpace w) :=
  decidable_of_iff (w.all isSpace = true) List.all_eq_true

def skipSpace (s : List UInt8) : List UInt8 := s.dropWhile isSpace

/-! ## Numbers -/

/-- The bytes of which numbers consist. -/
def isNumberChar (b : UInt8) : Bool :=
  isDigit b || decide (b = 43 ∨ b = 45 ∨ b = 46 ∨ b = 69 ∨ b = 101)

/-- What follows a sign, if there is one. -/
def afterMinus (s : List UInt8) : List UInt8 :=
  if s.head? = some 45 then s.tail else s

def afterSign (s : List UInt8) : List UInt8 :=
  if s.head? = some 45 ∨ s.head? = some 43 then s.tail else s

/-- What follows one or more digits. -/
def afterDigits : List UInt8 → Option (List UInt8)
  | [] => none
  | b :: s => if isDigit b then some (s.dropWhile isDigit) else none

/-- What follows the integer part.  It has no leading zero. -/
def afterInt (s : List UInt8) : Option (List UInt8) :=
  if s.head? = some 48 then some s.tail else afterDigits s

/-- What follows the fraction, if there is one. -/
def afterFrac (s : List UInt8) : Option (List UInt8) :=
  if s.head? = some 46 then afterDigits s.tail else some s

/-- What follows the exponent, if there is one. -/
def afterExp (s : List UInt8) : Option (List UInt8) :=
  if s.head? = some 69 ∨ s.head? = some 101 then afterDigits (afterSign s.tail) else some s

/-- The production for numbers. -/
def isNumber (s : List UInt8) : Bool :=
  decide (((afterInt (afterMinus s)).bind afterFrac).bind afterExp = some [])

/-! ## Strings -/

/-- The escapes of two bytes. -/
def escapeCode (b : UInt8) : Option UInt16 :=
  if b = quote then some 34
  else if b = backslash then some 92
  else if b = 47 then some 47
  else if b = 98 then some 8
  else if b = 102 then some 12
  else if b = 110 then some 10
  else if b = 114 then some 13
  else if b = 116 then some 9
  else none

/-- A hexadecimal digit. -/
def hexDigit (b : UInt8) : Option UInt16 :=
  if isDigit b then some (b.toUInt16 - 48)
  else if 97 ≤ b ∧ b ≤ 102 then some (b.toUInt16 - 87)
  else if 65 ≤ b ∧ b ≤ 70 then some (b.toUInt16 - 55)
  else none

/-- Four hexadecimal digits. -/
def hexCode (a b c d : UInt8) : Option UInt16 :=
  (hexDigit a).bind fun a => (hexDigit b).bind fun b => (hexDigit c).bind fun c =>
    (hexDigit d).map fun d => ((a * 16 + b) * 16 + c) * 16 + d

/-- How the bytes of a text stand for its characters. -/
inductive Encoding
  /-- Each byte is the code unit of the same value. -/
  | bytes
  | utf8
  deriving DecidableEq, Repr

/-- A byte that stands for itself in a string. -/
def isPlain (enc : Encoding) (b : UInt8) : Bool :=
  decide (32 ≤ b ∧ b ≠ quote ∧ b ≠ backslash ∧ (enc = .utf8 → b < 128))

/-- The production for what stands between the quotes of a string. -/
inductive IsChars (enc : Encoding) : List UInt8 → List UInt16 → Prop
  | nil : IsChars enc [] []
  | plain {b : UInt8} {s : List UInt8} {codes : List UInt16} (hb : isPlain enc b = true)
      (h : IsChars enc s codes) : IsChars enc (b :: s) (b.toUInt16 :: codes)
  | escape {b : UInt8} {code : UInt16} {s : List UInt8} {codes : List UInt16}
      (hb : escapeCode b = some code) (h : IsChars enc s codes) :
      IsChars enc (backslash :: b :: s) (code :: codes)
  | unicode {a b c d : UInt8} {code : UInt16} {s : List UInt8} {codes : List UInt16}
      (hcode : hexCode a b c d = some code) (h : IsChars enc s codes) :
      IsChars enc (backslash :: 117 :: a :: b :: c :: d :: s) (code :: codes)
  | wide {c : Char} {s : List UInt8} {codes : List UInt16} (henc : enc = .utf8)
      (hc : Utf8.IsWide c) (h : IsChars enc s codes) :
      IsChars enc (String.utf8EncodeChar c ++ s) (Utf8.utf16 c ++ codes)

/-- Reads a string after its first quote. -/
def readChars (enc : Encoding) : List UInt8 → Option (List UInt16 × List UInt8)
  | [] => none
  | b :: s =>
    if b = quote then some ([], s)
    else if b = backslash then
      match s with
      | [] => none
      | e :: s =>
        if e = 117 then
          match s with
          | a :: b :: c :: d :: s =>
            (hexCode a b c d).bind fun code =>
              (readChars enc s).map fun (codes, rest) => (code :: codes, rest)
          | _ => none
        else
          (escapeCode e).bind fun code =>
            (readChars enc s).map fun (codes, rest) => (code :: codes, rest)
    else if isPlain enc b then
      (readChars enc s).map fun (codes, rest) => (b.toUInt16 :: codes, rest)
    else if enc = .bytes then none
    else
      match Utf8.decodeChar (b :: s) with
      | none => none
      | some c =>
        match c.utf8Size, s with
        | 2, _ :: s =>
          (readChars enc s).map fun (codes, rest) => (Utf8.utf16 c ++ codes, rest)
        | 3, _ :: _ :: s =>
          (readChars enc s).map fun (codes, rest) => (Utf8.utf16 c ++ codes, rest)
        | 4, _ :: _ :: _ :: s =>
          (readChars enc s).map fun (codes, rest) => (Utf8.utf16 c ++ codes, rest)
        | _, _ => none

/-! ## The grammar -/

/-- The nonterminals. -/
inductive Phrase
  | value (v : Value)
  /-- Items and their separators, with the whitespace around them. -/
  | elements (items : List Value)
  /-- Members and their separators, with the whitespace around them. -/
  | members (members : List (List UInt16 × Value))

/-- The productions. -/
inductive Derives (enc : Encoding) : Phrase → List UInt8 → Prop
  | null : Derives enc (.value .null) (ascii "null")
  | true : Derives enc (.value (.bool true)) (ascii "true")
  | false : Derives enc (.value (.bool false)) (ascii "false")
  | number {s : List UInt8} (h : isNumber s = true) : Derives enc (.value (.number s)) s
  | string {s : List UInt8} {codes : List UInt16} (h : IsChars enc s codes) :
      Derives enc (.value (.string codes)) (quote :: (s ++ [quote]))
  | emptyArray {w : List UInt8} (hw : IsSpace w) :
      Derives enc (.value (.array [])) (openBracket :: (w ++ [closeBracket]))
  | array {s : List UInt8} {items : List Value} (h : Derives enc (.elements items) s) :
      Derives enc (.value (.array items)) (openBracket :: (s ++ [closeBracket]))
  | emptyObject {w : List UInt8} (hw : IsSpace w) :
      Derives enc (.value (.object [])) (openBrace :: (w ++ [closeBrace]))
  | object {s : List UInt8} {ms : List (List UInt16 × Value)} (h : Derives enc (.members ms) s) :
      Derives enc (.value (.object ms)) (openBrace :: (s ++ [closeBrace]))
  | lastElement {w s w' : List UInt8} {v : Value} (hw : IsSpace w)
      (h : Derives enc (.value v) s) (hw' : IsSpace w') :
      Derives enc (.elements [v]) (w ++ s ++ w')
  | element {w s w' t : List UInt8} {v : Value} {items : List Value} (hw : IsSpace w)
      (h : Derives enc (.value v) s) (hw' : IsSpace w') (ht : Derives enc (.elements items) t) :
      Derives enc (.elements (v :: items)) (w ++ s ++ w' ++ comma :: t)
  | lastMember {w k w₁ w₂ s w' : List UInt8} {key : List UInt16} {v : Value}
      (hw : IsSpace w) (hk : IsChars enc k key) (hw₁ : IsSpace w₁) (hw₂ : IsSpace w₂)
      (h : Derives enc (.value v) s) (hw' : IsSpace w') :
      Derives enc (.members [(key, v)])
        (w ++ (quote :: (k ++ quote :: (w₁ ++ colon :: (w₂ ++ s)))) ++ w')
  | member {w k w₁ w₂ s w' t : List UInt8} {key : List UInt16} {v : Value}
      {ms : List (List UInt16 × Value)}
      (hw : IsSpace w) (hk : IsChars enc k key) (hw₁ : IsSpace w₁) (hw₂ : IsSpace w₂)
      (h : Derives enc (.value v) s) (hw' : IsSpace w') (ht : Derives enc (.members ms) t) :
      Derives enc (.members ((key, v) :: ms))
        (w ++ (quote :: (k ++ quote :: (w₁ ++ colon :: (w₂ ++ s)))) ++ w' ++ comma :: t)

/-- A text is a value with whitespace around it. -/
def IsText (enc : Encoding) (text : List UInt8) (v : Value) : Prop :=
  ∃ w s w', text = w ++ s ++ w' ∧ IsSpace w ∧ Derives enc (.value v) s ∧ IsSpace w'

/-! ## The parser -/

def literals : List (List UInt8 × Value) :=
  [(ascii "null", .null), (ascii "true", .bool true), (ascii "false", .bool false)]

def parseLiteral (s : List UInt8) : Option (Value × List UInt8) :=
  literals.findSome? fun (text, v) =>
    if text.isPrefixOf s then some (v, s.drop text.length) else none

def parseNumber (s : List UInt8) : Option (Value × List UInt8) :=
  if isNumber (s.takeWhile isNumberChar) then
    some (.number (s.takeWhile isNumberChar), s.dropWhile isNumberChar)
  else none

/-- A key and the colon after it. -/
def parseKey (enc : Encoding) : List UInt8 → Option (List UInt16 × List UInt8)
  | [] => none
  | b :: s =>
    if b = quote then
      (readChars enc s).bind fun (key, rest) =>
        if (skipSpace rest).head? = some colon then some (key, (skipSpace rest).tail) else none
    else none

mutual

/-- A value without whitespace before it. -/
def parseValue (enc : Encoding) : Nat → List UInt8 → Option (Value × List UInt8)
  | 0, _ => none
  | _ + 1, [] => none
  | fuel + 1, b :: s =>
    if b = quote then (readChars enc s).map fun (codes, rest) => (.string codes, rest)
    else if b = openBracket then
      if (skipSpace s).head? = some closeBracket then some (.array [], (skipSpace s).tail)
      else (parseElements enc fuel (skipSpace s)).map fun (items, rest) => (.array items, rest)
    else if b = openBrace then
      if (skipSpace s).head? = some closeBrace then some (.object [], (skipSpace s).tail)
      else (parseMembers enc fuel (skipSpace s)).map fun (ms, rest) => (.object ms, rest)
    else (parseLiteral (b :: s)).or (parseNumber (b :: s))

/-- One or more items and the bracket after them. -/
def parseElements (enc : Encoding) : Nat → List UInt8 → Option (List Value × List UInt8)
  | 0, _ => none
  | fuel + 1, s =>
    (parseValue enc fuel s).bind fun (v, rest) =>
      if (skipSpace rest).head? = some closeBracket then some ([v], (skipSpace rest).tail)
      else if (skipSpace rest).head? = some comma then
        (parseElements enc fuel (skipSpace (skipSpace rest).tail)).map fun (items, rest) =>
          (v :: items, rest)
      else none

/-- One or more members and the brace after them. -/
def parseMembers (enc : Encoding) : Nat → List UInt8 →
    Option (List (List UInt16 × Value) × List UInt8)
  | 0, _ => none
  | fuel + 1, s =>
    (parseKey enc s).bind fun (key, rest) =>
      (parseValue enc fuel (skipSpace rest)).bind fun (v, rest) =>
        if (skipSpace rest).head? = some closeBrace then
          some ([(key, v)], (skipSpace rest).tail)
        else if (skipSpace rest).head? = some comma then
          (parseMembers enc fuel (skipSpace (skipSpace rest).tail)).map fun (ms, rest) =>
            ((key, v) :: ms, rest)
        else none

end

/-- A whole text. -/
def parse (enc : Encoding) (text : List UInt8) : Option Value :=
  (parseValue enc (2 * text.length + 2) (skipSpace text)).bind fun (v, rest) =>
    if skipSpace rest = [] then some v else none

variable {enc : Encoding}

/-! ## Whitespace -/

theorem skipSpace_append {w : List UInt8} (hw : IsSpace w) (s : List UInt8) :
    skipSpace (w ++ s) = skipSpace s :=
  List.dropWhile_append_of_pos hw

theorem skipSpace_cons {b : UInt8} (hb : isSpace b = false) (s : List UInt8) :
    skipSpace (b :: s) = b :: s := by
  rw [skipSpace, List.dropWhile_cons_of_neg]
  simp [hb]

theorem skipSpace_space {w : List UInt8} (hw : IsSpace w) : skipSpace w = [] :=
  List.dropWhile_eq_nil_iff.2 hw

theorem IsSpace.append {w w' : List UInt8} (hw : IsSpace w) (hw' : IsSpace w') :
    IsSpace (w ++ w') := by
  intro b hb
  rcases List.mem_append.1 hb with hb | hb
  · exact hw b hb
  · exact hw' b hb

/-- Whitespace before the items of an array. -/
theorem Derives.space_elements {w t : List UInt8} {items : List Value} (hw : IsSpace w)
    (h : Derives enc (.elements items) t) : Derives enc (.elements items) (w ++ t) := by
  cases h with
  | lastElement hw₀ h hw' =>
    rw [← List.append_assoc, ← List.append_assoc]
    exact .lastElement (hw.append hw₀) h hw'
  | element hw₀ h hw' ht =>
    simp only [← List.append_assoc]
    exact .element (hw.append hw₀) h hw' ht

/-- Whitespace before the members of an object. -/
theorem Derives.space_members {w t : List UInt8} {ms : List (List UInt16 × Value)}
    (hw : IsSpace w) (h : Derives enc (.members ms) t) : Derives enc (.members ms) (w ++ t) := by
  cases h with
  | lastMember hw₀ hk hw₁ hw₂ h hw' =>
    rw [← List.append_assoc, ← List.append_assoc]
    exact .lastMember (hw.append hw₀) hk hw₁ hw₂ h hw'
  | member hw₀ hk hw₁ hw₂ h hw' ht =>
    rw [← List.append_assoc, ← List.append_assoc, ← List.append_assoc]
    exact .member (hw.append hw₀) hk hw₁ hw₂ h hw' ht

/-- Whitespace after the items of an array. -/
theorem Derives.elements_space {items : List Value} {t w : List UInt8}
    (h : Derives enc (.elements items) t) (hw : IsSpace w) :
    Derives enc (.elements items) (t ++ w) := by
  generalize hp : Phrase.elements items = phrase at h
  induction h generalizing items with
  | lastElement hw₀ h hw' =>
    cases hp
    rw [List.append_assoc]
    exact .lastElement hw₀ h (hw'.append hw)
  | element hw₀ h hw' ht _ ih =>
    cases hp
    rw [List.append_assoc, List.cons_append]
    exact .element hw₀ h hw' (ih rfl)
  | _ => cases hp

/-- Whitespace after the members of an object. -/
theorem Derives.members_space {ms : List (List UInt16 × Value)} {t w : List UInt8}
    (h : Derives enc (.members ms) t) (hw : IsSpace w) : Derives enc (.members ms) (t ++ w) := by
  generalize hp : Phrase.members ms = phrase at h
  induction h generalizing ms with
  | lastMember hw₀ hk hw₁ hw₂ h hw' =>
    cases hp
    rw [List.append_assoc]
    exact .lastMember hw₀ hk hw₁ hw₂ h (hw'.append hw)
  | member hw₀ hk hw₁ hw₂ h hw' ht _ ih =>
    cases hp
    rw [List.append_assoc, List.cons_append]
    exact .member hw₀ hk hw₁ hw₂ h hw' (ih rfl)
  | _ => cases hp

/-- More members after those of an object. -/
theorem Derives.members_append {ms ms' : List (List UInt16 × Value)} {s t : List UInt8}
    (h : Derives enc (.members ms) s) (h' : Derives enc (.members ms') t) :
    Derives enc (.members (ms ++ ms')) (s ++ comma :: t) := by
  generalize hp : Phrase.members ms = phrase at h
  induction h generalizing ms with
  | lastMember hw₀ hk hw₁ hw₂ h hw' =>
    cases hp
    exact .member hw₀ hk hw₁ hw₂ h hw' h'
  | member hw₀ hk hw₁ hw₂ h hw' ht _ ih =>
    cases hp
    rw [List.append_assoc, List.cons_append]
    exact .member hw₀ hk hw₁ hw₂ h hw' (ih rfl)
  | _ => cases hp

/-! ## The bytes of a number -/

/-- `r` is what follows some bytes of a number in `s`. -/
def Follows (r s : List UInt8) : Prop :=
  ∃ p, s = p ++ r ∧ ∀ b ∈ p, isNumberChar b = true

theorem Follows.refl (s : List UInt8) : Follows s s := ⟨[], rfl, by simp⟩

theorem Follows.trans {r s t : List UInt8} (h : Follows r s) (h' : Follows s t) :
    Follows r t := by
  obtain ⟨p, rfl, hp⟩ := h
  obtain ⟨q, rfl, hq⟩ := h'
  refine ⟨q ++ p, by rw [List.append_assoc], ?_⟩
  intro b hb
  rcases List.mem_append.1 hb with hb | hb
  · exact hq b hb
  · exact hp b hb

theorem Follows.length_le {r s : List UInt8} (h : Follows r s) : r.length ≤ s.length := by
  obtain ⟨p, rfl, -⟩ := h
  rw [List.length_append]
  omega

theorem follows_tail {s : List UInt8} {c : UInt8} (h : s.head? = some c)
    (hc : isNumberChar c = true) : Follows s.tail s :=
  ⟨[c], (List.eq_cons_of_mem_head? h).symm ▸ rfl, by simpa using hc⟩

theorem isNumberChar_of_isDigit {b : UInt8} (h : isDigit b = true) : isNumberChar b = true := by
  rw [isNumberChar, h, Bool.true_or]

theorem follows_afterMinus (s : List UInt8) : Follows (afterMinus s) s := by
  unfold afterMinus
  split
  · rename_i h
    exact follows_tail h rfl
  · exact .refl s

theorem follows_afterSign (s : List UInt8) : Follows (afterSign s) s := by
  unfold afterSign
  split
  · rename_i h
    rcases h with h | h
    · exact follows_tail h rfl
    · exact follows_tail h rfl
  · exact .refl s

theorem follows_afterDigits {s r : List UInt8} (h : afterDigits s = some r) :
    Follows r s ∧ r.length < s.length := by
  cases s with
  | nil => cases h
  | cons b s =>
    rw [afterDigits] at h
    split at h
    · rename_i hb
      obtain rfl := Option.some.inj h
      have hsplit := List.takeWhile_append_dropWhile (p := isDigit) (l := s)
      refine ⟨⟨b :: s.takeWhile isDigit, by rw [List.cons_append, hsplit], ?_⟩, ?_⟩
      · intro c hc
        rcases List.mem_cons.1 hc with rfl | hc
        · exact isNumberChar_of_isDigit hb
        · exact isNumberChar_of_isDigit (List.mem_takeWhile_imp hc)
      · have hle := (List.dropWhile_suffix isDigit (l := s)).length_le
        rw [List.length_cons]
        omega
    · cases h

theorem follows_afterInt {s r : List UInt8} (h : afterInt s = some r) :
    Follows r s ∧ r.length < s.length := by
  unfold afterInt at h
  split at h
  · rename_i h48
    obtain rfl := Option.some.inj h
    refine ⟨follows_tail h48 rfl, ?_⟩
    cases s with
    | nil => cases h48
    | cons b s => exact Nat.lt_succ_self _
  · exact follows_afterDigits h

theorem follows_afterFrac {s r : List UInt8} (h : afterFrac s = some r) : Follows r s := by
  unfold afterFrac at h
  split at h
  · rename_i h46
    exact (follows_afterDigits h).1.trans (follows_tail h46 rfl)
  · obtain rfl := Option.some.inj h
    exact .refl s

theorem follows_afterExp {s r : List UInt8} (h : afterExp s = some r) : Follows r s := by
  unfold afterExp at h
  split at h
  · rename_i he
    refine ((follows_afterDigits h).1.trans (follows_afterSign _)).trans ?_
    rcases he with he | he
    · exact follows_tail he rfl
    · exact follows_tail he rfl
  · obtain rfl := Option.some.inj h
    exact .refl s

/-- A number is not empty, and it has no other bytes. -/
theorem isNumberChar_of_isNumber {s : List UInt8} (h : isNumber s = true) :
    s ≠ [] ∧ ∀ b ∈ s, isNumberChar b = true := by
  simp only [isNumber, decide_eq_true_eq, Option.bind_eq_some_iff] at h
  obtain ⟨r, ⟨q, hint, hfrac⟩, hexp⟩ := h
  have hminus := follows_afterMinus s
  have hq := follows_afterInt hint
  constructor
  · rintro rfl
    have := hminus.length_le
    have := hq.2
    simp only [List.length_nil] at *
    omega
  · obtain ⟨p, hp, hchars⟩ :=
      (((follows_afterExp hexp).trans (follows_afterFrac hfrac)).trans hq.1).trans hminus
    rw [hp, List.append_nil]
    exact hchars

/-! ## The parser reads the grammar -/

/-- The first byte of a wide character is neither plain, nor a quote or a backslash. -/
theorem not_ascii_of_le {b : UInt8} (hb : 128 ≤ b) :
    b ≠ quote ∧ b ≠ backslash ∧ ¬isPlain .utf8 b = true := by
  refine ⟨?_, ?_, fun h => ?_⟩
  · rintro rfl
    exact absurd hb (by decide)
  · rintro rfl
    exact absurd hb (by decide)
  · simp only [isPlain, decide_eq_true_eq] at h
    exact absurd hb (UInt8.not_le.2 (h.2.2.2 trivial))

/-- A wide character is read as a whole. -/
theorem readChars_wide {c : Char} (hc : Utf8.IsWide c) (s : List UInt8) :
    readChars .utf8 (String.utf8EncodeChar c ++ s) =
      (readChars .utf8 s).map fun (codes, rest) => (Utf8.utf16 c ++ codes, rest) := by
  have hdecode := Utf8.decodeChar_append c s
  have hbytes := Utf8.le_of_mem_utf8EncodeChar hc
  have hlen := String.length_utf8EncodeChar c
  have hunits := Utf8.length_utf16_lt hc
  have hfour := c.utf8Size_le_four
  generalize String.utf8EncodeChar c = bytes at hdecode hbytes hlen hunits ⊢
  rcases bytes with _ | ⟨b, t⟩
  · exact absurd hunits.2 (Nat.not_lt_zero _)
  rw [List.length_cons] at hlen hunits
  obtain ⟨hquote, hback, hplain⟩ := not_ascii_of_le (hbytes b List.mem_cons_self)
  rw [List.cons_append] at hdecode ⊢
  rw [readChars.eq_def]
  simp only
  rw [if_neg hquote, if_neg hback, if_neg hplain, if_neg (by decide), hdecode]
  simp only [← hlen]
  rcases t with _ | ⟨x, _ | ⟨y, _ | ⟨z, _ | ⟨w, t⟩⟩⟩⟩
  · simp only [List.length_nil] at hunits
    omega
  · rfl
  · rfl
  · rfl
  · simp only [List.length_cons] at hlen
    omega

/-- Nothing else is read at a byte that is none of these. -/
theorem readChars_of_wide {b : UInt8} (hquote : b ≠ quote) (hback : b ≠ backslash)
    (hplain : ¬isPlain enc b = true) {s rest : List UInt8} {codes : List UInt16}
    (h : readChars enc (b :: s) = some (codes, rest)) :
    enc = .utf8 ∧ ∃ c t codes', Utf8.IsWide c ∧ b :: s = String.utf8EncodeChar c ++ t ∧
      codes = Utf8.utf16 c ++ codes' ∧ readChars enc t = some (codes', rest) := by
  have hread := h
  rw [readChars.eq_def] at h
  simp only at h
  rw [if_neg hquote, if_neg hback, if_neg hplain] at h
  split at h
  · cases h
  · rename_i henc
    obtain rfl : enc = .utf8 := by
      cases enc with
      | bytes => exact absurd rfl henc
      | utf8 => rfl
    split at h
    · cases h
    rename_i c hdecode
    obtain ⟨t, ht⟩ := Utf8.decodeChar_eq_some_iff.1 hdecode
    by_cases hc : Utf8.IsWide c
    · rw [ht, readChars_wide hc] at hread
      obtain ⟨x, hx, heq⟩ := Option.map_eq_some_iff.1 hread
      cases heq
      exact ⟨rfl, c, t, x.1, hc, ht, rfl, hx⟩
    · have hsize := String.length_utf8EncodeChar c
      rw [Utf8.utf8EncodeChar_narrow hc, List.length_singleton] at hsize
      simp only [← hsize] at h
      cases h

/-- `readChars` reads what stands between the quotes, and the second quote. -/
theorem readChars_of_isChars {s : List UInt8} {codes : List UInt16} (h : IsChars enc s codes)
    (rest : List UInt8) : readChars enc (s ++ quote :: rest) = some (codes, rest) := by
  induction h with
  | nil =>
    rw [List.nil_append, readChars.eq_def]
    exact if_pos rfl
  | plain hb h ih =>
    have hplain := hb
    simp only [isPlain, decide_eq_true_eq] at hb
    rw [List.cons_append, readChars.eq_def]
    simp only
    rw [if_neg hb.2.1, if_neg hb.2.2.1, if_pos hplain, ih]
    rfl
  | @escape b code s codes hb h ih =>
    have hb' : b ≠ 117 := by
      rintro rfl
      cases hb
    rw [List.cons_append, List.cons_append, readChars.eq_def]
    simp only
    rw [if_neg (by decide), if_pos trivial, if_neg hb', hb, Option.bind_some, ih]
    rfl
  | unicode hcode h ih =>
    simp only [List.cons_append]
    rw [readChars.eq_def]
    simp only
    rw [if_neg (by decide), if_pos trivial, if_pos trivial, hcode, Option.bind_some, ih]
    rfl
  | wide henc hc h ih =>
    subst henc
    rw [List.append_assoc, readChars_wide hc, ih]
    rfl

/-- `rest` does not go on with a number. -/
def Ends (rest : List UInt8) : Prop := ∀ b ∈ rest.head?, isNumberChar b = false

theorem not_isNumberChar_of_isSpace {b : UInt8} (h : isSpace b = true) :
    isNumberChar b = false := by
  simp only [isSpace, decide_eq_true_eq] at h
  rcases h with rfl | rfl | rfl | rfl <;> rfl

/-- Whitespace and a delimiter end a number. -/
theorem ends_append {w rest : List UInt8} (hw : IsSpace w) (h : Ends rest) :
    Ends (w ++ rest) := by
  cases w with
  | nil => exact h
  | cons b w =>
    intro _ hgiven
    obtain ⟨rfl⟩ := hgiven
    exact not_isNumberChar_of_isSpace (hw b List.mem_cons_self)

theorem ends_cons {b : UInt8} (hb : isNumberChar b = false) (rest : List UInt8) :
    Ends (b :: rest) := by
  intro _ h
  obtain ⟨rfl⟩ := h
  exact hb

/-- The numbers are read as long as they go. -/
theorem parseNumber_of_isNumber {s : List UInt8} (h : isNumber s = true) {rest : List UInt8}
    (hrest : Ends rest) : parseNumber (s ++ rest) = some (.number s, rest) := by
  have hs := (isNumberChar_of_isNumber h).2
  have htake : rest.takeWhile isNumberChar = [] := by
    cases rest with
    | nil => rfl
    | cons b rest => rw [List.takeWhile_cons_of_neg (by rw [hrest b rfl]; decide)]
  have hdrop : rest.dropWhile isNumberChar = rest := by
    cases rest with
    | nil => rfl
    | cons b rest => rw [List.dropWhile_cons_of_neg (by rw [hrest b rfl]; decide)]
  rw [parseNumber, List.takeWhile_append_of_pos hs, List.dropWhile_append_of_pos hs, htake,
    hdrop, List.append_nil, if_pos h]

/-- No literal starts like a number. -/
theorem parseLiteral_of_isNumberChar {b : UInt8} (hb : isNumberChar b = true)
    (s : List UInt8) : parseLiteral (b :: s) = none := by
  have hne : ∀ c : UInt8, isNumberChar c = false → c ≠ b := by
    rintro c hc rfl
    rw [hb] at hc
    cases hc
  simp [parseLiteral, literals, ascii, hne 110 rfl, hne 116 rfl, hne 102 rfl]

/-- The first byte of a value is neither whitespace nor a closing bracket. -/
def Begins (s : List UInt8) : Prop :=
  ∃ b t, s = b :: t ∧ isSpace b = false ∧ b ≠ closeBracket ∧ b ≠ closeBrace

theorem begins_of_isNumberChar {b : UInt8} (hb : isNumberChar b = true) (t : List UInt8) :
    Begins (b :: t) := by
  refine ⟨b, t, rfl, ?_, ?_, ?_⟩
  · by_contra hspace
    rw [not_isNumberChar_of_isSpace (Bool.not_eq_false _ ▸ hspace)] at hb
    cases hb
  · rintro rfl
    cases hb
  · rintro rfl
    cases hb

theorem begins_of_derives {v : Value} {s : List UInt8} (h : Derives enc (.value v) s) :
    Begins s := by
  cases h with
  | number h =>
    obtain ⟨hs, hchars⟩ := isNumberChar_of_isNumber h
    obtain ⟨b, t, rfl⟩ := List.exists_cons_of_ne_nil hs
    exact begins_of_isNumberChar (hchars b List.mem_cons_self) t
  | _ => exact ⟨_, _, rfl, rfl, by decide, by decide⟩

theorem Begins.skipSpace {s : List UInt8} (h : Begins s) (rest : List UInt8) :
    skipSpace (s ++ rest) = s ++ rest := by
  obtain ⟨b, t, rfl, hb, -⟩ := h
  exact skipSpace_cons hb _

/-- What the parser does with a phrase. -/
def Phrase.Parsed (enc : Encoding) : Phrase → List UInt8 → Prop
  | .value v, s => ∀ fuel rest, 2 * s.length ≤ fuel → Ends rest →
      parseValue enc fuel (s ++ rest) = some (v, rest)
  | .elements items, s => ∀ fuel rest, 2 * s.length + 1 ≤ fuel →
      parseElements enc fuel (skipSpace (s ++ closeBracket :: rest)) = some (items, rest)
  | .members ms, s => ∀ fuel rest, 2 * s.length + 1 ≤ fuel →
      parseMembers enc fuel (skipSpace (s ++ closeBrace :: rest)) = some (ms, rest)

theorem parsed_elements {w s w' : List UInt8} {v : Value} (hw : IsSpace w)
    (h : Derives enc (.value v) s) (hw' : IsSpace w') (ih : Phrase.Parsed enc (.value v) s)
    {fuel : Nat} (hfuel : 2 * s.length ≤ fuel) {b : UInt8} (hb : isSpace b = false)
    (hend : isNumberChar b = false) (t : List UInt8) :
    parseElements enc (fuel + 1) (skipSpace (w ++ s ++ w' ++ b :: t)) =
      if b = closeBracket then some ([v], t)
      else if b = comma then
        (parseElements enc fuel (skipSpace t)).map fun (items, rest) => (v :: items, rest)
      else none := by
  have hskip : skipSpace (w' ++ b :: t) = b :: t := by
    rw [skipSpace_append hw', skipSpace_cons hb]
  have hparse := ih fuel (w' ++ b :: t) hfuel (ends_append hw' (ends_cons hend t))
  rw [List.append_assoc, List.append_assoc, skipSpace_append hw,
    (begins_of_derives h).skipSpace, parseElements, hparse, Option.bind_some]
  simp only [hskip, List.head?_cons, List.tail_cons, Option.some.injEq]

theorem parsed_members {w k w₁ w₂ s w' : List UInt8} {key : List UInt16} {v : Value}
    (hw : IsSpace w) (hk : IsChars enc k key) (hw₁ : IsSpace w₁) (hw₂ : IsSpace w₂)
    (h : Derives enc (.value v) s) (hw' : IsSpace w') (ih : Phrase.Parsed enc (.value v) s)
    {fuel : Nat} (hfuel : 2 * s.length ≤ fuel) {b : UInt8} (hb : isSpace b = false)
    (hend : isNumberChar b = false) (t : List UInt8) :
    parseMembers enc (fuel + 1) (skipSpace
        (w ++ (quote :: (k ++ quote :: (w₁ ++ colon :: (w₂ ++ s)))) ++ w' ++ b :: t)) =
      if b = closeBrace then some ([(key, v)], t)
      else if b = comma then
        (parseMembers enc fuel (skipSpace t)).map fun (ms, rest) => ((key, v) :: ms, rest)
      else none := by
  have hskip : skipSpace (w' ++ b :: t) = b :: t := by
    rw [skipSpace_append hw', skipSpace_cons hb]
  have hparse := ih fuel (w' ++ b :: t) hfuel (ends_append hw' (ends_cons hend t))
  have hkey : parseKey enc
      (quote :: (k ++ quote :: (w₁ ++ colon :: (w₂ ++ (s ++ (w' ++ b :: t)))))) =
      some (key, w₂ ++ (s ++ (w' ++ b :: t))) := by
    have hcolon : skipSpace (w₁ ++ colon :: (w₂ ++ (s ++ (w' ++ b :: t)))) =
        colon :: (w₂ ++ (s ++ (w' ++ b :: t))) := by
      rw [skipSpace_append hw₁, skipSpace_cons rfl]
    rw [parseKey, if_pos rfl, readChars_of_isChars hk, Option.bind_some]
    simp only [hcolon, List.head?_cons, List.tail_cons, if_true]
  simp only [List.append_assoc, List.cons_append]
  rw [skipSpace_append hw, skipSpace_cons rfl, parseMembers, hkey, Option.bind_some]
  simp only
  rw [skipSpace_append hw₂, (begins_of_derives h).skipSpace, hparse, Option.bind_some]
  simp only [hskip, List.head?_cons, List.tail_cons, Option.some.injEq]

/-- An array that is not empty does not start with its closing bracket. -/
theorem head_skipSpace_elements {items : List Value} {s : List UInt8}
    (h : Derives enc (.elements items) s) (rest : List UInt8) :
    (skipSpace (s ++ rest)).head? ≠ some closeBracket := by
  have hbegin : ∀ {w t : List UInt8}, IsSpace w → Begins t → ∀ rest,
      (skipSpace (w ++ t ++ rest)).head? ≠ some closeBracket := by
    rintro w t hw ht rest
    rw [List.append_assoc, skipSpace_append hw, ht.skipSpace]
    obtain ⟨b, t, rfl, -, hb, -⟩ := ht
    simpa using hb
  cases h with
  | lastElement hw h hw' =>
    rw [List.append_assoc]
    exact hbegin hw (begins_of_derives h) _
  | element hw h hw' ht =>
    rw [List.append_assoc, List.append_assoc]
    exact hbegin hw (begins_of_derives h) _

/-- An object that is not empty starts with a key. -/
theorem head_skipSpace_members {ms : List (List UInt16 × Value)} {s : List UInt8}
    (h : Derives enc (.members ms) s) (rest : List UInt8) :
    (skipSpace (s ++ rest)).head? = some quote := by
  cases h with
  | lastMember hw =>
    rw [List.append_assoc, List.append_assoc, skipSpace_append hw, List.cons_append,
      skipSpace_cons rfl]
    rfl
  | member hw =>
    rw [List.append_assoc, List.append_assoc, List.append_assoc, skipSpace_append hw,
      List.cons_append, skipSpace_cons rfl]
    rfl

/-- By induction on the derivation. -/
theorem parsed_of_derives {phrase : Phrase} {s : List UInt8} (h : Derives enc phrase s) :
    phrase.Parsed enc s := by
  induction h with
  | null | true | false =>
    rintro (_ | fuel) rest hfuel -
    · cases hfuel
    · rfl
  | @number s h =>
    obtain ⟨hs, hchars⟩ := isNumberChar_of_isNumber h
    obtain ⟨b, t, rfl⟩ := List.exists_cons_of_ne_nil hs
    have hb := hchars b List.mem_cons_self
    have hne : ∀ c : UInt8, isNumberChar c = false → b ≠ c := by
      rintro c hc rfl
      rw [hb] at hc
      cases hc
    rintro (_ | fuel) rest hfuel hrest
    · cases hfuel
    · rw [List.cons_append, parseValue, if_neg (hne quote rfl), if_neg (hne openBracket rfl),
        if_neg (hne openBrace rfl), parseLiteral_of_isNumberChar hb, Option.none_or,
        ← List.cons_append]
      exact parseNumber_of_isNumber h hrest
  | @string s codes h =>
    rintro (_ | fuel) rest hfuel -
    · cases hfuel
    · rw [List.cons_append, List.append_assoc, parseValue, if_pos rfl, List.cons_append,
        List.nil_append, readChars_of_isChars h]
      rfl
  | @emptyArray w hw =>
    rintro (_ | fuel) rest hfuel -
    · cases hfuel
    · have hskip : skipSpace (w ++ ([closeBracket] ++ rest)) = closeBracket :: rest := by
        rw [skipSpace_append hw]
        exact skipSpace_cons rfl rest
      rw [List.cons_append, List.append_assoc, parseValue, if_neg (by decide), if_pos rfl, hskip]
      exact if_pos rfl
  | @array s items h ih =>
    rintro (_ | fuel) rest hfuel -
    · cases hfuel
    · rw [List.cons_append, List.append_assoc, parseValue, if_neg (by decide), if_pos rfl,
        if_neg (head_skipSpace_elements h _), List.cons_append, List.nil_append,
        ih fuel rest (by simp only [List.length_cons, List.length_append] at hfuel; omega)]
      rfl
  | @emptyObject w hw =>
    rintro (_ | fuel) rest hfuel -
    · cases hfuel
    · have hskip : skipSpace (w ++ ([closeBrace] ++ rest)) = closeBrace :: rest := by
        rw [skipSpace_append hw]
        exact skipSpace_cons rfl rest
      rw [List.cons_append, List.append_assoc, parseValue, if_neg (by decide),
        if_neg (by decide), if_pos rfl, hskip]
      exact if_pos rfl
  | @object s ms h ih =>
    rintro (_ | fuel) rest hfuel -
    · cases hfuel
    · rw [List.cons_append, List.append_assoc, parseValue, if_neg (by decide),
        if_neg (by decide), if_pos rfl, if_neg (by rw [head_skipSpace_members h]; decide),
        List.cons_append, List.nil_append,
        ih fuel rest (by simp only [List.length_cons, List.length_append] at hfuel; omega)]
      rfl
  | lastElement hw h hw' ih =>
    rintro (_ | fuel) rest hfuel
    · cases hfuel
    · simp only [List.length_append] at hfuel
      rw [parsed_elements hw h hw' ih (by omega) rfl rfl]
      exact if_pos rfl
  | element hw h hw' ht ih iht =>
    rintro (_ | fuel) rest hfuel
    · cases hfuel
    · simp only [List.length_append, List.length_cons] at hfuel
      rw [List.append_assoc, List.cons_append,
        parsed_elements hw h hw' ih (by omega) rfl rfl, if_neg (by decide), if_pos rfl,
        iht fuel rest (by omega)]
      rfl
  | lastMember hw hk hw₁ hw₂ h hw' ih =>
    rintro (_ | fuel) rest hfuel
    · cases hfuel
    · simp only [List.length_append, List.length_cons] at hfuel
      rw [parsed_members hw hk hw₁ hw₂ h hw' ih (by omega) rfl rfl]
      exact if_pos rfl
  | member hw hk hw₁ hw₂ h hw' ht ih iht =>
    rintro (_ | fuel) rest hfuel
    · cases hfuel
    · simp only [List.length_append, List.length_cons] at hfuel
      rw [List.append_assoc, List.cons_append,
        parsed_members hw hk hw₁ hw₂ h hw' ih (by omega) rfl rfl, if_neg (by decide),
        if_pos rfl, iht fuel rest (by omega)]
      rfl

/-- The parser reads every text of the grammar. -/
theorem parse_of_isText {text : List UInt8} {v : Value} (h : IsText enc text v) :
    parse enc text = some v := by
  obtain ⟨w, s, w', rfl, hw, hs, hw'⟩ := h
  have hends : Ends w' := by
    rw [← List.append_nil w']
    exact ends_append hw' (by rintro _ ⟨⟩)
  have hfuel : 2 * s.length ≤ 2 * (w ++ s ++ w').length + 2 := by
    simp only [List.length_append]
    omega
  have hparse := parsed_of_derives hs _ w' hfuel hends
  rw [parse, List.append_assoc, skipSpace_append hw, (begins_of_derives hs).skipSpace,
    ← List.append_assoc, hparse, Option.bind_some]
  exact if_pos (skipSpace_space hw')

/-- A value with more than whitespace after it is no text. -/
theorem not_isText_append {s rest : List UInt8} {v : Value} (h : Derives enc (.value v) s)
    (hends : Ends rest) (hrest : skipSpace rest ≠ []) (v' : Value) :
    ¬IsText enc (s ++ rest) v' := by
  intro htext
  have hfuel : 2 * s.length ≤ 2 * (s ++ rest).length + 2 := by
    rw [List.length_append]
    omega
  have hparse := parse_of_isText htext
  rw [parse, (begins_of_derives h).skipSpace, parsed_of_derives h _ rest hfuel hends,
    Option.bind_some] at hparse
  simp only [if_neg hrest] at hparse
  cases hparse

/-- After the comma in an object there must be a key. -/
theorem not_isText_of_member {w k w₁ w₂ s w' t : List UInt8} {key : List UInt16} {v : Value}
    (hw : IsSpace w) (hk : IsChars enc k key) (hw₁ : IsSpace w₁) (hw₂ : IsSpace w₂)
    (h : Derives enc (.value v) s) (hw' : IsSpace w') (ht : (skipSpace t).head? ≠ some quote)
    (v' : Value) :
    ¬IsText enc (openBrace ::
      (w ++ (quote :: (k ++ quote :: (w₁ ++ colon :: (w₂ ++ s)))) ++ w' ++ comma :: t)) v' := by
  intro htext
  have hnone : ∀ fuel, parseMembers enc fuel (skipSpace t) = none := by
    intro fuel
    cases fuel with
    | zero => rfl
    | succ fuel =>
      have hkey : parseKey enc (skipSpace t) = none := by
        cases hs : skipSpace t with
        | nil => rfl
        | cons b u =>
          rw [hs] at ht
          rw [parseKey, if_neg fun hb => ht (congrArg some hb)]
      rw [parseMembers, hkey]
      rfl
  have hhead : (skipSpace (w ++ (quote :: (k ++ quote :: (w₁ ++ colon :: (w₂ ++ s)))) ++ w' ++
      comma :: t)).head? ≠ some closeBrace := by
    rw [List.append_assoc, List.append_assoc, skipSpace_append hw, List.cons_append,
      skipSpace_cons rfl, List.head?_cons]
    decide
  have hparse := parse_of_isText htext
  rw [parse, skipSpace_cons rfl, parseValue, if_neg (by decide), if_neg (by decide), if_pos rfl,
    if_neg hhead] at hparse
  rw [List.length_cons, parsed_members hw hk hw₁ hw₂ h hw' (parsed_of_derives h)
    (by simp only [List.length_append, List.length_cons]; omega) rfl rfl, if_neg (by decide),
    if_pos rfl, hnone] at hparse
  cases hparse

/-! ## What the parser has read -/

/-- An ASCII byte that stands for itself does so in both readings. -/
theorem isPlain_of_utf8 {b : UInt8} (h : isPlain .utf8 b = true) : isPlain enc b = true := by
  simp only [isPlain, decide_eq_true_eq] at h ⊢
  exact ⟨h.1, h.2.1, h.2.2.1, fun _ => h.2.2.2 trivial⟩

/-- A byte that stands for itself. -/
theorem readChars_plain {b : UInt8} (hb : isPlain enc b = true) {s rest : List UInt8}
    {codes : List UInt16} (h : readChars enc (b :: s) = some (codes, rest)) :
    ∃ codes', codes = b.toUInt16 :: codes' ∧ readChars enc s = some (codes', rest) := by
  have hne := hb
  simp only [isPlain, decide_eq_true_eq] at hne
  rw [readChars.eq_def] at h
  simp only at h
  rw [if_neg hne.2.1, if_neg hne.2.2.1, if_pos hb] at h
  rcases Option.map_eq_some_iff.1 h with ⟨x, hx, heq⟩
  cases heq
  exact ⟨x.1, rfl, hx⟩

/-- An escape of two bytes. -/
theorem readChars_escape {e : UInt8} {code : UInt16} (he : escapeCode e = some code)
    {s rest : List UInt8} {codes : List UInt16}
    (h : readChars enc (backslash :: e :: s) = some (codes, rest)) :
    ∃ codes', codes = code :: codes' ∧ readChars enc s = some (codes', rest) := by
  have hne : e ≠ 117 := by
    rintro rfl
    cases he
  rw [readChars.eq_def] at h
  simp only at h
  rw [if_neg (by decide), if_pos trivial, if_neg hne, he, Option.bind_some] at h
  rcases Option.map_eq_some_iff.1 h with ⟨x, hx, heq⟩
  cases heq
  exact ⟨x.1, rfl, hx⟩

/-- The second quote. -/
theorem readChars_quote {s rest : List UInt8} {codes : List UInt16}
    (h : readChars enc (quote :: s) = some (codes, rest)) : codes = [] ∧ rest = s := by
  rw [readChars.eq_def] at h
  simp only [if_true] at h
  cases h
  exact ⟨rfl, rfl⟩

/-- A byte that could stand for itself, but does not, is the second quote or starts an
escape. -/
theorem readChars_not_plain {b : UInt8} (hascii : enc = .utf8 → b < 128)
    (hb : ¬isPlain enc b = true) {s rest : List UInt8}
    {codes : List UInt16} (h : readChars enc (b :: s) = some (codes, rest)) :
    (b = quote ∧ codes = []) ∨ (b = backslash ∧
      ((∃ e code t, s = e :: t ∧ escapeCode e = some code ∧
          ∃ codes', codes = code :: codes' ∧ readChars enc t = some (codes', rest)) ∨
        ∃ a b c d code t, s = 117 :: a :: b :: c :: d :: t ∧ hexCode a b c d = some code ∧
          ∃ codes', codes = code :: codes' ∧ readChars enc t = some (codes', rest))) := by
  by_cases hquote : b = quote
  · subst hquote
    exact .inl ⟨rfl, (readChars_quote h).1⟩
  by_cases hback : b = backslash
  · subst hback
    refine .inr ⟨rfl, ?_⟩
    rw [readChars.eq_def] at h
    simp only at h
    rw [if_neg hquote, if_pos trivial] at h
    rcases s with _ | ⟨e, s⟩
    · cases h
    simp only at h
    split at h
    · rename_i he
      split at h
      · rename_i a b c d t
        rcases Option.bind_eq_some_iff.1 h with ⟨code, hcode, h⟩
        rcases Option.map_eq_some_iff.1 h with ⟨x, hx, heq⟩
        cases heq
        exact .inr ⟨a, b, c, d, code, t, by rw [he], hcode, x.1, rfl, hx⟩
      · cases h
    · rcases Option.bind_eq_some_iff.1 h with ⟨code, hcode, h⟩
      rcases Option.map_eq_some_iff.1 h with ⟨x, hx, heq⟩
      cases heq
      exact .inl ⟨e, code, s, rfl, hcode, x.1, rfl, hx⟩
  · obtain ⟨henc, c, t, -, hc, ht, -⟩ := readChars_of_wide hquote hback hb h
    exact absurd (hascii henc) (UInt8.not_lt.2 (Utf8.le_of_wide_append hc ht.symm))

/-- A number that the parser returns is one. -/
theorem isNumber_of_parseValue {fuel : Nat} {s text rest : List UInt8}
    (h : parseValue enc fuel s = some (.number text, rest)) : isNumber text = true := by
  have hliteral : ∀ s r, parseLiteral s ≠ some (.number text, r) := by
    intro s r hs
    simp only [parseLiteral, literals, List.findSome?_cons, List.findSome?_nil] at hs
    repeat' split at hs
    all_goals simp_all
  rcases fuel with _ | fuel
  · rw [parseValue] at h
    cases h
  rcases s with _ | ⟨b, s⟩
  · rw [parseValue] at h
    cases h
  rw [parseValue] at h
  split at h
  · rcases Option.map_eq_some_iff.1 h with ⟨_, -, heq⟩
    cases heq
  split at h
  · split at h
    · cases h
    · rcases Option.map_eq_some_iff.1 h with ⟨_, -, heq⟩
      cases heq
  split at h
  · split at h
    · cases h
    · rcases Option.map_eq_some_iff.1 h with ⟨_, -, heq⟩
      cases heq
  rcases Option.or_eq_some_iff.1 h with h | ⟨-, h⟩
  · exact absurd h (hliteral _ _)
  · rw [parseNumber] at h
    split at h
    · rename_i hnumber
      cases h
      exact hnumber
    · cases h

theorem hexCode_some {a b c d : UInt8} {code : UInt16} (h : hexCode a b c d = some code) :
    a ≠ quote ∧ b ≠ quote ∧ c ≠ quote ∧ d ≠ quote := by
  have hquote : hexDigit quote = none := rfl
  simp only [hexCode, Option.bind_eq_some_iff, Option.map_eq_some_iff] at h
  rcases h with ⟨_, ha, _, hb, _, hc, _, hd, -⟩
  refine ⟨?_, ?_, ?_, ?_⟩
  · intro heq
    rw [heq, hquote] at ha
    cases ha
  · intro heq
    rw [heq, hquote] at hb
    cases hb
  · intro heq
    rw [heq, hquote] at hc
    cases hc
  · intro heq
    rw [heq, hquote] at hd
    cases hd

/-- A wide character before a quote ends before it. -/
theorem wide_before_quote {c : Char} (hc : Utf8.IsWide c) {p s t : List UInt8}
    (h : p ++ quote :: s = String.utf8EncodeChar c ++ t) :
    ∃ p', p = String.utf8EncodeChar c ++ p' ∧ t = p' ++ quote :: s := by
  rcases List.append_eq_append_iff.1 h with ⟨p', hp', ht⟩ | ⟨p', hp', ht⟩
  · rcases p' with _ | ⟨b, p'⟩
    · exact ⟨[], by simpa using hp'.symm, by simpa using ht.symm⟩
    · have hquote : quote ∈ String.utf8EncodeChar c := by
        rw [hp', (List.cons.inj ht).1]
        exact List.mem_append_right _ List.mem_cons_self
      exact absurd (Utf8.le_of_mem_utf8EncodeChar hc _ hquote) (by decide)
  · exact ⟨p', hp', ht⟩

/-- Up to a quote, a string has at most as many code units as bytes, and as many
only if every byte stands for itself.  Otherwise the quote is escaped, and then
it is among the code units. -/
theorem readChars_length {p s rest : List UInt8} {codes : List UInt16} (hp : quote ∉ p)
    (h : readChars enc (p ++ quote :: s) = some (codes, rest)) :
    (codes.length ≤ p.length ∧ (codes.length = p.length → ∀ b ∈ p, isPlain enc b = true)) ∨
      34 ∈ codes.take p.length := by
  induction hlen : p.length using Nat.strong_induction_on generalizing p codes with
  | _ n ih =>
    subst hlen
    rcases p with _ | ⟨b, p⟩
    · rw [List.nil_append, readChars.eq_def] at h
      simp only [if_true] at h
      cases h
      exact .inl ⟨le_refl _, by simp⟩
    have hnotin := hp
    rw [List.mem_cons, not_or] at hp
    rw [List.cons_append] at h
    have hread := h
    rw [readChars.eq_def] at h
    simp only at h
    rw [if_neg (Ne.symm hp.1)] at h
    split at h
    · rcases p with _ | ⟨e, p⟩
      · rw [List.nil_append] at h
        simp only at h
        rw [if_neg (by decide)] at h
        rcases Option.map_eq_some_iff.1 h with ⟨x, -, hx⟩
        cases hx
        exact .inr (by simp)
      rw [List.mem_cons, not_or] at hp
      rw [List.cons_append] at h
      simp only at h
      split at h
      · split at h
        · rename_i a b c d t ht
          rcases Option.bind_eq_some_iff.1 h with ⟨code, hcode, h⟩
          rcases Option.map_eq_some_iff.1 h with ⟨x, hx, heq⟩
          cases heq
          have hne := hexCode_some hcode
          obtain ⟨p', rfl, rfl⟩ : ∃ p', p = a :: b :: c :: d :: p' ∧ t = p' ++ quote :: s := by
            rcases p with _ | ⟨a', _ | ⟨b', _ | ⟨c', _ | ⟨d', p⟩⟩⟩⟩
            all_goals simp only [List.nil_append, List.cons_append, List.cons.injEq] at ht
            · exact absurd ht.1.symm hne.1
            · exact absurd ht.2.1.symm hne.2.1
            · exact absurd ht.2.2.1.symm hne.2.2.1
            · exact absurd ht.2.2.2.1.symm hne.2.2.2
            · refine ⟨p, ?_, ht.2.2.2.2.symm⟩
              rw [ht.1, ht.2.1, ht.2.2.1, ht.2.2.2.1]
          have hp' : quote ∉ p' := fun hmem => hp.2.2 (by simp [hmem])
          rcases ih p'.length (by simp only [List.length_cons]; omega) hp' hx rfl with hle | hmem
          · refine .inl ⟨?_, fun hlen => ?_⟩
            · have := hle.1
              simp only [List.length_cons]
              omega
            · have := hle.1
              simp only [List.length_cons] at hlen
              omega
          · refine .inr ?_
            simp only [List.length_cons, List.take_succ_cons, List.mem_cons]
            exact .inr (List.take_subset_take_left _ (by omega) hmem)
        · cases h
      · rcases Option.bind_eq_some_iff.1 h with ⟨code, hcode, h⟩
        rcases Option.map_eq_some_iff.1 h with ⟨x, hx, heq⟩
        cases heq
        rcases ih p.length (by simp only [List.length_cons]; omega) hp.2.2 hx rfl with hle | hmem
        · refine .inl ⟨?_, fun hlen => ?_⟩
          · have := hle.1
            simp only [List.length_cons]
            omega
          · have := hle.1
            simp only [List.length_cons] at hlen
            omega
        · refine .inr ?_
          simp only [List.length_cons, List.take_succ_cons, List.mem_cons]
          exact .inr (List.take_subset_take_left _ (by omega) hmem)
    · rename_i hback
      split at h
      · rename_i hplain
        rcases Option.map_eq_some_iff.1 h with ⟨x, hx, heq⟩
        cases heq
        rcases ih p.length (by simp only [List.length_cons]; omega) hp.2 hx rfl with hle | hmem
        · refine .inl ⟨Nat.succ_le_succ hle.1, fun hlen c hc => ?_⟩
          rcases List.mem_cons.1 hc with rfl | hc
          · exact hplain
          · exact hle.2 (Nat.succ_injective hlen) c hc
        · refine .inr ?_
          simp only [List.length_cons, List.take_succ_cons, List.mem_cons]
          exact .inr hmem
      · rename_i hplain
        obtain ⟨-, c, t, codes', hc, ht, rfl, h'⟩ :=
          readChars_of_wide (Ne.symm hp.1) hback hplain hread
        obtain ⟨p', heq, rfl⟩ := wide_before_quote hc (show (b :: p) ++ quote :: s = _ from ht)
        have hunits := Utf8.length_utf16_lt hc
        have hlen := congrArg List.length heq
        rw [List.length_append] at hlen
        have hp' : quote ∉ p' := fun hmem => hnotin (heq ▸ List.mem_append_right _ hmem)
        rcases ih p'.length (by omega) hp' h' rfl with hle | hmem
        · have hle' := hle.1
          refine .inl ⟨?_, fun hlen' => ?_⟩
          · rw [List.length_append]
            omega
          · rw [List.length_append] at hlen'
            omega
        · refine .inr ?_
          rw [List.take_append, List.mem_append]
          exact .inr (List.take_subset_take_left _ (by omega) hmem)

/-- The code units of bytes that stand for themselves. -/
def codeUnits (s : List UInt8) : List UInt16 := s.map UInt8.toUInt16

/-- The code units of a text, if the bytes are a text. -/
def Encoding.units (enc : Encoding) (s : List UInt8) : Option (List UInt16) :=
  match enc with
  | .bytes => some (codeUnits s)
  | .utf8 => (Utf8.decode s).map Utf8.units

/-- A text that has a code unit for each byte. -/
def IsBytewise (enc : Encoding) (s : List UInt8) : Prop := enc = .utf8 → ∀ b ∈ s, b < 128

instance (enc : Encoding) (s : List UInt8) : Decidable (IsBytewise enc s) :=
  decidable_of_iff (enc = .utf8 → s.all (decide <| · < 128) = true)
    (imp_congr_right fun _ => by simp only [List.all_eq_true, decide_eq_true_eq])

theorem units_eq_codeUnits_iff (enc : Encoding) (s : List UInt8) :
    enc.units s = some (codeUnits s) ↔ IsBytewise enc s := by
  cases enc with
  | bytes => exact iff_of_true rfl fun h => by cases h
  | utf8 => exact Utf8.units_decode_eq_iff.trans (imp_iff_right rfl).symm

theorem toUInt16_injective : Function.Injective UInt8.toUInt16 := by
  intro a b hab
  have := congrArg UInt16.toNat hab
  rw [UInt8.toNat_toUInt16, UInt8.toNat_toUInt16] at this
  exact UInt8.toNat_inj.1 this

theorem mem_of_mem_codeUnits {s : List UInt8} (h : 34 ∈ codeUnits s) : quote ∈ s := by
  rcases List.mem_map.1 h with ⟨b, hb, heq⟩
  have hquote : b = quote := toUInt16_injective heq
  exact hquote ▸ hb

theorem isChars_codeUnits {s : List UInt8} (h : ∀ b ∈ s, isPlain enc b = true) :
    IsChars enc s (codeUnits s) := by
  induction s with
  | nil => exact .nil
  | cons b s ih =>
    exact .plain (h b List.mem_cons_self) (ih fun c hc => h c (List.mem_cons_of_mem b hc))

/-- Bytes that were put between quotes as they are read back as themselves only if
each of them stands for itself. -/
theorem isPlain_of_readChars {s t rest : List UInt8}
    (h : readChars enc (s ++ quote :: t) = some (codeUnits s, rest)) :
    ∀ b ∈ s, isPlain enc b = true := by
  have hlen : (codeUnits s).length = s.length := List.length_map _
  by_cases hmem : quote ∈ s
  · rcases List.eq_append_cons_of_mem hmem with ⟨p, q, rfl, hp⟩
    rw [List.append_assoc, List.cons_append] at h
    rcases readChars_length hp h with hle | h34
    · have := hle.1
      rw [hlen, List.length_append, List.length_cons] at this
      omega
    · have htake : (codeUnits (p ++ quote :: q)).take p.length = codeUnits p := by
        rw [codeUnits, List.map_append, List.take_left' (List.length_map _)]
        rfl
      rw [htake] at h34
      exact absurd (mem_of_mem_codeUnits h34) hp
  · rcases readChars_length hmem h with hle | h34
    · exact hle.2 hlen
    · exact absurd (mem_of_mem_codeUnits (List.mem_of_mem_take h34)) hmem

/-- The first member that the parser returns. -/
theorem parseMembers_cons {fuel : Nat} {s rest : List UInt8} {key : List UInt16} {v : Value}
    {ms : List (List UInt16 × Value)}
    (h : parseMembers enc (fuel + 1) s = some ((key, v) :: ms, rest)) :
    ∃ t t', parseKey enc s = some (key, t) ∧ parseValue enc fuel (skipSpace t) = some (v, t') := by
  rw [parseMembers] at h
  rcases Option.bind_eq_some_iff.1 h with ⟨⟨key', t⟩, hkey, h⟩
  rcases Option.bind_eq_some_iff.1 h with ⟨⟨v', t'⟩, hv, h⟩
  have heq : (key', v') = (key, v) := by
    simp only at h
    split at h
    · cases h
      rfl
    · split at h
      · rcases Option.map_eq_some_iff.1 h with ⟨x, -, hx⟩
        cases hx
        rfl
      · cases h
  cases heq
  exact ⟨t, t', hkey, hv⟩

/-- The first item that the parser returns. -/
theorem parseElements_cons {fuel : Nat} {s rest : List UInt8} {v : Value} {items : List Value}
    (h : parseElements enc (fuel + 1) s = some (v :: items, rest)) :
    ∃ t, parseValue enc fuel s = some (v, t) := by
  rw [parseElements] at h
  rcases Option.bind_eq_some_iff.1 h with ⟨⟨v', t⟩, hv, h⟩
  have heq : v' = v := by
    simp only at h
    split at h
    · cases h
      rfl
    · split at h
      · rcases Option.map_eq_some_iff.1 h with ⟨x, -, hx⟩
        cases hx
        rfl
      · cases h
  cases heq
  exact ⟨t, hv⟩

/-- A key that the parser returns as it is written needs no escape, and the
parser goes on after the colon. -/
theorem parseKey_codeUnits {key w s rest : List UInt8} (hw : IsSpace w)
    (h : parseKey enc (quote :: (key ++ quote :: (w ++ colon :: s))) = some (codeUnits key, rest)) :
    (∀ b ∈ key, isPlain enc b = true) ∧ rest = s := by
  rw [parseKey, if_pos rfl] at h
  rcases Option.bind_eq_some_iff.1 h with ⟨⟨key', t⟩, hkey, h⟩
  simp only at h
  split at h
  · simp only [Option.some.injEq, Prod.mk.injEq] at h
    rw [h.1] at hkey
    have hplain := isPlain_of_readChars hkey
    have hread := readChars_of_isChars (isChars_codeUnits hplain) (w ++ colon :: s)
    rw [hkey] at hread
    simp only [Option.some.injEq, Prod.mk.injEq, true_and] at hread
    refine ⟨hplain, ?_⟩
    rw [← h.2, hread, skipSpace_append hw, skipSpace_cons rfl]
    rfl
  · cases h

/-! ## Decimal numbers -/

theorem dropWhile_isDigit {s : List UInt8} (h : ∀ b ∈ s, isDigit b = true) :
    s.dropWhile isDigit = [] :=
  List.dropWhile_eq_nil_iff.2 h

/-- A text of digits without a leading zero is an integer part. -/
theorem afterInt_decimal (n : Nat) : afterInt (decimal n) = some [] := by
  unfold decimal
  split
  · rfl
  · rename_i hn
    have hdigit : ∀ b ∈ (Nat.digits 10 n).reverse.map digitByte, isDigit b = true := by
      intro b hb
      apply @isDigit_of_mem_decimal n b
      rw [decimal, if_neg hn]
      exact hb
    have hlast := Nat.getLast_digit_ne_zero 10 hn
    rcases hrev : (Nat.digits 10 n).reverse with _ | ⟨d, ds⟩
    · rw [List.reverse_eq_nil_iff] at hrev
      exact absurd hrev (Nat.digits_ne_nil_iff_ne_zero.2 hn)
    have hhead : d ≠ 0 := by
      have heq : (Nat.digits 10 n).getLast (Nat.digits_ne_nil_iff_ne_zero.2 hn) = d := by
        rw [List.getLast_eq_head_reverse]
        simp [hrev]
      omega
    have hlt : d < 10 := by
      refine Nat.digits_lt_base (show 1 < 10 by decide) (show d ∈ Nat.digits 10 n from ?_)
      rw [← List.mem_reverse, hrev]
      exact List.mem_cons_self
    rw [hrev, List.map_cons] at hdigit
    have hzero : digitByte d ≠ 48 := by
      intro h
      have := congrArg UInt8.toNat h
      rw [digitByte_toNat hlt] at this
      have h48 : (48 : UInt8).toNat = 48 := rfl
      omega
    rw [List.map_cons, afterInt, List.head?_cons, if_neg (by simpa using hzero), afterDigits,
      if_pos (hdigit _ List.mem_cons_self),
      dropWhile_isDigit fun b hb => hdigit b (List.mem_cons_of_mem _ hb)]

/-- `"%d"` writes a JSON number. -/
theorem isNumber_decimalInt (z : Int) : isNumber (decimalInt z) = true := by
  have hminus : afterMinus (decimalInt z) = decimal z.natAbs := by
    unfold decimalInt
    split
    · rfl
    · rw [afterMinus, if_neg]
      intro h
      have hmem : (45 : UInt8) ∈ decimal z.natAbs := List.mem_of_mem_head? h
      have := isDigit_of_mem_decimal hmem
      cases this
  rw [isNumber, hminus, afterInt_decimal, decide_eq_true_eq]
  rfl

end Json
