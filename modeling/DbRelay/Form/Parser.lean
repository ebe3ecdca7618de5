import DbRelay.Lib.CString

/-!
# The parsers of form data

The three functions of `ngx_http_dbrelay_module.c` that take a query string or the body
of a POST apart, and what `write_value` does to the buffer that they share.

* The loops are the same: `FormState.step` is the body.  The byte after `&` starts a
  key, and each `=` starts the value again.
* `endGet` and `endPost` cut newlines off the last value.  They start with the byte after
  it, and differ in the terminator.
* A write outside of `key` or `value` is `none`.

The content of `value` before the first write is an argument, and so is the decoder of
nginx, of which only the length of its result matters.
-/

namespace DbRelay

/-- The sizes of `key`, and of `value` for a GET. -/
def keySz : Nat := 100
def getValueSz : Nat := 4000

def ampersand : UInt8 := 38
def equalsSign : UInt8 := 61

def isNewline (b : UInt8) : Bool := decide (b = 10 ∨ b = 13)

/-- `ngx_unescape_uri` for the type 0.  It writes to where it reads from. -/
structure Unescape where
  decode : List UInt8 → List UInt8
  length_le (s : List UInt8) : (decode s).length ≤ s.length

/-! ## The value buffer -/

/-- The array `value` and the cursor `v`. -/
structure ValueBuf where
  bytes : List UInt8
  v : Nat := 0
  deriving DecidableEq, Repr

namespace ValueBuf

/-- `*v=b`. -/
def store (buf : ValueBuf) (b : UInt8) : Option ValueBuf :=
  if buf.v < buf.bytes.length then some { buf with bytes := buf.bytes.set buf.v b } else none

/-- `value`, read as a string. -/
def text (buf : ValueBuf) : CString := .ofBytes buf.bytes

end ValueBuf

/-- A plus sign stands for a blank. -/
def plusToSpace (b : UInt8) : UInt8 := if b = 43 then 32 else b

/-- What `write_value` does to its argument. -/
def unescapeBytes (u : Unescape) (value : List UInt8) : List UInt8 :=
  let src := (CString.ofBytes value).bytes.map plusToSpace
  let value := src ++ value.drop src.length
  let dst := u.decode src
  dst ++ 0 :: value.drop (dst.length + 1)

/-! ## The loop -/

/-- The variables of the loop.  `key` is the array up to `k`, which is read only after
its end was marked. -/
structure FormState where
  key : List UInt8 := []
  value : ValueBuf
  target : Bool := false
  /-- The arguments of the calls of `write_value`. -/
  calls : List (CString × CString) := []
  deriving DecidableEq, Repr

/-- A call of `write_value`. -/
def FormState.writeValue (u : Unescape) (s : FormState) : FormState :=
  { s with
    value := { s.value with bytes := unescapeBytes u s.value.bytes }
    calls := s.calls ++ [(.ofBytes s.key, s.value.text)] }

/-- The body of the loop. -/
def FormState.step (u : Unescape) (s : FormState) (b : UInt8) : Option FormState :=
  if b = ampersand then
    if s.key.length < keySz then
      (s.value.store 0).map fun value =>
        { ({ s with value := value } : FormState).writeValue u with target := false, key := [] }
    else none
  else if b = equalsSign then some { s with target := true, value := { s.value with v := 0 } }
  else if !s.target then
    if s.key.length < keySz then some { s with key := s.key ++ [b] } else none
  else
    (s.value.store b).map fun value => { s with value := { value with v := value.v + 1 } }

def FormState.run (u : Unescape) (s : FormState) (text : List UInt8) : Option FormState :=
  text.foldlM (FormState.step u) s

/-! ## The end of the input -/

/-- `*v--='\0'` while there is a newline.  The number is one more than `v`. -/
def trimNewlines (value : List UInt8) : Nat → List UInt8 × Nat
  | 0 => (value, 0)
  | v + 1 =>
    if value[v]?.any isNewline then trimNewlines (value.set v 0) v else (value, v + 1)

/-- The end of `parse_get_query_string`. -/
def endGet (u : Unescape) (s : FormState) : Option (List (CString × CString)) :=
  if s.key.length < keySz then
    match trimNewlines s.value.bytes (s.value.v + 1) with
    | (_, 0) => none
    | (bytes, v + 1) =>
      (ValueBuf.store ⟨bytes, v⟩ 0).map fun value =>
        (({ s with value := value } : FormState).writeValue u).calls
  else none

/-- The end of the two others. -/
def endPost (u : Unescape) (s : FormState) : Option (List (CString × CString)) :=
  if s.key.length < keySz then
    let (bytes, n) := trimNewlines s.value.bytes (s.value.v + 1)
    let value : ValueBuf := ⟨bytes, s.value.v⟩
    -- `chop` is set by the first newline.
    (if n = s.value.v + 1 then value.store 0 else some value).map fun value =>
      (({ s with value := value } : FormState).writeValue u).calls
  else none

/-! ## The parsers -/

/-- `size` bytes that were not written yet. -/
def uninitialized (garbage : Nat → UInt8) (size : Nat) : ValueBuf :=
  ⟨(List.range size).map garbage, 0⟩

/-- `parse_get_query_string`.  The loop ends at a zero byte. -/
def parseGetQueryString (u : Unescape) (garbage : Nat → UInt8) (args : List UInt8) :
    Option (List (CString × CString)) :=
  if args.length = 0 then some []
  else
    (FormState.run u { value := uninitialized garbage getValueSz }
      (args.takeWhile (· ≠ 0))).bind (endGet u)

/-- `parse_post_query_string`.  Its caller has at least one buffer. -/
def parsePostQueryString (u : Unescape) (garbage : Nat → UInt8) (buf : List UInt8)
    (next : List (List UInt8)) : Option (List (CString × CString)) :=
  let bufsz := ((buf :: next).map fun buf => buf.length + 1).sum
  ((buf :: next).foldlM (fun s buf => FormState.run u s buf)
    ({ value := uninitialized garbage bufsz } : FormState)).bind (endPost u)

/-- `parse_post_query_file`, after the file was read. -/
def parsePostQueryFile (u : Unescape) (garbage : Nat → UInt8) (buf : List UInt8) :
    Option (List (CString × CString)) :=
  (FormState.run u { value := uninitialized garbage buf.length } buf).bind (endPost u)

/-- What a request brings. -/
inductive FormInput
  | get (args : List UInt8)
  | postString (buf : List UInt8) (next : List (List UInt8))
  | postFile (buf : List UInt8)

def parseForm (u : Unescape) (garbage : Nat → UInt8) :
    FormInput → Option (List (CString × CString))
  | .get args => parseGetQueryString u garbage args
  | .postString buf next => parsePostQueryString u garbage buf next
  | .postFile buf => parsePostQueryFile u garbage buf

end DbRelay
