import DbRelay.Lib.Json

/-!
# The JSON writer

`json.c` and the string buffer it appends to.  A `JsonWriter` is the `json_t` of
the source, with the stack of open objects and arrays, the number of items that
each one holds so far, and the flag `pending`: a key was written and its value
was not.

Strings are lists of bytes without their terminators.  `char` is signed, so a
byte from 128 on is below a space.  The counters do not wrap.
-/

namespace DbRelay

/-! ## The string buffer -/

/-- `stringbuf_t`: the parts, in the order in which they were appended. -/
abbrev StringBuf := List (List UInt8)

def StringBuf.append (sb : StringBuf) (s : List UInt8) : StringBuf := sb ++ [s]

/-- `sb_to_char`. -/
def StringBuf.toChar (sb : StringBuf) : List UInt8 := sb.flatten

/-! ## The writer -/

/-- `ARRAY` and `OBJECT`. -/
inductive NodeType
  | array
  | object
  deriving DecidableEq, Repr

/-- `json_node_t`, without the link to the next one. -/
structure JsonNode where
  nodeType : NodeType
  numItems : Nat := 0
  deriving DecidableEq, Repr

/-- `DBRELAY_JSON_MODE_STD` and `DBRELAY_JSON_MODE_CSV`. -/
inductive JsonMode
  | std
  | csv
  deriving DecidableEq, Repr

/-- `json_t`.  The head of `stack` is the innermost node. -/
structure JsonWriter where
  sb : StringBuf := []
  tabLevel : Int := 0
  stack : List JsonNode := []
  pending : Bool := false
  prettyprint : Bool := false
  mode : JsonMode := .std
  deriving DecidableEq, Repr

namespace JsonWriter

/-- `json_new` and `json_pretty_print`. -/
def new (prettyprint : Bool) : JsonWriter := { prettyprint := prettyprint }

/-- `json_to_string`. -/
def toString (json : JsonWriter) : List UInt8 := json.sb.toChar

/-- `json_set_mode`. -/
def setMode (json : JsonWriter) (mode : JsonMode) : JsonWriter := { json with mode := mode }

/-- `sb_append(json->sb, s)`. -/
def append (json : JsonWriter) (s : List UInt8) : JsonWriter :=
  { json with sb := json.sb.append s }

/-- `if (json->prettyprint) sb_append(json->sb, s)`. -/
def appendPretty (json : JsonWriter) (s : List UInt8) : JsonWriter :=
  if json.prettyprint then json.append s else json

/-- `json->stack && json->stack->num_items`. -/
def hasItems (json : JsonWriter) : Bool :=
  match json.stack with
  | [] => false
  | node :: _ => decide (node.numItems ≠ 0)

/-- `if (json->stack) json->stack->num_items++`. -/
def countItem (json : JsonWriter) : JsonWriter :=
  match json.stack with
  | [] => json
  | node :: stack => { json with stack := { node with numItems := node.numItems + 1 } :: stack }

/-- `json_push`. -/
def push (json : JsonWriter) (nodeType : NodeType) : JsonWriter :=
  { json with stack := { nodeType := nodeType } :: json.stack }

/-- `json_tab`. -/
def tab (json : JsonWriter) : JsonWriter :=
  if json.prettyprint then
    json.tabLevel.toNat.repeat (fun json => json.append (ascii "   ")) json
  else json

/-- What comes before a bracket that is not the value of a key. -/
def separate (json : JsonWriter) : JsonWriter :=
  if json.pending then json
  else if json.hasItems then ((json.append (ascii ",")).appendPretty (ascii "\n")).tab
  else json.tab

/-- `json_new_object` and `json_new_array` differ in the bracket and the node. -/
def newNode (nodeType : NodeType) (bracket : List UInt8) (json : JsonWriter) : JsonWriter :=
  let json := (json.separate.append bracket).appendPretty (ascii "\n")
  { ({ json with tabLevel := json.tabLevel + 1 }.countItem.push nodeType) with pending := false }

/-- `json_end_object` and `json_end_array` differ in the bracket. -/
def endNode (bracket : List UInt8) (json : JsonWriter) : JsonWriter :=
  let json := (({ json with tabLevel := json.tabLevel - 1 }.appendPretty (ascii "\n")).tab).append
    bracket
  { json with stack := json.stack.tail }

/-- `json_new_object`. -/
def newObject : JsonWriter → JsonWriter := newNode .object (ascii "\x7b")

/-- `json_end_object`. -/
def endObject : JsonWriter → JsonWriter := endNode (ascii "\x7d")

/-- `json_new_array`. -/
def newArray : JsonWriter → JsonWriter := newNode .array (ascii "[")

/-- `json_end_array`. -/
def endArray : JsonWriter → JsonWriter := endNode (ascii "]")

/-- The comma or the indentation before a key. -/
def separateKey (json : JsonWriter) : JsonWriter :=
  if json.stack.isEmpty then json
  else if json.hasItems then
    if json.pending then json else json.append (ascii ", ")
  else json.tab

/-- `json_add_key`. -/
def addKey (json : JsonWriter) (key : List UInt8) : JsonWriter :=
  let json := (json.separateKey.countItem.append (ascii "\"")).append key
  let json := (json.append (ascii "\"")).appendPretty (ascii " ")
  { ((json.append (ascii ":")).appendPretty (ascii " ")) with pending := true }

/-- `json_add_value`.  It leaves `pending` as it is. -/
def addValue (json : JsonWriter) (value : List UInt8) : JsonWriter :=
  let json := if json.hasItems && !json.pending then json.append (ascii ",") else json
  (json.append value).countItem

/-- `json_add_number`. -/
def addNumber (json : JsonWriter) (key value : List UInt8) : JsonWriter :=
  { ((json.addKey key).append value) with pending := false }

/-- `json_add_null`. -/
def addNull (json : JsonWriter) (key : List UInt8) : JsonWriter :=
  { ((json.addKey key).append (ascii "null")) with pending := false }

/-- `is_printable`. -/
def isPrintable (c : UInt8) : Bool := !decide (c < 32 ∨ 128 ≤ c ∨ c = 34 ∨ c = 92)

/-- A digit of `%x`. -/
def hexDigit (n : Nat) : UInt8 := (if n < 10 then 48 + n else 87 + n).toUInt8

/-- `append_nonprintable`. -/
def nonprintable (c : UInt8) : List UInt8 :=
  if c = 34 then ascii "\\\""
  else if c = 92 then ascii "\\\\"
  else if c = 47 then ascii "\\/"
  else if c = 8 then ascii "\\b"
  else if c = 12 then ascii "\\f"
  else if c = 10 then ascii "\\n"
  else if c = 13 then ascii "\\r"
  else if c = 9 then ascii "\\t"
  else ascii "\\u00" ++ [hexDigit (c.toNat / 16), hexDigit (c.toNat % 16)]

/-- The loop of `json_add_string`.  `first` holds the bytes that wait to be
appended. -/
def addChars (json : JsonWriter) (first : List UInt8) : List UInt8 → JsonWriter
  | [] => json.append first
  | c :: s =>
    if isPrintable c then json.addChars (first ++ [c]) s
    else ((json.append first).append (nonprintable c)).addChars [] s

/-- `json_add_string`. -/
def addString (json : JsonWriter) (key value : List UInt8) : JsonWriter :=
  let json := (((json.addKey key).append (ascii "\"")).addChars [] value).append (ascii "\"")
  { json with pending := false }

/-- `json_add_json`. -/
def addJson (json : JsonWriter) (value : List UInt8) : JsonWriter := json.append value

/-- `json_add_callback`. -/
def addCallback (json : JsonWriter) (value : List UInt8) : JsonWriter :=
  (json.append value).append (ascii "(")

/-- `json_end_callback`. -/
def endCallback (json : JsonWriter) : JsonWriter := json.append (ascii ");")

end JsonWriter

end DbRelay
