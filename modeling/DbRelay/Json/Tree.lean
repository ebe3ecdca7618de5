import DbRelay.Json.Writer

/-!
# Trees and their texts

What a well-nested sequence of calls builds is a tree.  `Tree.calls` is the
sequence, and `Tree.text` is the text that belongs to the tree, as a function of
its shape, of the pretty printer and of the indentation.

`run_calls` connects the two: from any state of the writer, the calls of a tree
append exactly its text.  Commas come from counters in the writer and from the
position in the tree in `Tree.text`.

Keys, numbers and strings are arbitrary bytes here.
-/

namespace DbRelay

open JsonWriter

/-! ## Calls -/

/-- A call of the writer. -/
inductive JsonCall
  | newObject
  | endObject
  | newArray
  | endArray
  | addKey (key : List UInt8)
  | addNumber (key value : List UInt8)
  | addNull (key : List UInt8)
  | addString (key value : List UInt8)
  deriving DecidableEq, Repr

/-- The state after a call. -/
def JsonWriter.call (json : JsonWriter) : JsonCall → JsonWriter
  | .newObject => json.newObject
  | .endObject => json.endObject
  | .newArray => json.newArray
  | .endArray => json.endArray
  | .addKey key => json.addKey key
  | .addNumber key value => json.addNumber key value
  | .addNull key => json.addNull key
  | .addString key value => json.addString key value

/-- The state after some calls. -/
def JsonWriter.run (json : JsonWriter) (calls : List JsonCall) : JsonWriter :=
  calls.foldl JsonWriter.call json

theorem run_append (json : JsonWriter) (calls calls' : List JsonCall) :
    json.run (calls ++ calls') = (json.run calls).run calls' :=
  List.foldl_append

theorem run_cons (json : JsonWriter) (call : JsonCall) (calls : List JsonCall) :
    json.run (call :: calls) = (json.call call).run calls :=
  rfl

/-! ## Trees -/

mutual

/-- An object or an array. -/
inductive Tree
  | object (members : Members)
  | array (items : Items)

/-- What a key stands for. -/
inductive Member
  | string (value : List UInt8)
  | number (value : List UInt8)
  | null
  | tree (value : Tree)

inductive Members
  | nil
  | cons (key : List UInt8) (value : Member) (rest : Members)

inductive Items
  | nil
  | cons (item : Tree) (rest : Items)

end

mutual

/-- The calls that write a tree. -/
def Tree.calls : Tree → List JsonCall
  | .object members => .newObject :: (members.calls ++ [.endObject])
  | .array items => .newArray :: (items.calls ++ [.endArray])

def Member.calls (key : List UInt8) : Member → List JsonCall
  | .string value => [.addString key value]
  | .number value => [.addNumber key value]
  | .null => [.addNull key]
  | .tree value => .addKey key :: value.calls

def Members.calls : Members → List JsonCall
  | .nil => []
  | .cons key value rest => value.calls key ++ rest.calls

def Items.calls : Items → List JsonCall
  | .nil => []
  | .cons item rest => item.calls ++ rest.calls

end

/-! ## Texts -/

/-- `s` if the pretty printer is on. -/
def pretty (pp : Bool) (s : List UInt8) : List UInt8 := if pp then s else []

/-- The indentation. -/
def tabs (pp : Bool) (level : Int) : List UInt8 :=
  pretty pp (List.replicate level.toNat (ascii "   ")).flatten

/-- A string between its quotes, as `json_add_string` writes it. -/
def escaped (s : List UInt8) : List UInt8 :=
  s.flatMap fun c => if isPrintable c then [c] else nonprintable c

/-- A key up to its value. -/
def keyText (pp : Bool) (key : List UInt8) : List UInt8 :=
  ascii "\"" ++ key ++ ascii "\"" ++ pretty pp (ascii " ") ++ ascii ":" ++ pretty pp (ascii " ")

mutual

/-- The text of a tree. -/
def Tree.text (pp : Bool) (level : Int) : Tree → List UInt8
  | .object members => ascii "\x7b" ++ pretty pp (ascii "\n") ++
      members.text pp (level + 1) true ++ pretty pp (ascii "\n") ++ tabs pp level ++ ascii "\x7d"
  | .array items => ascii "[" ++ pretty pp (ascii "\n") ++
      items.text pp (level + 1) true ++ pretty pp (ascii "\n") ++ tabs pp level ++ ascii "]"

def Member.text (pp : Bool) (level : Int) : Member → List UInt8
  | .string value => ascii "\"" ++ escaped value ++ ascii "\""
  | .number value => value
  | .null => ascii "null"
  | .tree value => value.text pp level

/-- `first` says that no member was written before. -/
def Members.text (pp : Bool) (level : Int) (first : Bool) : Members → List UInt8
  | .nil => []
  | .cons key value rest => (if first then tabs pp level else ascii ", ") ++ keyText pp key ++
      value.text pp level ++ rest.text pp level false

/-- `first` says that no item was written before. -/
def Items.text (pp : Bool) (level : Int) (first : Bool) : Items → List UInt8
  | .nil => []
  | .cons item rest => (if first then [] else ascii "," ++ pretty pp (ascii "\n")) ++
      tabs pp level ++ item.text pp level ++ rest.text pp level false

end

/-! ## What a call appends -/

/-- `json'` is `json` with `s` appended. -/
def Wrote (json : JsonWriter) (s : List UInt8) (json' : JsonWriter) : Prop :=
  ∃ parts : StringBuf, parts.toChar = s ∧ json' = { json with sb := json.sb ++ parts }

theorem Wrote.toString_eq {json json' : JsonWriter} {s : List UInt8} (h : Wrote json s json') :
    json'.toString = json.toString ++ s := by
  obtain ⟨parts, rfl, rfl⟩ := h
  exact List.flatten_append

theorem Wrote.refl (json : JsonWriter) : Wrote json [] json :=
  ⟨[], rfl, by rw [List.append_nil]⟩

theorem Wrote.append {json json' : JsonWriter} {s : List UInt8} (h : Wrote json s json')
    (t : List UInt8) : Wrote json (s ++ t) (json'.append t) := by
  obtain ⟨parts, rfl, rfl⟩ := h
  refine ⟨parts ++ [t], ?_, ?_⟩
  · simp [StringBuf.toChar]
  · simp [JsonWriter.append, StringBuf.append]

theorem Wrote.appendPretty {json json' : JsonWriter} {s : List UInt8} (h : Wrote json s json')
    (t : List UInt8) :
    Wrote json (s ++ pretty json.prettyprint t) (json'.appendPretty t) := by
  have hpp : json'.prettyprint = json.prettyprint := by
    obtain ⟨parts, rfl, rfl⟩ := h
    rfl
  rw [JsonWriter.appendPretty, hpp, pretty]
  split
  · exact h.append t
  · rw [List.append_nil]
    exact h

theorem Wrote.tab {json json' : JsonWriter} {s : List UInt8} (h : Wrote json s json') :
    Wrote json (s ++ tabs json.prettyprint json.tabLevel) json'.tab := by
  have hpp : json'.prettyprint = json.prettyprint ∧ json'.tabLevel = json.tabLevel := by
    obtain ⟨parts, rfl, rfl⟩ := h
    exact ⟨rfl, rfl⟩
  have hrepeat : ∀ n : Nat, Wrote json (s ++ (List.replicate n (ascii "   ")).flatten)
      (n.repeat (fun json => json.append (ascii "   ")) json') := by
    intro n
    induction n with
    | zero => simpa [Nat.repeat] using h
    | succ n ih =>
      rw [List.replicate_succ', List.flatten_append, List.flatten_singleton, ← List.append_assoc]
      exact ih.append _
  rw [JsonWriter.tab, hpp.1, hpp.2, tabs, pretty]
  split
  · exact hrepeat _
  · rw [List.append_nil]
    exact h

theorem Wrote.trans {json json' json'' : JsonWriter} {s t : List UInt8} (h : Wrote json s json')
    (h' : Wrote json' t json'') : Wrote json (s ++ t) json'' := by
  obtain ⟨parts, rfl, rfl⟩ := h
  obtain ⟨parts', rfl, rfl⟩ := h'
  refine ⟨parts ++ parts', ?_, ?_⟩
  · exact List.flatten_append
  · simp

theorem Wrote.setStack {json json' : JsonWriter} {s : List UInt8} (h : Wrote json s json')
    (stack : List JsonNode) :
    Wrote { json with stack := stack } s { json' with stack := stack } := by
  obtain ⟨parts, rfl, rfl⟩ := h
  exact ⟨parts, rfl, rfl⟩

theorem Wrote.setPending {json json' : JsonWriter} {s : List UInt8} (h : Wrote json s json')
    (pending : Bool) :
    Wrote { json with pending := pending } s { json' with pending := pending } := by
  obtain ⟨parts, rfl, rfl⟩ := h
  exact ⟨parts, rfl, rfl⟩

/-- Appending changes nothing else. -/
theorem Wrote.unchanged {json json' : JsonWriter} {s : List UInt8} (h : Wrote json s json') :
    json'.stack = json.stack ∧ json'.pending = json.pending ∧ json'.tabLevel = json.tabLevel ∧
      json'.prettyprint = json.prettyprint ∧ json'.mode = json.mode := by
  obtain ⟨parts, rfl, rfl⟩ := h
  exact ⟨rfl, rfl, rfl, rfl, rfl⟩

/-- The second of two calls decides the stack and the flag. -/
theorem Wrote.chain {json json' json'' : JsonWriter} {s t : List UInt8}
    {stack stack' : List JsonNode} {pending pending' : Bool}
    (h : Wrote { json with stack := stack, pending := pending } s json')
    (h' : Wrote { json' with stack := stack', pending := pending' } t json'') :
    Wrote { json with stack := stack', pending := pending' } (s ++ t) json'' :=
  ((h.setStack stack').setPending pending').trans h'

/-- `n` more items in the innermost node. -/
def countTop (n : Nat) : List JsonNode → List JsonNode
  | [] => []
  | node :: stack => { node with numItems := node.numItems + n } :: stack

theorem countItem_eq (json : JsonWriter) :
    json.countItem = { json with stack := countTop 1 json.stack } := by
  unfold countItem
  split
  · rename_i hstack
    rw [hstack]
    cases json
    cases hstack
    rfl
  · rename_i hstack
    rw [hstack]
    rfl

/-- What comes before the bracket of a new object or array. -/
def nodeLead (json : JsonWriter) : List UInt8 :=
  if json.pending then []
  else (if json.hasItems then ascii "," ++ pretty json.prettyprint (ascii "\n") else []) ++
    tabs json.prettyprint json.tabLevel

/-- What comes before a key. -/
def keyLead (json : JsonWriter) : List UInt8 :=
  if json.stack.isEmpty then []
  else if json.hasItems then
    if json.pending then [] else ascii ", "
  else tabs json.prettyprint json.tabLevel

theorem separate_wrote (json : JsonWriter) : Wrote json (nodeLead json) json.separate := by
  unfold nodeLead separate
  split
  · exact .refl json
  · split
    · exact (((Wrote.refl json).append _).appendPretty _).tab
    · exact (Wrote.refl json).tab

theorem separateKey_wrote (json : JsonWriter) :
    Wrote json (keyLead json) json.separateKey := by
  unfold keyLead separateKey
  split
  · exact .refl json
  · split
    · split
      · exact .refl json
      · exact (Wrote.refl json).append _
    · exact (Wrote.refl json).tab

/-- `json_new_object` and `json_new_array`. -/
theorem newNode_wrote (json : JsonWriter) (nodeType : NodeType) (bracket : List UInt8) :
    Wrote { json with
        tabLevel := json.tabLevel + 1
        stack := { nodeType := nodeType } :: countTop 1 json.stack
        pending := false }
      (nodeLead json ++ bracket ++ pretty json.prettyprint (ascii "\n"))
      (newNode nodeType bracket json) := by
  have h := ((separate_wrote json).append bracket).appendPretty (ascii "\n")
  obtain ⟨parts, hparts, heq⟩ := h
  refine ⟨parts, hparts, ?_⟩
  simp only [newNode, heq, countItem_eq, push]

/-- `json_end_object` and `json_end_array`. -/
theorem endNode_wrote (json : JsonWriter) (bracket : List UInt8) :
    Wrote { json with tabLevel := json.tabLevel - 1, stack := json.stack.tail }
      (pretty json.prettyprint (ascii "\n") ++ tabs json.prettyprint (json.tabLevel - 1) ++ bracket)
      (endNode bracket json) := by
  have h := (((Wrote.refl { json with tabLevel := json.tabLevel - 1 }).appendPretty
    (ascii "\n")).tab).append bracket
  obtain ⟨parts, hparts, heq⟩ := h
  refine ⟨parts, hparts, ?_⟩
  simp only [endNode, heq]

/-- `json_add_key`. -/
theorem addKey_wrote (json : JsonWriter) (key : List UInt8) :
    Wrote { json with stack := countTop 1 json.stack, pending := true }
      (keyLead json ++ keyText json.prettyprint key) (json.addKey key) := by
  have h := (((((((separateKey_wrote json).setStack (countTop 1 json.stack)).append
    (ascii "\"")).append key).append (ascii "\"")).appendPretty (ascii " ")).append
    (ascii ":")).appendPretty (ascii " ")
  have hstack : json.separateKey.stack = json.stack := by
    obtain ⟨parts, -, heq⟩ := separateKey_wrote json
    rw [heq]
  rw [addKey, countItem_eq, hstack]
  simpa only [keyText, List.append_assoc] using h.setPending true

/-- The loop of `json_add_string`. -/
theorem addChars_wrote (json : JsonWriter) (first s : List UInt8) :
    Wrote json (first ++ escaped s) (json.addChars first s) := by
  induction s generalizing json first with
  | nil =>
    rw [escaped, List.flatMap_nil, List.append_nil]
    exact (Wrote.refl json).append first
  | cons c s ih =>
    rw [addChars, escaped, List.flatMap_cons]
    split
    · rw [← List.append_assoc]
      exact ih json (first ++ [c])
    · have h := ((Wrote.refl json).append first).append (nonprintable c)
      have h' := h.trans (ih ((json.append first).append (nonprintable c)) [])
      rw [List.nil_append, List.nil_append, List.append_assoc] at h'
      exact h'

theorem addNumber_wrote (json : JsonWriter) (key value : List UInt8) :
    Wrote { json with stack := countTop 1 json.stack, pending := false }
      (keyLead json ++ keyText json.prettyprint key ++ value) (json.addNumber key value) :=
  ((addKey_wrote json key).append value).setPending false

theorem addNull_wrote (json : JsonWriter) (key : List UInt8) :
    Wrote { json with stack := countTop 1 json.stack, pending := false }
      (keyLead json ++ keyText json.prettyprint key ++ ascii "null") (json.addNull key) :=
  ((addKey_wrote json key).append (ascii "null")).setPending false

theorem addString_wrote (json : JsonWriter) (key value : List UInt8) :
    Wrote { json with stack := countTop 1 json.stack, pending := false }
      (keyLead json ++ keyText json.prettyprint key ++
        (ascii "\"" ++ escaped value ++ ascii "\"")) (json.addString key value) := by
  have hquote := (addKey_wrote json key).append (ascii "\"")
  have h := ((hquote.trans (addChars_wrote _ [] value)).append (ascii "\"")).setPending false
  rw [addString]
  simpa only [List.append_assoc, List.nil_append] using h

/-- What stands between the brackets is appended with more indentation. -/
theorem node_wrote {json json' : JsonWriter} {nodeType : NodeType} {opening body : List UInt8}
    {n : Nat} (closing : List UInt8)
    (hbody : Wrote { newNode nodeType opening json with
        stack := { nodeType := nodeType, numItems := n } :: countTop 1 json.stack } body json') :
    Wrote { json with stack := countTop 1 json.stack, pending := false }
      (nodeLead json ++ (opening ++ pretty json.prettyprint (ascii "\n") ++ body ++
        pretty json.prettyprint (ascii "\n") ++ tabs json.prettyprint json.tabLevel ++ closing))
      (endNode closing json') := by
  obtain ⟨parts, hparts, heq⟩ := newNode_wrote json nodeType opening
  obtain ⟨parts', hparts', heq'⟩ := hbody
  obtain ⟨parts'', hparts'', heq''⟩ := endNode_wrote json' closing
  refine ⟨parts ++ parts' ++ parts'', ?_, ?_⟩
  · rw [heq', heq] at hparts''
    simp only [add_sub_cancel_right] at hparts''
    simp only [StringBuf.toChar, List.flatten_append] at hparts hparts' hparts'' ⊢
    rw [hparts, hparts', hparts'']
    simp only [List.append_assoc]
  · rw [heq'', heq', heq]
    simp

/-! ## What the calls of a tree append -/

/-- How many items the innermost node counts for a member.  A key counts, and so
does the bracket after it. -/
def Member.items : Member → Nat
  | .tree _ => 2
  | _ => 1

theorem countTop_countTop (m n : Nat) (stack : List JsonNode) :
    countTop m (countTop n stack) = countTop (n + m) stack := by
  cases stack with
  | nil => rfl
  | cons node stack =>
    simp only [countTop, Nat.add_assoc]

theorem keyLead_cons {json : JsonWriter} {node : JsonNode} {stack : List JsonNode}
    (hstack : json.stack = node :: stack) (hpending : json.pending = false) :
    keyLead json =
      if decide (node.numItems = 0) then tabs json.prettyprint json.tabLevel else ascii ", " := by
  rw [keyLead, hasItems, hstack, hpending]
  by_cases hzero : node.numItems = 0
  · simp [hzero]
  · simp [hzero]

theorem nodeLead_cons {json : JsonWriter} {node : JsonNode} {stack : List JsonNode}
    (hstack : json.stack = node :: stack) (hpending : json.pending = false) :
    nodeLead json =
      (if decide (node.numItems = 0) then []
        else ascii "," ++ pretty json.prettyprint (ascii "\n")) ++
        tabs json.prettyprint json.tabLevel := by
  rw [nodeLead, hasItems, hstack, hpending]
  by_cases hzero : node.numItems = 0
  · simp [hzero]
  · simp [hzero]

mutual

/-- The calls of a tree append its text. -/
theorem Tree.run_calls (tree : Tree) (json : JsonWriter) :
    Wrote { json with stack := countTop 1 json.stack, pending := false }
      (nodeLead json ++ tree.text json.prettyprint json.tabLevel) (json.run tree.calls) := by
  cases tree with
  | object members =>
    obtain ⟨parts, -, heq⟩ := newNode_wrote json .object (ascii "\x7b")
    obtain ⟨n, hbody⟩ := Members.run_calls members json.newObject { nodeType := .object }
      (countTop 1 json.stack) (by rw [newObject, heq]) (by rw [newObject, heq])
    have h := node_wrote (ascii "\x7d") hbody
    rw [newObject, heq] at h
    rw [Tree.calls, run_cons, run_append, Tree.text]
    show Wrote _ _ (endNode _ ((newNode _ _ json).run members.calls))
    rw [heq]
    exact h
  | array items =>
    obtain ⟨parts, -, heq⟩ := newNode_wrote json .array (ascii "[")
    obtain ⟨n, hbody⟩ := Items.run_calls items json.newArray { nodeType := .array }
      (countTop 1 json.stack) (by rw [newArray, heq]) (by rw [newArray, heq])
    have h := node_wrote (ascii "]") hbody
    rw [newArray, heq] at h
    rw [Tree.calls, run_cons, run_append, Tree.text]
    show Wrote _ _ (endNode _ ((newNode _ _ json).run items.calls))
    rw [heq]
    exact h

theorem Member.run_calls (member : Member) (key : List UInt8) (json : JsonWriter) :
    Wrote { json with stack := countTop member.items json.stack, pending := false }
      (keyLead json ++ keyText json.prettyprint key ++
        member.text json.prettyprint json.tabLevel) (json.run (member.calls key)) := by
  cases member with
  | string value => exact addString_wrote json key value
  | number value => exact addNumber_wrote json key value
  | null => exact addNull_wrote json key
  | tree value =>
    obtain ⟨parts, hparts, heq⟩ := addKey_wrote json key
    have h := Tree.run_calls value (json.addKey key)
    have hlead : nodeLead (json.addKey key) = [] := by
      rw [heq]
      rfl
    rw [hlead, List.nil_append] at h
    rw [Member.calls, run_cons, Member.text, ← hparts]
    show Wrote _ _ ((json.addKey key).run value.calls)
    rw [heq] at h ⊢
    obtain ⟨parts', hparts', heq'⟩ := h
    refine ⟨parts ++ parts', ?_, ?_⟩
    · rw [← hparts']
      exact List.flatten_append
    · rw [heq']
      simp [Member.items, countTop_countTop]

/-- The calls of members append their text, after those that are there. -/
theorem Members.run_calls (members : Members) (json : JsonWriter) (node : JsonNode)
    (stack : List JsonNode) (hstack : json.stack = node :: stack)
    (hpending : json.pending = false) :
    ∃ n, Wrote { json with stack := { node with numItems := n } :: stack }
      (members.text json.prettyprint json.tabLevel (decide (node.numItems = 0)))
      (json.run members.calls) := by
  cases members with
  | nil =>
    refine ⟨node.numItems, ?_⟩
    rw [Members.text, ← hstack]
    exact .refl json
  | cons key value rest =>
    obtain ⟨parts, hparts, heq⟩ := Member.run_calls value key json
    have hstack' : (json.run (value.calls key)).stack =
        { node with numItems := node.numItems + value.items } :: stack := by
      rw [heq, hstack]
      rfl
    obtain ⟨n, parts', hparts', heq'⟩ :=
      Members.run_calls rest (json.run (value.calls key)) _ stack hstack' (by rw [heq])
    have hitems : 0 < value.items := by
      unfold Member.items
      split <;> omega
    have hfirst : decide (node.numItems + value.items = 0) = false := by
      rw [decide_eq_false_iff_not]
      omega
    refine ⟨n, parts ++ parts', ?_, ?_⟩
    · rw [heq] at hparts'
      simp only [hfirst] at hparts'
      rw [keyLead_cons hstack hpending] at hparts
      simp only [StringBuf.toChar, List.flatten_append] at hparts hparts' ⊢
      rw [hparts, hparts', Members.text]
    · rw [Members.calls, run_append, heq', heq]
      simp [hpending]

/-- The calls of items append their text, after those that are there. -/
theorem Items.run_calls (items : Items) (json : JsonWriter) (node : JsonNode)
    (stack : List JsonNode) (hstack : json.stack = node :: stack)
    (hpending : json.pending = false) :
    ∃ n, Wrote { json with stack := { node with numItems := n } :: stack }
      (items.text json.prettyprint json.tabLevel (decide (node.numItems = 0)))
      (json.run items.calls) := by
  cases items with
  | nil =>
    refine ⟨node.numItems, ?_⟩
    rw [Items.text, ← hstack]
    exact .refl json
  | cons item rest =>
    obtain ⟨parts, hparts, heq⟩ := Tree.run_calls item json
    have hstack' : (json.run item.calls).stack =
        { node with numItems := node.numItems + 1 } :: stack := by
      rw [heq, hstack]
      rfl
    obtain ⟨n, parts', hparts', heq'⟩ :=
      Items.run_calls rest (json.run item.calls) _ stack hstack' (by rw [heq])
    refine ⟨n, parts ++ parts', ?_, ?_⟩
    · rw [heq] at hparts'
      rw [nodeLead_cons hstack hpending] at hparts
      simp only [StringBuf.toChar, List.flatten_append] at hparts hparts' ⊢
      rw [hparts, hparts', Items.text]
      rfl
    · rw [Items.calls, run_append, heq', heq]
      simp [hpending]

end

/-- The text of a tree that is written on its own. -/
theorem toString_run_new (tree : Tree) (prettyprint : Bool) :
    ((JsonWriter.new prettyprint).run tree.calls).toString = tree.text prettyprint 0 := by
  obtain ⟨parts, hparts, heq⟩ := Tree.run_calls tree (.new prettyprint)
  have hlead : nodeLead (.new prettyprint) = [] := by
    cases prettyprint <;> rfl
  rw [hlead, List.nil_append] at hparts
  rw [heq]
  exact hparts

end DbRelay
