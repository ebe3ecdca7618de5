import DbRelay.Json.Tree
import DbRelay.Lib.StepSystem

/-!
# Raw values

A member with a raw value is written by `json_add_number`, or by `json_add_key` and
`json_add_value`.  The two leave the same text, but not the same writer.

What a call appends depends on little of the writer, its `Outline`: which nodes are open, and
whether they have an item at all.  `toString_writeAll` says so for any sequence of calls, and the
two ways to write a member leave outlines that differ in `pending` only.

* `Position` is where a document is, and its steps are the calls that are legal there.
* `withValue_eq_iff`: the texts stay equal as long as only brackets are closed.
-/

namespace DbRelay

open JsonWriter

/-! ## Calls -/

/-- A call of the writer, with those that take raw text. -/
inductive WriterCall
  | call (call : JsonCall)
  | addValue (value : List UInt8)
  | addJson (value : List UInt8)
  | addCallback (value : List UInt8)
  | endCallback
  deriving DecidableEq, Repr

/-- The state after a call. -/
def JsonWriter.write (json : JsonWriter) : WriterCall → JsonWriter
  | .call call => json.call call
  | .addValue value => json.addValue value
  | .addJson value => json.addJson value
  | .addCallback value => json.addCallback value
  | .endCallback => json.endCallback

def JsonWriter.writeAll (json : JsonWriter) (calls : List WriterCall) : JsonWriter :=
  calls.foldl JsonWriter.write json

/-! ## Outlines -/

/-- What a call looks at.  A node is marked if it has an item. -/
structure Outline where
  nodes : List (NodeType × Bool)
  pending : Bool
  tabLevel : Int
  prettyprint : Bool

def outlineNode (node : JsonNode) : NodeType × Bool := (node.nodeType, decide (node.numItems ≠ 0))

def JsonWriter.outline (json : JsonWriter) : Outline where
  nodes := json.stack.map outlineNode
  pending := json.pending
  tabLevel := json.tabLevel
  prettyprint := json.prettyprint

namespace Outline

variable (o : Outline)

def hasItems : Bool := o.nodes.head?.any Prod.snd

def nodeLead : List UInt8 :=
  if o.pending then []
  else (if o.hasItems then ascii "," ++ pretty o.prettyprint (ascii "\n") else []) ++
    tabs o.prettyprint o.tabLevel

def keyLead : List UInt8 :=
  if o.nodes.isEmpty then []
  else if o.hasItems then
    if o.pending then [] else ascii ", "
  else tabs o.prettyprint o.tabLevel

def valueLead : List UInt8 := if o.hasItems && !o.pending then ascii "," else []

def opening (bracket : List UInt8) : List UInt8 :=
  o.nodeLead ++ bracket ++ pretty o.prettyprint (ascii "\n")

def closing (bracket : List UInt8) : List UInt8 :=
  pretty o.prettyprint (ascii "\n") ++ tabs o.prettyprint (o.tabLevel - 1) ++ bracket

def member (key value : List UInt8) : List UInt8 :=
  o.keyLead ++ keyText o.prettyprint key ++ value

/-- What a call appends. -/
def written : WriterCall → List UInt8
  | .call .newObject => o.opening (ascii "\x7b")
  | .call .newArray => o.opening (ascii "[")
  | .call .endObject => o.closing (ascii "\x7d")
  | .call .endArray => o.closing (ascii "]")
  | .call (.addKey key) => o.member key []
  | .call (.addNumber key value) => o.member key value
  | .call (.addNull key) => o.member key (ascii "null")
  | .call (.addString key value) => o.member key (ascii "\"" ++ escaped value ++ ascii "\"")
  | .addValue value => o.valueLead ++ value
  | .addJson value => value
  | .addCallback value => value ++ ascii "("
  | .endCallback => ascii ");"

/-- The innermost node has an item. -/
def mark : List (NodeType × Bool) → List (NodeType × Bool)
  | [] => []
  | (nodeType, _) :: nodes => (nodeType, true) :: nodes

def opened (nodeType : NodeType) : Outline :=
  { o with
    nodes := (nodeType, false) :: mark o.nodes
    pending := false
    tabLevel := o.tabLevel + 1 }

def closed : Outline := { o with nodes := o.nodes.tail, tabLevel := o.tabLevel - 1 }

/-- The outline after a call. -/
def after : WriterCall → Outline
  | .call .newObject => o.opened .object
  | .call .newArray => o.opened .array
  | .call .endObject => o.closed
  | .call .endArray => o.closed
  | .call (.addKey _) => { o with nodes := mark o.nodes, pending := true }
  | .call (.addNumber _ _) => { o with nodes := mark o.nodes, pending := false }
  | .call (.addNull _) => { o with nodes := mark o.nodes, pending := false }
  | .call (.addString _ _) => { o with nodes := mark o.nodes, pending := false }
  | .addValue _ => { o with nodes := mark o.nodes }
  | _ => o

/-- What some calls append. -/
def text (o : Outline) : List WriterCall → List UInt8
  | [] => []
  | call :: calls => o.written call ++ (o.after call).text calls

end Outline

/-! ## The writer follows its outline -/

theorem outline_hasItems (json : JsonWriter) : json.outline.hasItems = json.hasItems := by
  unfold Outline.hasItems JsonWriter.hasItems outline
  cases json.stack <;> rfl

theorem outline_countTop (stack : List JsonNode) :
    (countTop 1 stack).map outlineNode = Outline.mark (stack.map outlineNode) := by
  cases stack <;> rfl

theorem outline_nodeLead (json : JsonWriter) : json.outline.nodeLead = nodeLead json := by
  rw [Outline.nodeLead, outline_hasItems]
  rfl

theorem outline_keyLead (json : JsonWriter) : json.outline.keyLead = keyLead json := by
  rw [Outline.keyLead, outline_hasItems]
  show (if (json.stack.map outlineNode).isEmpty then _ else _) = _
  rw [List.isEmpty_map]
  rfl

theorem addValue_wrote (json : JsonWriter) (value : List UInt8) :
    Wrote { json with stack := countTop 1 json.stack } (json.outline.valueLead ++ value)
      (json.addValue value) := by
  have hlead : Wrote json json.outline.valueLead
      (if json.hasItems && !json.pending then json.append (ascii ",") else json) := by
    rw [Outline.valueLead, outline_hasItems]
    show Wrote json (if json.hasItems && !json.pending then _ else _) _
    split
    · exact (Wrote.refl json).append _
    · exact .refl json
  have h := hlead.append value
  rw [addValue, countItem_eq, (h.unchanged).1]
  exact h.setStack _

/-- The text and the outline after a call that appends to a state. -/
theorem Wrote.follows {json json'' : JsonWriter} {s : List UInt8} (h : Wrote json s json'')
    (json' : JsonWriter) (htext : json.toString = json'.toString) :
    json''.toString = json'.toString ++ s ∧ json''.outline = json.outline := by
  rw [h.toString_eq, htext]
  obtain ⟨hstack, hpending, htab, hpp, -⟩ := h.unchanged
  refine ⟨rfl, ?_⟩
  rw [outline, outline, hstack, hpending, htab, hpp]

theorem newNode_follows (json : JsonWriter) (nodeType : NodeType) (bracket : List UInt8) :
    (newNode nodeType bracket json).toString = json.toString ++ json.outline.opening bracket ∧
      (newNode nodeType bracket json).outline = json.outline.opened nodeType := by
  have h := (newNode_wrote json nodeType bracket).follows json rfl
  rw [Outline.opening, outline_nodeLead, Outline.opened]
  refine ⟨h.1, h.2.trans ?_⟩
  show Outline.mk (outlineNode _ :: (countTop 1 json.stack).map outlineNode) _ _ _ = _
  rw [outline_countTop]
  rfl

theorem endNode_follows (json : JsonWriter) (bracket : List UInt8) :
    (endNode bracket json).toString = json.toString ++ json.outline.closing bracket ∧
      (endNode bracket json).outline = json.outline.closed := by
  have h := (endNode_wrote json bracket).follows json rfl
  refine ⟨h.1, h.2.trans ?_⟩
  show Outline.mk (json.stack.tail.map outlineNode) _ _ _ = _
  rw [List.map_tail]
  rfl

/-- A call that writes a key. -/
theorem member_follows {json json' : JsonWriter} {key value : List UInt8} {pending : Bool}
    (h : Wrote { json with stack := countTop 1 json.stack, pending := pending }
      (keyLead json ++ keyText json.prettyprint key ++ value) json') :
    json'.toString = json.toString ++ json.outline.member key value ∧
      json'.outline =
        { json.outline with nodes := Outline.mark json.outline.nodes, pending := pending } := by
  have h' := h.follows json rfl
  rw [Outline.member, outline_keyLead]
  refine ⟨h'.1, h'.2.trans ?_⟩
  show Outline.mk ((countTop 1 json.stack).map outlineNode) _ _ _ = _
  rw [outline_countTop]
  rfl

theorem write_follows (json : JsonWriter) (call : WriterCall) :
    (json.write call).toString = json.toString ++ json.outline.written call ∧
      (json.write call).outline = json.outline.after call := by
  cases call with
  | call call =>
    cases call with
    | newObject => exact newNode_follows json .object _
    | newArray => exact newNode_follows json .array _
    | endObject => exact endNode_follows json _
    | endArray => exact endNode_follows json _
    | addKey key =>
      have h := addKey_wrote json key
      rw [← List.append_nil (keyLead json ++ _)] at h
      exact member_follows h
    | addNumber key value => exact member_follows (addNumber_wrote json key value)
    | addNull key => exact member_follows (addNull_wrote json key)
    | addString key value => exact member_follows (addString_wrote json key value)
  | addValue value =>
    have h := (addValue_wrote json value).follows json rfl
    refine ⟨h.1, h.2.trans ?_⟩
    show Outline.mk ((countTop 1 json.stack).map outlineNode) _ _ _ = _
    rw [outline_countTop]
    rfl
  | addJson value => exact ((Wrote.refl json).append value).follows json rfl
  | addCallback value =>
    exact (((Wrote.refl json).append value).append (ascii "(")).follows json rfl
  | endCallback => exact ((Wrote.refl json).append (ascii ");")).follows json rfl

/-- What calls append depends on the outline only. -/
theorem toString_writeAll (json : JsonWriter) (calls : List WriterCall) :
    (json.writeAll calls).toString = json.toString ++ json.outline.text calls := by
  induction calls generalizing json with
  | nil => exact (List.append_nil _).symm
  | cons call calls ih =>
    obtain ⟨htext, houtline⟩ := write_follows json call
    have hnext := ih (json.write call)
    rw [htext, houtline, List.append_assoc] at hnext
    exact hnext

theorem outline_writeAll (json : JsonWriter) (calls : List WriterCall) :
    (json.writeAll calls).outline = calls.foldl Outline.after json.outline := by
  induction calls generalizing json with
  | nil => rfl
  | cons call calls ih =>
    rw [List.foldl_cons, ← (write_follows json call).2]
    exact ih (json.write call)

/-! ## Legal calls -/

/-- Where a document is: which nodes are open, whether a key awaits its value, and whether the
outermost node was opened. -/
structure Position where
  nodes : List NodeType := []
  due : Bool := false
  begun : Bool := false
  deriving DecidableEq, Repr

namespace Position

variable (p : Position)

def inObject : Bool := decide (p.nodes.head? = some .object) && !p.due

def inArray : Bool := decide (p.nodes.head? = some .array)

/-- A node is the value of a key, an item of an array, or the document. -/
def opens (nodeType : NodeType) : Option Position :=
  if p.due || p.inArray || !p.begun then some ⟨nodeType :: p.nodes, false, true⟩ else none

def closes (nodeType : NodeType) : Option Position :=
  if decide (p.nodes.head? = some nodeType) && !p.due then some { p with nodes := p.nodes.tail }
  else none

/-- The position after a call that is legal. -/
def next (p : Position) : WriterCall → Option Position
  | .call .newObject => p.opens .object
  | .call .newArray => p.opens .array
  | .call .endObject => p.closes .object
  | .call .endArray => p.closes .array
  | .call (.addKey _) => if p.inObject then some { p with due := true } else none
  | .call (.addNumber _ _) => if p.inObject then some p else none
  | .call (.addNull _) => if p.inObject then some p else none
  | .call (.addString _ _) => if p.inObject then some p else none
  | .addValue _ => if p.due || p.inArray then some { p with due := false } else none
  | .addJson _ => some p
  | .addCallback _ => if p.begun then none else some p
  | .endCallback => if p.begun && p.nodes.isEmpty then some p else none

end Position

/-- The outline of a writer at a position: each node around the innermost one has an item. -/
structure Outline.At (o : Outline) (p : Position) : Prop where
  nodes : o.nodes.map Prod.fst = p.nodes
  marked : ∀ node ∈ o.nodes.tail, node.2 = true
  begun : p.nodes ≠ [] → p.begun = true

theorem map_mark (nodes : List (NodeType × Bool)) :
    (Outline.mark nodes).map Prod.fst = nodes.map Prod.fst := by
  cases nodes <;> rfl

theorem marked_mark {nodes : List (NodeType × Bool)} (h : ∀ node ∈ nodes.tail, node.2 = true) :
    ∀ node ∈ Outline.mark nodes, node.2 = true := by
  cases nodes with
  | nil => exact fun node hnode => absurd hnode List.not_mem_nil
  | cons first nodes =>
    intro node hnode
    rcases List.mem_cons.1 hnode with rfl | hnode
    · rfl
    · exact h node hnode

namespace Outline.At

variable {o : Outline} {p p' : Position}

theorem opened (h : o.At p) {nodeType : NodeType} (hopen : p.opens nodeType = some p') :
    (o.opened nodeType).At p' := by
  rw [Position.opens] at hopen
  split at hopen
  · obtain rfl := Option.some.inj hopen
    refine ⟨?_, marked_mark h.marked, fun _ => rfl⟩
    show nodeType :: (mark o.nodes).map Prod.fst = _
    rw [map_mark, h.nodes]
  · cases hopen

theorem closed (h : o.At p) {nodeType : NodeType} (hclose : p.closes nodeType = some p') :
    o.closed.At p' := by
  rw [Position.closes] at hclose
  split at hclose
  · obtain rfl := Option.some.inj hclose
    refine ⟨?_, fun node hnode => h.marked node (List.mem_of_mem_tail hnode), fun hne => ?_⟩
    · show o.nodes.tail.map Prod.fst = p.nodes.tail
      rw [List.map_tail, h.nodes]
    · exact h.begun fun hnil => hne (by rw [hnil]; rfl)
  · cases hclose

theorem marks (h : o.At p) (pending due : Bool) :
    Outline.At { o with nodes := mark o.nodes, pending := pending } { p with due := due } := by
  refine ⟨(map_mark o.nodes).trans h.nodes, fun node hnode => ?_, h.begun⟩
  exact marked_mark h.marked node (List.mem_of_mem_tail hnode)

/-- A legal call. -/
theorem after (h : o.At p) {call : WriterCall} (hnext : p.next call = some p') :
    (o.after call).At p' := by
  have hsome : ∀ {b : Bool} {q : Position}, (if b then some q else none) = some p' → q = p' := by
    intro b q heq
    split at heq
    · exact Option.some.inj heq
    · cases heq
  cases call with
  | call call =>
    cases call with
    | newObject => exact h.opened hnext
    | newArray => exact h.opened hnext
    | endObject => exact h.closed hnext
    | endArray => exact h.closed hnext
    | addKey key =>
      obtain rfl := hsome hnext
      exact h.marks true true
    | addNumber key value | addNull key | addString key value =>
      obtain rfl := hsome hnext
      exact h.marks false p.due
  | addValue value =>
    obtain rfl := hsome hnext
    exact h.marks o.pending false
  | addJson value =>
    obtain rfl := Option.some.inj hnext
    exact h
  | addCallback value =>
    rw [Position.next] at hnext
    split at hnext
    · cases hnext
    · obtain rfl := Option.some.inj hnext
      exact h
  | endCallback =>
    obtain rfl := hsome hnext
    exact h

/-- What legal calls lead to. -/
theorem run {calls : List WriterCall} (h : o.At p)
    (hrun : StepSystem.run Position.next p calls = some p') :
    (calls.foldl Outline.after o).At p' := by
  induction calls generalizing o p with
  | nil =>
    obtain rfl : p = p' := Option.some.inj hrun
    exact h
  | cons call calls ih =>
    obtain ⟨q, hq, hrest⟩ := Option.bind_eq_some_iff.1 hrun
    exact ih (h.after hq) hrest

end Outline.At

/-! ## A flag that was left -/

/-- A call that only closes brackets, or writes raw text outside of the nodes. -/
def WriterCall.quiet : WriterCall → Bool
  | .call .endObject => true
  | .call .endArray => true
  | .addJson _ => true
  | .addCallback _ => true
  | .endCallback => true
  | _ => false

namespace Outline

/-- The outline with `pending` left set. -/
def stale (o : Outline) : Outline := { o with pending := true }

theorem stale_quiet (o : Outline) {call : WriterCall} (h : call.quiet = true) :
    o.stale.written call = o.written call ∧ o.stale.after call = (o.after call).stale := by
  cases call with
  | call call =>
    cases call with
    | endObject | endArray => exact ⟨rfl, rfl⟩
    | _ => cases h
  | addValue value => cases h
  | _ => exact ⟨rfl, rfl⟩

/-- A quiet call leaves no node without an item. -/
theorem after_quiet (o : Outline) {call : WriterCall} (h : call.quiet = true) :
    (o.after call).pending = o.pending ∧ ∀ node ∈ (o.after call).nodes, node ∈ o.nodes := by
  cases call with
  | call call =>
    cases call with
    | endObject | endArray => exact ⟨rfl, fun node => List.mem_of_mem_tail⟩
    | _ => cases h
  | addValue value => cases h
  | _ => exact ⟨rfl, fun node => id⟩

/-- What stands before a call, with the flag and without it. -/
theorem stale_leads {o : Outline} (hpending : o.pending = false) (hitems : o.hasItems = true) :
    (o.stale.nodeLead = [] ∧ o.nodeLead ≠ []) ∧ (o.stale.keyLead = [] ∧ o.keyLead ≠ []) ∧
      (o.stale.valueLead = [] ∧ o.valueLead ≠ []) := by
  have hstale : o.stale.hasItems = true := hitems
  have hnodes : o.nodes.isEmpty = false := by
    cases h : o.nodes with
    | nil =>
      rw [hasItems, h] at hitems
      cases hitems
    | cons node nodes => rfl
  have hnodes' : o.stale.nodes.isEmpty = false := hnodes
  have hpending' : o.stale.pending = true := rfl
  refine ⟨⟨?_, ?_⟩, ⟨?_, ?_⟩, ?_, ?_⟩
  · rw [nodeLead, hpending']
    rfl
  · rw [nodeLead, hpending, hitems]
    exact List.append_ne_nil_of_left_ne_nil (List.append_ne_nil_of_left_ne_nil (by decide) _) _
  · rw [keyLead, hnodes', hstale, hpending']
    rfl
  · rw [keyLead, hnodes, hitems, hpending]
    show ascii ", " ≠ []
    decide
  · rw [valueLead, hstale, hpending']
    rfl
  · rw [valueLead, hitems, hpending]
    show ascii "," ≠ []
    decide

/-- A separator is missing, and the flag is reset, or left again by a raw value. -/
theorem stale_loud {o : Outline} (hpending : o.pending = false) (hitems : o.hasItems = true)
    {call : WriterCall} (h : call.quiet = false) :
    (o.stale.written call).length < (o.written call).length ∧
      (o.stale.after call = o.after call ∨
        (∃ value, call = .addValue value) ∧ o.stale.after call = (o.after call).stale) := by
  obtain ⟨⟨hnode, hnode'⟩, ⟨hkey, hkey'⟩, hvalue, hvalue'⟩ := stale_leads hpending hitems
  have hopening : ∀ bracket, (o.stale.opening bracket).length < (o.opening bracket).length := by
    intro bracket
    have hpos := List.length_pos_iff.2 hnode'
    rw [opening, opening, hnode]
    simp only [List.length_append, List.length_nil]
    show _ + (pretty o.prettyprint _).length < _
    omega
  have hmember : ∀ key value, (o.stale.member key value).length < (o.member key value).length := by
    intro key value
    have hpos := List.length_pos_iff.2 hkey'
    rw [member, member, hkey]
    simp only [List.length_append, List.length_nil]
    show 0 + (keyText o.prettyprint _).length + _ < _
    omega
  cases call with
  | call call =>
    cases call with
    | newObject | newArray => exact ⟨hopening _, .inl rfl⟩
    | addKey key => exact ⟨hmember _ _, .inl rfl⟩
    | addNumber key value | addNull key | addString key value => exact ⟨hmember _ _, .inl rfl⟩
    | _ => cases h
  | addValue value =>
    refine ⟨?_, .inr ⟨⟨value, rfl⟩, rfl⟩⟩
    have hpos := List.length_pos_iff.2 hvalue'
    show (o.stale.valueLead ++ value).length < (o.valueLead ++ value).length
    rw [hvalue, List.length_append, List.length_append, List.length_nil]
    omega
  | _ => cases h

end Outline

/-- A call that writes more than brackets is legal only in a node. -/
theorem nodes_ne_nil_of_loud {p p' : Position} {call : WriterCall} (hbegun : p.begun = true)
    (hdue : p.due = false) (hnext : p.next call = some p') (h : call.quiet = false) :
    p.nodes ≠ [] := by
  rintro hnil
  have hobject : p.inObject = false := by simp [Position.inObject, hnil]
  have harray : p.inArray = false := by simp [Position.inArray, hnil]
  have hopens : ∀ nodeType, p.opens nodeType = none := by
    intro nodeType
    simp [Position.opens, hdue, harray, hbegun]
  cases call with
  | call call =>
    cases call with
    | newObject | newArray => simp [Position.next, hopens] at hnext
    | endObject | endArray => cases h
    | _ => simp [Position.next, hobject] at hnext
  | addValue value => simp [Position.next, hdue, harray] at hnext
  | _ => cases h

/-- After a call that keeps the flag, no key awaits its value either. -/
theorem due_of_next {p p' : Position} {call : WriterCall} (hbegun : p.begun = true)
    (hdue : p.due = false) (hnext : p.next call = some p')
    (h : call.quiet = true ∨ ∃ value, call = .addValue value) :
    p'.begun = true ∧ p'.due = false := by
  have hcloses : ∀ nodeType, p.closes nodeType = some p' → p'.begun = true ∧ p'.due = false := by
    intro nodeType hclose
    rw [Position.closes] at hclose
    split at hclose
    · obtain rfl := Option.some.inj hclose
      exact ⟨hbegun, hdue⟩
    · cases hclose
  rcases h with hquiet | ⟨value, rfl⟩
  · cases call with
    | call call =>
      cases call with
      | endObject | endArray => exact hcloses _ hnext
      | _ => cases hquiet
    | addValue value => cases hquiet
    | addJson value =>
      obtain rfl := Option.some.inj hnext
      exact ⟨hbegun, hdue⟩
    | addCallback value => simp [Position.next, hbegun] at hnext
    | endCallback =>
      rw [Position.next] at hnext
      split at hnext
      · obtain rfl := Option.some.inj hnext
        exact ⟨hbegun, hdue⟩
      · cases hnext
  · rw [Position.next] at hnext
    split at hnext
    · obtain rfl := Option.some.inj hnext
      exact ⟨hbegun, rfl⟩
    · cases hnext

/-- The texts of legal calls with the flag and without it. -/
theorem text_stale {o : Outline} {p p' : Position} {calls : List WriterCall} (hat : o.At p)
    (hmarked : ∀ node ∈ o.nodes, node.2 = true) (hpending : o.pending = false)
    (hbegun : p.begun = true) (hdue : p.due = false)
    (hrun : StepSystem.run Position.next p calls = some p') :
    (∀ call ∈ calls, call.quiet = true) ∧ o.stale.text calls = o.text calls ∨
      ¬ (∀ call ∈ calls, call.quiet = true) ∧
        (o.stale.text calls).length < (o.text calls).length := by
  induction calls generalizing o p with
  | nil => exact .inl ⟨by simp, rfl⟩
  | cons call calls ih =>
    obtain ⟨q, hq, hrest⟩ := Option.bind_eq_some_iff.1 hrun
    have hnext := hat.after hq
    show (_ ∧ o.stale.written call ++ _ = o.written call ++ _) ∨
      _ ∧ (o.stale.written call ++ _).length < (o.written call ++ _).length
    rw [List.length_append, List.length_append, List.forall_mem_cons]
    cases hquiet : call.quiet with
    | true =>
      obtain ⟨hwritten, hafter⟩ := o.stale_quiet hquiet
      obtain ⟨hpending', hnodes⟩ := o.after_quiet hquiet
      obtain ⟨hbegun', hdue'⟩ := due_of_next hbegun hdue hq (.inl hquiet)
      rw [hwritten, hafter, List.append_cancel_left_eq, Nat.add_lt_add_iff_left]
      rcases ih hnext (fun node hnode => hmarked node (hnodes node hnode))
        (hpending'.trans hpending) hbegun' hdue' hrest with ⟨hall, heq⟩ | ⟨hall, hlt⟩
      · exact .inl ⟨⟨rfl, hall⟩, heq⟩
      · exact .inr ⟨fun h => hall h.2, hlt⟩
    | false =>
      refine .inr ⟨fun h => Bool.noConfusion h.1, ?_⟩
      have hitems : o.hasItems = true := by
        have hne := nodes_ne_nil_of_loud hbegun hdue hq hquiet
        rw [← hat.nodes] at hne
        cases hnodes : o.nodes with
        | nil => exact absurd (by rw [hnodes]; rfl) hne
        | cons node nodes =>
          rw [Outline.hasItems, hnodes]
          exact hmarked node (by rw [hnodes]; exact List.mem_cons_self)
      obtain ⟨hlt, hafter⟩ := Outline.stale_loud hpending hitems hquiet
      rcases hafter with hafter | ⟨hvalue, hafter⟩
      · rw [hafter]
        omega
      · obtain ⟨hbegun', hdue'⟩ := due_of_next hbegun hdue hq (.inr hvalue)
        have hle : (o.stale.after call).text calls = (o.after call).text calls ∨
            ((o.stale.after call).text calls).length < ((o.after call).text calls).length := by
          obtain ⟨value, rfl⟩ := hvalue
          rw [hafter]
          rcases ih hnext (marked_mark hat.marked) hpending hbegun' hdue' hrest with
            ⟨-, heq⟩ | ⟨-, hlt⟩
          · exact .inl heq
          · exact .inr hlt
        rcases hle with heq | hlt'
        · rw [heq]
          omega
        · omega

/-! ## The two ways -/

/-- A writer at a place for a member, and legal calls after the member. -/
structure MemberSite where
  prettyprint : Bool
  before : List WriterCall
  position : Position
  reached : StepSystem.run Position.next {} before = some position
  inObject : position.inObject = true
  continuation : List WriterCall
  legal : (StepSystem.run Position.next position continuation).isSome = true

namespace MemberSite

variable (site : MemberSite)

/-- The writer before the member. -/
def json : JsonWriter := (JsonWriter.new site.prettyprint).writeAll site.before

/-- The text with the member as a key and a value. -/
def withValue (key value : List UInt8) : List UInt8 :=
  (((site.json.addKey key).addValue value).writeAll site.continuation).toString

/-- The text with the member as a number. -/
def withNumber (key value : List UInt8) : List UInt8 :=
  ((site.json.addNumber key value).writeAll site.continuation).toString

theorem at_json : site.json.outline.At site.position := by
  rw [json, outline_writeAll]
  refine Outline.At.run ⟨rfl, fun node hnode => absurd hnode List.not_mem_nil, ?_⟩ site.reached
  exact fun hne => absurd rfl hne

/-- The two writers have the same text and differ in the flag. -/
theorem addValue_follows (key value : List UInt8) :
    ((site.json.addKey key).addValue value).toString = (site.json.addNumber key value).toString ∧
      ((site.json.addKey key).addValue value).outline =
        (site.json.addNumber key value).outline.stale := by
  obtain ⟨hkey, hkey'⟩ := write_follows site.json (.call (.addKey key))
  obtain ⟨hvalue, hvalue'⟩ := write_follows (site.json.addKey key) (.addValue value)
  obtain ⟨hnumber, hnumber'⟩ := write_follows site.json (.call (.addNumber key value))
  have houtline : (site.json.addKey key).outline = site.json.outline.after (.call (.addKey key)) :=
    hkey'
  rw [houtline] at hvalue hvalue'
  constructor
  · have hlead : (site.json.outline.after (.call (.addKey key))).valueLead = [] := by
      rw [Outline.valueLead]
      show (if _ && !true then _ else _) = _
      rw [Bool.not_true, Bool.and_false]
      rfl
    refine hvalue.trans ((congrArg (· ++ _) hkey).trans (hnumber.trans ?_).symm)
    show _ ++ (site.json.outline.keyLead ++ _ ++ value) =
      _ ++ (site.json.outline.keyLead ++ _ ++ []) ++
        ((site.json.outline.after (.call (.addKey key))).valueLead ++ value)
    rw [hlead, List.append_nil, List.nil_append]
    simp only [List.append_assoc]
  · have hmark : Outline.mark (Outline.mark site.json.outline.nodes) =
        Outline.mark site.json.outline.nodes := by
      cases site.json.outline.nodes <;> rfl
    refine hvalue'.trans ((congrArg Outline.stale hnumber').trans ?_).symm
    show Outline.mk _ _ _ _ = Outline.mk (Outline.mark (Outline.mark _)) _ _ _
    rw [hmark]
    rfl

/-- `json_add_value` does not reset `pending`, so the next separator is missing. -/
theorem withValue_eq_iff (key value : List UInt8) :
    site.withValue key value = site.withNumber key value ↔
      ∀ call ∈ site.continuation, call.quiet = true := by
  obtain ⟨htext, houtline⟩ := site.addValue_follows key value
  have hinside := site.inObject
  simp only [Position.inObject, Bool.and_eq_true, decide_eq_true_eq, Bool.not_eq_true'] at hinside
  have hnext : site.position.next (.call (.addNumber key value)) = some site.position := by
    rw [Position.next, if_pos site.inObject]
  have hbegun : site.position.begun = true := by
    refine site.at_json.begun fun hnil => ?_
    rw [hnil] at hinside
    cases hinside.1
  have hnumber : (site.json.addNumber key value).outline =
      site.json.outline.after (.call (.addNumber key value)) :=
    (write_follows site.json (.call (.addNumber key value))).2
  have hat : (site.json.addNumber key value).outline.At site.position := by
    rw [hnumber]
    exact site.at_json.after hnext
  have hmarked : ∀ node ∈ (site.json.addNumber key value).outline.nodes, node.2 = true := by
    rw [hnumber]
    exact marked_mark site.at_json.marked
  obtain ⟨p', hp'⟩ := Option.isSome_iff_exists.1 site.legal
  rw [withValue, withNumber, toString_writeAll, toString_writeAll, htext, houtline,
    List.append_cancel_left_eq]
  rcases text_stale hat hmarked rfl hbegun hinside.2 hp' with ⟨hall, heq⟩ | ⟨hall, hlt⟩
  · exact iff_of_true heq hall
  · exact iff_of_false (fun heq => hlt.ne (congrArg List.length heq)) hall

/-- No key awaits its value after `json_add_value`, and the flag is set. -/
theorem pending_addValue (key value : List UInt8) :
    ((site.json.addKey key).addValue value).pending = true ∧
      (site.json.addNumber key value).pending = false := by
  obtain ⟨-, houtline⟩ := site.addValue_follows key value
  exact ⟨congrArg Outline.pending houtline, rfl⟩

end MemberSite

/-- Two members of an object. -/
def twoMembers : MemberSite where
  prettyprint := false
  before := [.call .newObject]
  position := ⟨[.object], false, true⟩
  reached := rfl
  inObject := rfl
  continuation := [.call (.addNumber (ascii "b") (ascii "2")), .call .endObject]
  legal := rfl

/-- The comma between the members is missing. -/
theorem withValue_ne_twoMembers : twoMembers.withValue (ascii "a") (ascii "1") ≠
    twoMembers.withNumber (ascii "a") (ascii "1") := by
  decide +kernel

example : twoMembers.withValue (ascii "a") (ascii "1") =
    ascii "\x7b\"a\":1\"b\":2\x7d" := by decide +kernel

end DbRelay
