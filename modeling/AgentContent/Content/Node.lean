import AgentContent.Content.Equality

/-!
# AgentContent.Content.Node

Content that is edited in place and remembers digests. A value with slots, an aggregate or a list
keeps its digest once it is read, until an edit of it or of a part reached through it.

* `Node.ofContent`, `Node.content`: a tree that remembers nothing, and the content of a tree.
* `Node.read`: the digest, and the tree that remembers it.
* `Edit`, `Node.apply`: the edits, at the node itself or at a part of it.
-/

namespace AgentContent

inductive Node where
  | primitive (value : Primitive)
  | slotted (memo : Option UInt64) (role : Role) (type : String) (slots : List (String × Node))
  | aggregate (memo : Option UInt64) (type : String) (elements : List Node)
    (template : Option Node)
  | variable (slots : List (String × Node)) (isMeta : Bool)
  | ire (type : String) (referent proposition : Node)
  | list (memo : Option UInt64) (elements : List Node)

namespace Node

mutual
/-- A tree that remembers nothing. -/
def ofContent : Content → Node
  | .primitive p => .primitive p
  | .slotted role type slots => .slotted none role type (ofSlots slots)
  | .aggregate type elements none => .aggregate none type (ofAll elements) none
  | .aggregate type elements (some t) => .aggregate none type (ofAll elements) (some (ofContent t))
  | .variable slots isMeta => .variable (ofSlots slots) isMeta
  | .ire type referent proposition => .ire type (ofContent referent) (ofContent proposition)
  | .list elements => .list none (ofAll elements)

def ofAll : List Content → List Node
  | [] => []
  | c :: rest => ofContent c :: ofAll rest

def ofSlots : List (String × Content) → List (String × Node)
  | [] => []
  | (k, c) :: rest => (k, ofContent c) :: ofSlots rest
end

mutual
/-- The content of a tree. -/
def content : Node → Content
  | .primitive p => .primitive p
  | .slotted _ role type slots => .slotted role type (contentSlots slots)
  | .aggregate _ type elements none => .aggregate type (contentAll elements) none
  | .aggregate _ type elements (some t) => .aggregate type (contentAll elements) (some t.content)
  | .variable slots isMeta => .variable (contentSlots slots) isMeta
  | .ire type referent proposition => .ire type referent.content proposition.content
  | .list _ elements => .list (contentAll elements)

def contentAll : List Node → List Content
  | [] => []
  | n :: rest => n.content :: contentAll rest

def contentSlots : List (String × Node) → List (String × Content)
  | [] => []
  | (k, n) :: rest => (k, n.content) :: contentSlots rest
end

mutual
/-- The digest and the tree that remembers it. What is remembered is not computed again. -/
def read (h : HashFunction) : Node → UInt64 × Node
  | .primitive p => (h (Content.Kind.primitive.feed :: p.feeds), .primitive p)
  | .slotted (some d) role type slots => (d, .slotted (some d) role type slots)
  | .slotted none role type slots =>
    let (digests, slots) := readSlots h slots
    let d := h (Content.slottedFeeds role type digests)
    (d, .slotted (some d) role type slots)
  | .aggregate (some d) type elements template => (d, .aggregate (some d) type elements template)
  | .aggregate none type elements template =>
    let (digests, elements) := readAll h elements
    let d := h (Content.aggregateFeeds type digests)
    (d, .aggregate (some d) type elements template)
  | .variable slots isMeta =>
    let (digests, slots) := readSlots h slots
    (h (Content.variableFeeds isMeta digests), .variable slots isMeta)
  | .ire type referent proposition =>
    let (r, referent) := read h referent
    let (p, proposition) := read h proposition
    (h (Content.ireFeeds type r p), .ire type referent proposition)
  | .list (some d) elements => (d, .list (some d) elements)
  | .list none elements =>
    let (digests, elements) := readAll h elements
    let d := h (Content.listFeeds digests)
    (d, .list (some d) elements)

def readAll (h : HashFunction) : List Node → List UInt64 × List Node
  | [] => ([], [])
  | n :: rest =>
    let (d, n) := read h n
    let (ds, rest) := readAll h rest
    (d :: ds, n :: rest)

def readSlots (h : HashFunction) : List (String × Node) → List (String × UInt64) × List (String × Node)
  | [] => ([], [])
  | (k, n) :: rest =>
    let (d, n) := read h n
    let (ds, rest) := readSlots h rest
    ((k, d) :: ds, (k, n) :: rest)
end

end Node

/-- Edits of a node. The last four lead to a part of it. -/
inductive Edit where
  | set (name : String) (value : Content)
  | setOption (name : String) (value : Option Content)
  | remove (name : String)
  | overwrite (name : String) (value : Content)
  | retain (keep : String → Bool)
  | fill (value : Content)
  | setType (type : String)
  | add (value : Content)
  | removeAt (index : Nat)
  | clear
  | setTemplate (template : Option Content)
  | setName (name : String)
  | setValueType (type : Option String)
  | setReferent (value : Content)
  | setProposition (value : Content)
  | inSlot (name : String) (edit : Edit)
  | inElement (index : Nat) (edit : Edit)
  | inReferent (edit : Edit)
  | inProposition (edit : Edit)

/-- What an edit answers: nothing, the content it took away or found nothing for, or a truth
value. -/
inductive Answer where
  | done
  | taken (value : Option Content)
  | truth (value : Bool)

namespace Node

def ofString (s : String) : Node :=
  .primitive (.string s)

/-- The edited node, or nothing when its kind lacks the operation. -/
def apply : Edit → Node → Option (Answer × Node)
  | .set name value, .slotted _ role type slots =>
    some (.taken ((Slots.get? name slots).map content),
      .slotted none role type (Slots.insert name (ofContent value) slots))
  | .setOption name (some value), .slotted _ role type slots =>
    some (.done, .slotted none role type (Slots.insert name (ofContent value) slots))
  | .setOption name none, .slotted memo role type slots =>
    some (.done,
      .slotted (if Slots.contains name slots then none else memo) role type (Slots.remove name slots))
  | .remove name, .slotted memo role type slots =>
    some (.taken ((Slots.get? name slots).map content),
      .slotted (if Slots.contains name slots then none else memo) role type (Slots.remove name slots))
  | .overwrite name value, .slotted _ role type slots =>
    some (.truth (Slots.contains name slots),
      .slotted none role type (Slots.replace name (ofContent value) slots))
  | .retain keep, .slotted _ role type slots =>
    some (.done, .slotted none role type (Slots.retain (fun name _ => keep name) slots))
  | .fill value, .slotted _ role type slots =>
    some (.done, .slotted none role type (slots.map fun e => (e.1, ofContent value)))
  | .setType type, .slotted _ role _ slots => some (.done, .slotted none role type slots)
  | .setType type, .aggregate _ _ elements template =>
    some (.done, .aggregate none type elements template)
  | .setType type, .ire _ referent proposition => some (.done, .ire type referent proposition)
  | .setType _, n => some (.done, n)
  | .add value, .aggregate _ type elements template =>
    some (.done, .aggregate none type (elements ++ [ofContent value]) template)
  | .add value, .list _ elements => some (.done, .list none (elements ++ [ofContent value]))
  | .removeAt i, .aggregate memo type elements template =>
    match elements[i]? with
    | none => some (.taken none, .aggregate memo type elements template)
    | some e => some (.taken (some e.content), .aggregate none type (elements.eraseIdx i) template)
  | .clear, .aggregate _ type _ template => some (.truth true, .aggregate none type [] template)
  | .clear, .list _ _ => some (.truth true, .list none [])
  | .setTemplate template, .aggregate memo type elements _ =>
    some (.taken template, .aggregate memo type elements (template.map ofContent))
  | .setName name, .variable slots isMeta =>
    some (.done, .variable (Slots.insert Content.nameSlot (ofString name) slots) isMeta)
  | .setValueType (some type), .variable slots isMeta =>
    some (.done, .variable (Slots.insert Content.valueTypeSlot (ofString type) slots) isMeta)
  | .setValueType none, .variable slots isMeta =>
    some (.done, .variable (Slots.remove Content.valueTypeSlot slots) isMeta)
  | .setReferent value, .ire type _ proposition =>
    some (.done, .ire type (ofContent value) proposition)
  | .setProposition value, .ire type referent _ =>
    some (.done, .ire type referent (ofContent value))
  | .inSlot name edit, .slotted _ role type slots =>
    match Slots.get? name slots with
    | none => none
    | some n =>
      match apply edit n with
      | none => none
      | some (a, n) => some (a, .slotted none role type (Slots.insert name n slots))
  | .inElement i edit, .aggregate _ type elements template =>
    match elements[i]? with
    | none => none
    | some n =>
      match apply edit n with
      | none => none
      | some (a, n) => some (a, .aggregate none type (elements.set i n) template)
  | .inElement i edit, .list _ elements =>
    match elements[i]? with
    | none => none
    | some n =>
      match apply edit n with
      | none => none
      | some (a, n) => some (a, .list none (elements.set i n))
  | .inReferent edit, .ire type referent proposition =>
    match apply edit referent with
    | none => none
    | some (a, n) => some (a, .ire type n proposition)
  | .inProposition edit, .ire type referent proposition =>
    match apply edit proposition with
    | none => none
    | some (a, n) => some (a, .ire type referent n)
  | _, _ => none

/-- The state of a node before and after an edit. -/
structure Change where
  answer : Option Answer
  after : Node
  digestChanged : Bool
  valueChanged : Bool

/-- Applies an edit between two reads of the digest. -/
def step (h : HashFunction) (edit : Node → Option (Answer × Node)) (n : Node) : Change :=
  let (before, n) := n.read h
  let (answer, edited) :=
    match edit n with
    | none => (none, n)
    | some (a, m) => (some a, m)
  let (after, m) := edited.read h
  ⟨answer, m, before != after, !n.content.same m.content⟩

end Node

end AgentContent
