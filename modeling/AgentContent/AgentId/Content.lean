import AgentContent.AgentId.Basic
import AgentContent.Vocabulary.Basic

/-!
# AgentContent.AgentId.Content

Lists of values and agent identifiers as content and back, without an ontology.

* `Content.ofList`, `Content.primitivesOf`: lists of values as aggregates, and the primitives of one.
* `AgentId.toContent`: a concept; addresses and resolvers only when there are some.
* `AgentId.ofSlots`: reads one from the slots of a concept.
-/

namespace AgentContent

namespace Content

def ofList (type : String) (items : List Content) : Content :=
  .aggregate type items none

/-- The primitives of an aggregate of a type that has nothing else. -/
def primitivesOf (type : String) : List Content → Except OntologyError (List Primitive)
  | [] => .ok []
  | c :: rest =>
    match c.primitive? with
    | none => .error (.invalid type c .elementNotPrimitive)
    | some p =>
      match primitivesOf type rest with
      | .error e => .error e
      | .ok ps => .ok (p :: ps)

end Content

open Vocabulary

namespace AgentId

/-- The slot of addresses, if there are some. -/
def addressSlots (addresses : List String) : List (String × Content) :=
  if addresses.isEmpty then []
  else [(addressesSlot, .aggregate TypeName.sequence (addresses.map Content.ofString) none)]

/-- The slot of resolvers, if there are some. -/
def resolverSlots (resolvers : List Content) : List (String × Content) :=
  if resolvers.isEmpty then [] else [(resolversSlot, .aggregate TypeName.sequence resolvers none)]

mutual
def toContent : AgentId → Content
  | mk name addresses resolvers =>
    .slotted .concept agentIdentifier
      ((nameSlot, Content.ofString name) ::
        (addressSlots addresses ++ resolverSlots (allToContent resolvers)))

def allToContent : List AgentId → List Content
  | [] => []
  | a :: rest => a.toContent :: allToContent rest
end

/-- The strings of a list of addresses. -/
def addressesOf (whole : Content) : List Content → Except OntologyError (List String)
  | [] => .ok []
  | c :: rest =>
    match c.string? with
    | none => .error (.invalid agentIdentifier whole (.addressNotString c))
    | some s =>
      match addressesOf whole rest with
      | .error e => .error e
      | .ok as => .ok (s :: as)

/-- The addresses in a slot, none when it is empty. -/
def addressesIn (whole : Content) (slots : Slots Content) : Except OntologyError (List String) :=
  match Slots.get? addressesSlot slots with
  | none => .ok []
  | some c =>
    match c.aggregate? with
    | none => .error (.invalid agentIdentifier whole .addressesNotAggregate)
    | some elements => addressesOf whole elements

mutual
/-- The identifier that the slots of a concept of a type give. -/
def ofSlots (type : String) (slots : List (String × Content)) : Except OntologyError AgentId :=
  match (Slots.get? nameSlot slots).bind Content.string? with
  | none => .error (.missingMandatorySlot agentIdentifier nameSlot)
  | some name =>
    match addressesIn (.slotted .concept type slots) slots with
    | .error e => .error e
    | .ok addresses =>
      match _h : Slots.get? resolversSlot slots with
      | none => .ok (mk name addresses [])
      | some (.aggregate _ elements _) =>
        match ofElements (.slotted .concept type slots) elements with
        | .error e => .error e
        | .ok resolvers => .ok (mk name addresses resolvers)
      | some _ =>
        .error (.invalid agentIdentifier (.slotted .concept type slots) .resolversNotAggregate)
termination_by sizeOf slots
decreasing_by have := Slots.sizeOf_lt_of_get? _h; simp at this; omega

/-- The identifiers of a list of concepts. -/
def ofElements (whole : Content) (elements : List Content) : Except OntologyError (List AgentId) :=
  match elements with
  | [] => .ok []
  | .slotted .concept type slots :: rest =>
    match ofSlots type slots with
    | .error e => .error e
    | .ok a =>
      match ofElements whole rest with
      | .error e => .error e
      | .ok as => .ok (a :: as)
  | c :: _ => .error (.invalid agentIdentifier whole (.resolverNotConcept c))
termination_by sizeOf elements
end

end AgentId

end AgentContent
