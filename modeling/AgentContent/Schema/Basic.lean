import AgentContent.Content.Display
import AgentContent.Schema.Kind
import AgentContent.Text.Pattern

/-!
# AgentContent.Schema.Basic

Schemas: the description of a type by its kind, its slots, the types it extends, and facets of its
slots. Slot types and super types are names, resolved in the ontology that uses the schema.

* `Facet`: what a schema asks of the value of a slot besides its type. `Rule`: a check of an
  application's own.
* `Schema.addSlot`: a slot of a name that is declared already is declared anew in its place.
* `Schema.addAggregate`: a slot of an aggregate with the type and number of its elements.
-/

namespace AgentContent

/-- A check of an application's own. It may ask which type names an ontology knows, and answers
with what is wrong. -/
structure Rule where
  name : String
  check : (String → Bool) → Content → Option String

namespace Rule

/-- Integers above zero. -/
def positive : Rule where
  name := "positive"
  check _ c :=
    match c with
    | .primitive (.integer n) => if 0 < n then none else some (c.display ++ " is not positive")
    | c => some (c.display ++ " is not positive")

/-- Values of a type that the ontology knows. -/
def known : Rule where
  name := "known"
  check knows c := if knows c.typeName then none else some (c.typeName ++ " is unknown")

end Rule

inductive Facet where
  | cardinality (least : Nat) (most : Option Nat)
  | elementType (type : String)
  | permitted (values : List Primitive)
  | pattern (pattern : Pattern)
  | custom (rule : Rule)

structure SlotDescriptor where
  name : String
  type : String
  optional : Bool
  deriving DecidableEq

/-- `supers` are the types that the schema extends. `pending` are the aggregate types that have to
be known once the schema is. -/
structure Schema where
  name : String
  kind : SchemaKind
  slots : List SlotDescriptor := []
  supers : List String := []
  facets : List (String × Facet) := []
  pending : List String := []
  isAbstract : Bool := false

namespace Schema

/-- The root schema of a kind. Only variables and content element lists are of a root type. -/
def root (kind : SchemaKind) : Schema where
  name := kind.rootName
  kind := kind
  isAbstract := kind != .variable && kind != .contentElementList

/-- The schema is named after its kind. -/
def isRoot (s : Schema) : Bool :=
  s.name = s.kind.rootName

def ownSlot? (s : Schema) (name : String) : Option SlotDescriptor :=
  s.slots.find? fun d => sameName d.name name

def putSlot (d : SlotDescriptor) : List SlotDescriptor → List SlotDescriptor
  | [] => [d]
  | e :: rest => if sameName e.name d.name then d :: rest else e :: putSlot d rest

def addSlot (s : Schema) (name type : String) (optional : Bool) : Schema :=
  { s with slots := putSlot ⟨name, type, optional⟩ s.slots }

def addMandatory (s : Schema) (name type : String) : Schema :=
  s.addSlot name type false

def addOptional (s : Schema) (name type : String) : Schema :=
  s.addSlot name type true

def addFacet (s : Schema) (slot : String) (facet : Facet) : Schema :=
  { s with facets := s.facets ++ [(slot, facet)] }

/-- A slot of an aggregate, optional when it may be empty. -/
def addAggregate (s : Schema) (name elements : String) (least : Nat) (most : Option Nat)
    (type : String) : Schema :=
  let s := s.addSlot name type (least = 0)
  let s :=
    if s.pending.any (sameName · type) then s else { s with pending := s.pending ++ [type] }
  (s.addFacet name (.elementType elements)).addFacet name (.cardinality least most)

def addSuper (s : Schema) (type : String) : Schema :=
  if s.supers.any (sameName · type) then s else { s with supers := s.supers ++ [type] }

/-- Facets that the schema itself attaches to a slot. -/
def ownFacets (s : Schema) (slot : String) : List Facet :=
  (s.facets.filter fun f => sameName f.1 slot).map (·.2)

def display (s : Schema) : String :=
  s.name ++ " (" ++ s.kind.rootName ++ ")"

/-- Schemas are equal when kind and name are. -/
def same (s t : Schema) : Bool :=
  s.kind = t.kind && sameName s.name t.name

end Schema

end AgentContent
