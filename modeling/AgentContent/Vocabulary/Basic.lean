import AgentContent.Ontology.Basic

/-!
# AgentContent.Vocabulary.Basic

The ontologies that come with the library.

* `basic`: the ontology that every application extends, with the root schema of every kind, the
  primitive types, two aggregates, agent identifiers, actions with their results, equality, the
  constant propositions and the referential operators.
* `operators`: the vocabulary of the semantic language itself, with logical connectives, quantifiers
  and modal operators, all of them predicates.
-/

namespace AgentContent
namespace Vocabulary

def agentIdentifier : String := "agent-identifier"
def nameSlot : String := "name"
def addressesSlot : String := "addresses"
def resolversSlot : String := "resolvers"

def primitiveTypes : List String :=
  [TypeName.string, TypeName.float, TypeName.integer, TypeName.boolean, TypeName.date,
    TypeName.byteSequence]

/-- The name is that of a primitive type. -/
def isPrimitive (name : String) : Bool :=
  primitiveTypes.any (sameName · name)

def identifierSchema : Schema :=
  let s : Schema := { name := agentIdentifier, kind := .concept }
  let s := s.addMandatory nameSlot TypeName.string
  let s := s.addAggregate addressesSlot TypeName.string 0 none TypeName.sequence
  s.addAggregate resolversSlot agentIdentifier 0 none TypeName.sequence

def actionSchema : Schema :=
  let s : Schema := { name := "action", kind := .agentAction }
  (s.addMandatory "actor" agentIdentifier).addMandatory "action" SchemaKind.term.rootName

def doneSchema : Schema :=
  let s : Schema := { name := "done", kind := .predicate }
  (s.addMandatory "action" SchemaKind.agentAction.rootName).addOptional "condition"
    SchemaKind.predicate.rootName

def resultSchema : Schema :=
  let s : Schema := { name := "result", kind := .predicate }
  (s.addMandatory "action" SchemaKind.agentAction.rootName).addMandatory "value"
    SchemaKind.term.rootName

def equalsSchema : Schema :=
  let s : Schema := { name := "=", kind := .predicate }
  (s.addMandatory "left" SchemaKind.term.rootName).addMandatory "right" SchemaKind.term.rootName

def basicSchemas : List Schema :=
  SchemaKind.all.map Schema.root ++
    primitiveTypes.map (fun t => { name := t, kind := .primitive }) ++
    [TypeName.sequence, TypeName.set].map (fun t => { name := t, kind := .aggregate }) ++
    [identifierSchema, actionSchema, doneSchema, resultSchema, equalsSchema] ++
    ["true", "false"].map (fun t => { name := t, kind := .predicate }) ++
    ["iota", "any", "all"].map (fun t => { name := t, kind := .ire })

def basicClasses : List (AppClass × String) :=
  [(.string, TypeName.string), (.bool, TypeName.boolean), (.int64, TypeName.integer),
    (.int32, TypeName.integer), (.float64, TypeName.float), (.date, TypeName.date),
    (.bytes, TypeName.byteSequence), (.agentId, agentIdentifier)]

def basic : Ontology :=
  basicClasses.foldl (fun o e => o.bindClass e.1 e.2)
    (basicSchemas.foldl Ontology.insert { name := "BASIC_ONTOLOGY" })

/-! ## Operators -/

def predicateSchema (name : String) (slots : List (String × String)) : Schema :=
  slots.foldl (fun s d => s.addMandatory d.1 d.2) { name := name, kind := .predicate }

def connectives : List String := ["and", "or", "implies", "equiv"]
def quantifiers : List String := ["forall", "exists"]
def modalities : List String := ["B", "U", "I", "PG"]

def operatorSchemas : List Schema :=
  let proposition := SchemaKind.predicate.rootName
  connectives.map (predicateSchema · [("left", proposition), ("right", proposition)]) ++
    [predicateSchema "not" [("what", proposition)]] ++
    quantifiers.map
      (predicateSchema · [("variable", TypeName.ofVariable), ("condition", proposition)]) ++
    modalities.map (predicateSchema · [("agent", agentIdentifier), ("condition", proposition)])

def operators : Ontology :=
  operatorSchemas.foldl Ontology.insert (.compose "FIPA-SL-ontology" [basic])

/-- Operators and basic types whose slots are written without their names. -/
def positionalTypes : List String :=
  ["and", "or", "not", "implies", "equiv", "forall", "exists", "B", "U", "I", "PG", "action",
    "done", "result", "="]

def isPositional (type : String) : Bool :=
  positionalTypes.any (sameName · type)

end Vocabulary
end AgentContent
