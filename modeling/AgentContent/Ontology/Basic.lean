import AgentContent.Ontology.Error
import AgentContent.Schema.Basic

/-!
# AgentContent.Ontology.Basic

Ontologies: named registries of schemas, and of the classes of application values that schemas
describe. What an ontology does not define itself it takes from its bases, as they were when it
was composed: their layers follow its own, depth first.

* `Ontology.find?`: the schema of a type name.
* `Ontology.add`: registers a schema, before it the aggregate types that it needs and nobody has.
* `forall_of_layers`: what holds of all schemas of the layers holds of the one that is found.
* `find?_mem_keys`: what is found is registered somewhere.
-/

namespace AgentContent

/-- What one ontology defines itself, in the order of registration. -/
structure Layer where
  schemas : List Schema := []
  classes : List (AppClass × String) := []

namespace Layer

def find? (l : Layer) (name : String) : Option Schema :=
  l.schemas.find? fun s => sameName s.name name

def class? (l : Layer) (c : AppClass) : Option String :=
  (l.classes.find? fun e => e.1 = c).map (·.2)

/-- Binds a class to a type name, in place of an earlier binding. -/
def bindClass (l : Layer) (c : AppClass) (type : String) : Layer :=
  { l with classes := (c, type) :: l.classes.filter fun e => e.1 ≠ c }

end Layer

structure Ontology where
  name : String
  own : Layer := {}
  bases : List String := []
  inherited : List Layer := []

namespace Ontology

def layers (o : Ontology) : List Layer :=
  o.own :: o.inherited

/-- An empty ontology over bases, asked in their order. -/
def compose (name : String) (bases : List Ontology) : Ontology where
  name := name
  bases := bases.map (·.name)
  inherited := bases.flatMap layers

/-- The folded names of all schemas. -/
def keys (o : Ontology) : List String :=
  o.layers.flatMap fun l => l.schemas.map fun s => foldName s.name

def find? (o : Ontology) (name : String) : Option Schema :=
  o.layers.findSome? (·.find? name)

def contains (o : Ontology) (name : String) : Bool :=
  (o.find? name).isSome

def containsLocal (o : Ontology) (name : String) : Bool :=
  (o.own.find? name).isSome

def schema (o : Ontology) (name : String) : Except OntologyError Schema :=
  match o.find? name with
  | some s => .ok s
  | none => .error (.schemaNotFound name o.name)

/-- The names of the ontology's own schemas in the order of registration. -/
def names (o : Ontology) : List String :=
  o.own.schemas.map (·.name)

def class? (o : Ontology) (c : AppClass) : Option String :=
  o.layers.findSome? (·.class? c)

def schemaFor (o : Ontology) (c : AppClass) : Except OntologyError Schema :=
  match (o.class? c).bind o.find? with
  | some s => .ok s
  | none => .error (.classNotRegistered c o.name)

def push (o : Ontology) (s : Schema) : Ontology :=
  { o with own := { o.own with schemas := o.own.schemas ++ [s] } }

/-- Registers an aggregate type that nobody in the chain knows and that is not about to be
registered under the name itself. -/
def needAggregate (name : String) (o : Ontology) (type : String) : Ontology :=
  if o.contains type || sameName type name then o else o.push { name := type, kind := .aggregate }

/-- Registers a schema of a new name and the aggregate types that it needs. -/
def insert (o : Ontology) (s : Schema) : Ontology :=
  (s.pending.foldl (needAggregate s.name) o).push { s with pending := [] }

def add (o : Ontology) (s : Schema) : Except OntologyError Ontology :=
  if o.containsLocal s.name then .error (.duplicateSchema s.name o.name) else .ok (o.insert s)

def bindClass (o : Ontology) (c : AppClass) (type : String) : Ontology :=
  { o with own := o.own.bindClass c type }

def addClass (o : Ontology) (c : AppClass) (s : Schema) : Except OntologyError Ontology :=
  match o.add s with
  | .ok o => .ok (o.bindClass c s.name)
  | .error e => .error e

def registerClass (o : Ontology) (c : AppClass) (type : String) : Except OntologyError Ontology :=
  match o.schema type with
  | .ok _ => .ok (o.bindClass c type)
  | .error e => .error e

theorem sameName_of_find? {o : Ontology} {name : String} {s : Schema} (h : o.find? name = some s) :
    sameName s.name name = true := by
  simp only [find?, List.findSome?_eq_some_iff] at h
  obtain ⟨_, l, _, _, h, _⟩ := h
  exact List.find?_some (p := fun s : Schema => sameName s.name name) h

theorem exists_layer_of_find? {o : Ontology} {name : String} {s : Schema}
    (h : o.find? name = some s) : ∃ l ∈ o.layers, s ∈ l.schemas := by
  obtain ⟨l, hl, h⟩ := List.exists_of_findSome?_eq_some h
  exact ⟨l, hl, List.mem_of_find?_eq_some h⟩

theorem forall_of_layers {o : Ontology} {p : Schema → Prop}
    (h : ∀ l ∈ o.layers, ∀ s ∈ l.schemas, p s) {name : String} {s : Schema}
    (hs : o.find? name = some s) : p s := by
  obtain ⟨l, hl, hmem⟩ := exists_layer_of_find? hs
  exact h l hl s hmem

theorem find?_mem_keys {o : Ontology} {name : String} {s : Schema} (h : o.find? name = some s) :
    foldName s.name ∈ o.keys := by
  obtain ⟨l, hl, hs⟩ := exists_layer_of_find? h
  exact List.mem_flatMap.2 ⟨l, hl, List.mem_map.2 ⟨s, hs, rfl⟩⟩

end Ontology

end AgentContent
