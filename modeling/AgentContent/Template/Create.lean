import AgentContent.Conversion.Externalise

/-!
# AgentContent.Template.Create

Templates of schemas: a value with a slot for each slot of the schema and a variable of the declared
type in each place that is still open. A type that is being made already is not made again inside
itself, a variable stands there.

* `Ontology.template`: the template of a schema; its variables are `v0`, `v1` and so on.
-/

namespace AgentContent
namespace Ontology

/-- The variable of a schema with a number. -/
def numberedVariable (s : Schema) (n : Nat) : Content :=
  .typedVariable ("v" ++ toString n) s.name

mutual
/-- A value of a slotted schema whose name is on the path, and the next free number. -/
def templateValue (o : Ontology) (path : List String) (s : Schema) (n : Nat) :
    Except OntologyError (Content × Nat) :=
  match o.slots s with
  | .error e => .error e
  | .ok ds =>
    match templateSlots o path s ds n with
    | .error e => .error e
    | .ok (slots, n) => .ok (.slotted (roleOfKind s.kind) s.name slots, n)
termination_by (unseen o.keys path, 3, 0)
decreasing_by exact Prod.Lex.right _ (Prod.Lex.left _ _ (by omega))

def templateSlots (o : Ontology) (path : List String) (s : Schema) (ds : List SlotDescriptor)
    (n : Nat) : Except OntologyError (List (String × Content) × Nat) :=
  match ds with
  | [] => .ok ([], n)
  | d :: rest =>
    match templateSlot o path s d n with
    | .error e => .error e
    | .ok (c, n) =>
      match templateSlots o path s rest n with
      | .error e => .error e
      | .ok (slots, n) => .ok ((d.name, c) :: slots, n)
termination_by (unseen o.keys path, 2, ds.length)
decreasing_by
  · exact Prod.Lex.right _ (Prod.Lex.left _ _ (by omega))
  · exact Prod.Lex.right _ (Prod.Lex.right _ (Nat.lt_succ_self _))

/-- The template of a slot: for an aggregate an empty one, with the template of its elements if
their type is declared. -/
def templateSlot (o : Ontology) (path : List String) (s : Schema) (d : SlotDescriptor) (n : Nat) :
    Except OntologyError (Content × Nat) :=
  match o.schema d.type with
  | .error e => .error e
  | .ok t =>
    if t.kind = .aggregate then
      match o.elementType? s d.name with
      | .error e => .error e
      | .ok none => .ok (.aggregate t.name [] none, n)
      | .ok (some element) =>
        match templateOf o path element n with
        | .error e => .error e
        | .ok (c, n) => .ok (.aggregate t.name [] (some c), n)
    else templateOf o path d.type n
termination_by (unseen o.keys path, 1, 0)
decreasing_by all_goals exact Prod.Lex.right _ (Prod.Lex.left _ _ Nat.zero_lt_one)

/-- The template of a type inside the types of the path. -/
def templateOf (o : Ontology) (path : List String) (type : String) (n : Nat) :
    Except OntologyError (Content × Nat) :=
  match _h : o.find? type with
  | none => .error (.schemaNotFound type o.name)
  | some t =>
    match t.kind with
    | .concept | .agentAction | .predicate =>
      if _hp : foldName t.name ∈ path then .ok (numberedVariable t n, n + 1)
      else if t.isAbstract then .ok (numberedVariable t n, n + 1)
      else templateValue o (foldName t.name :: path) t n
    | .aggregate => .ok (.aggregate t.name [] none, n)
    | .contentElementList => .ok (.list [], n)
    | _ => .ok (numberedVariable t n, n + 1)
termination_by (unseen o.keys path, 0, 0)
decreasing_by exact Prod.Lex.left _ _ (unseen_cons_lt (find?_mem_keys _h) _hp)
end

/-- The template of a schema. -/
def template (o : Ontology) (s : Schema) : Except OntologyError Content :=
  match s.kind with
  | .concept | .agentAction | .predicate =>
    if s.isAbstract then .ok (numberedVariable s 0)
    else
      match templateValue o [foldName s.name] s 0 with
      | .error e => .error e
      | .ok (c, _) => .ok c
  | .aggregate => .ok (.aggregate s.name [] none)
  | .contentElementList => .ok (.list [])
  | _ => .ok (numberedVariable s 0)

end Ontology
end AgentContent
