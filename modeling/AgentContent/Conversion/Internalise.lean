import AgentContent.Conversion.Externalise

/-!
# AgentContent.Conversion.Internalise

From content to application data. Values with slots become objects, tagged with their type where
another type is expected; variables, identifying expressions and lists of content elements have no
data.
-/

namespace AgentContent

def Primitive.toData : Primitive → Except OntologyError Json
  | .string s => .ok (.string s)
  | .boolean b => .ok (.bool b)
  | .integer n => .ok (.integer n)
  | .float x =>
    if x.isFinite then .ok (.float x) else .error (.conversion TypeName.float (.notFinite x))
  | .date t => .ok (.string t.toData)
  | .bytes bs => .ok (.array (bs.map fun b => .integer b.toNat))

namespace Ontology

/-- An object of a type where one of another is expected: the bare name of the type if the object
has no members, else the object as a member of that name. -/
def tagObject (own expected : Schema) (fields : List (String × Json)) : Json :=
  if sameName own.name expected.name then .object (Json.sortMembers fields)
  else if fields.isEmpty then .string own.name
  else .object [(own.name, .object (Json.sortMembers fields))]

mutual
/-- The data of content where a schema is expected; `element` is the schema of the elements of an
aggregate, if one is declared. -/
def toData (o : Ontology) (expected : Schema) (element : Option Schema) (c : Content) :
    Except OntologyError Json :=
  match c with
  | .primitive p => p.toData
  | .aggregate _ elements _ =>
    match toDataAll o element elements with
    | .error e => .error e
    | .ok items => .ok (.array items)
  | .slotted _ type slots =>
    match o.schema type with
    | .error e => .error e
    | .ok own =>
      match o.slots own with
      | .error e => .error e
      | .ok ds =>
        match toFields o own slots ds with
        | .error e => .error e
        | .ok fields => .ok (tagObject own expected fields)
  | .variable slots _ => .error (.conversion expected.name (.unbound (Content.variableName slots)))
  | c => .error (.conversion expected.name (.kindNotConverted c.kind))
termination_by (sizeOf c, 0)
decreasing_by all_goals simp_wf; omega

/-- The data of elements, each under the declared schema or else that of its own type. -/
def toDataAll (o : Ontology) (element : Option Schema) (elements : List Content) :
    Except OntologyError (List Json) :=
  match elements with
  | [] => .ok []
  | c :: rest =>
    let schema : Except OntologyError Schema :=
      match element with
      | some s => .ok s
      | none => o.schema c.typeName
    match schema with
    | .error e => .error e
    | .ok s =>
      match toData o s none c with
      | .error e => .error e
      | .ok v =>
        match toDataAll o element rest with
        | .error e => .error e
        | .ok vs => .ok (v :: vs)
termination_by (sizeOf elements, 0)
decreasing_by all_goals simp_wf; omega

/-- The members for the descriptors of slots that have a value. -/
def toFields (o : Ontology) (own : Schema) (slots : List (String × Content))
    (ds : List SlotDescriptor) : Except OntologyError (List (String × Json)) :=
  match ds with
  | [] => .ok []
  | d :: rest =>
    match _h : Slots.get? d.name slots with
    | none => toFields o own slots rest
    | some c =>
      match o.schema d.type with
      | .error e => .error e
      | .ok t =>
        match o.elementSchema? own d.name with
        | .error e => .error e
        | .ok element =>
          match toData o t element c with
          | .error e => .error e
          | .ok v =>
            match toFields o own slots rest with
            | .error e => .error e
            | .ok fields => .ok ((d.name, v) :: fields)
termination_by (sizeOf slots, ds.length)
decreasing_by
  · exact Prod.Lex.right _ (Nat.lt_succ_self _)
  · exact Prod.Lex.left _ _ (Slots.sizeOf_lt_of_get? _h)
  · exact Prod.Lex.right _ (Nat.lt_succ_self _)
end

/-- The application data of content where a schema is expected. -/
def internalise (o : Ontology) (expected : Schema) (c : Content) : Except OntologyError Json :=
  toData o expected none c

end Ontology
end AgentContent
