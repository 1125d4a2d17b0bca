import AgentContent.Ontology.Compatibility

/-!
# AgentContent.Ontology.Validation

Whether content is what its schemas say.

* `checkFacet`: a value keeps a facet; variables and identifying expressions keep all.
* `validate`: a value is an instance of a schema, down to its last part.
* `checkUndeclared`: no part has a slot that its schema does not declare.
-/

namespace AgentContent
namespace Ontology

/-- Variables and identifying expressions stand for values that are not known yet. -/
def isOpen : Content → Bool
  | .variable _ _ => true
  | .ire _ _ _ => true
  | _ => false

/-- The elements of an aggregate are of a type, unless they are open. -/
def checkElements (o : Ontology) (slot type : String) (expected : Schema) :
    List Content → Except OntologyError Unit
  | [] => .ok ()
  | e :: rest =>
    if isOpen e then checkElements o slot type expected rest
    else
      match o.schema e.typeName with
      | .error err => .error err
      | .ok actual =>
        if o.compatible actual expected then checkElements o slot type expected rest
        else .error (.facetViolation slot (.wrongElement e type))

def checkFacet (o : Ontology) (slot : String) (value : Content) (facet : Facet) :
    Except OntologyError Unit :=
  let refuse (v : Violation) : Except OntologyError Unit := .error (.facetViolation slot v)
  if isOpen value then .ok ()
  else
    match facet with
    | .cardinality least most =>
      match value.aggregate? with
      | none => refuse (.notAggregate value)
      | some elements =>
        if elements.length < least then refuse (.tooFew elements.length least)
        else
          match most with
          | none => .ok ()
          | some most =>
            if most < elements.length then refuse (.tooMany elements.length most) else .ok ()
    | .elementType type =>
      match value.aggregate? with
      | none => refuse (.notAggregate value)
      | some elements =>
        match o.schema type with
        | .error e => .error e
        | .ok expected => checkElements o slot type expected elements
    | .permitted values =>
      match value.primitive? with
      | some p => if values.contains p then .ok () else refuse (.notPermitted value)
      | none => refuse (.notPermitted value)
    | .pattern p =>
      match value.string? with
      | some s => if p.finds s then .ok () else refuse (.noMatch value p.text)
      | none => refuse (.noMatch value p.text)
    | .custom rule =>
      match rule.check o.contains value with
      | none => .ok ()
      | some reason => refuse (.rule rule.name reason)

def checkFacets (o : Ontology) (slot : String) (value : Content) :
    List Facet → Except OntologyError Unit
  | [] => .ok ()
  | f :: rest =>
    match o.checkFacet slot value f with
    | .error e => .error e
    | .ok () => checkFacets o slot value rest

/-- The type that a variable declares for its values may stand in a slot. -/
def checkDeclared (o : Ontology) (slot : String) (expected : Schema) (value : Content) :
    Except OntologyError Unit :=
  match value with
  | .variable slots _ =>
    match Content.valueType? slots with
    | none => .ok ()
    | some type =>
      match o.schema type with
      | .error e => .error e
      | .ok declared =>
        if o.compatible declared expected then .ok ()
        else .error (.incompatibleSchema type value expected.name slot)
  | _ => .ok ()

/-- The schema of a value that may stand in a slot. -/
def fitting (o : Ontology) (d : SlotDescriptor) (value : Content) : Except OntologyError Schema :=
  match o.schema d.type with
  | .error e => .error e
  | .ok expected =>
    match o.schema value.typeName with
    | .error e => .error e
    | .ok actual =>
      if o.compatible actual expected then
        match o.checkDeclared d.name expected value with
        | .error e => .error e
        | .ok () => .ok actual
      else .error (.incompatibleSchema actual.name value expected.name d.name)

mutual
/-- The content is an instance of the schema. -/
def validate (o : Ontology) (s : Schema) (c : Content) : Except OntologyError Unit :=
  match c with
  | .variable slots _ =>
    match Content.valueType? slots with
    | none => .ok ()
    | some type =>
      if s.kind = .variable then .ok ()
      else
        match o.schema type with
        | .error e => .error e
        | .ok declared =>
          if o.compatible declared s then .ok () else .error (.invalid s.name c (.declaredAs type))
  | .primitive p =>
    match o.schema p.typeName with
    | .error e => .error e
    | .ok actual =>
      if o.compatible actual s then .ok ()
      else .error (.invalid s.name c (.primitiveOf p.typeName))
  | .aggregate _ elements _ =>
    if s.kind.isSlotted then .error (.invalid s.name c .notSlotted) else validateAll o elements
  | .list elements => validateElements o elements
  | .ire _ referent proposition =>
    if proposition.isContentElement then
      match o.schema referent.typeName with
      | .error e => .error e
      | .ok r =>
        match validate o r referent with
        | .error e => .error e
        | .ok () =>
          match o.schema proposition.typeName with
          | .error e => .error e
          | .ok p => validate o p proposition
    else .error (.invalid s.name c .noProposition)
  | .slotted _ _ slots =>
    match o.slots s with
    | .error e => .error e
    | .ok ds => validateSlots o s slots ds
termination_by (sizeOf c, 0)
decreasing_by all_goals simp_wf; omega

/-- Every term is an instance of the schema of its type. -/
def validateAll (o : Ontology) (elements : List Content) : Except OntologyError Unit :=
  match elements with
  | [] => .ok ()
  | e :: rest =>
    match o.schema e.typeName with
    | .error err => .error err
    | .ok s =>
      match validate o s e with
      | .error err => .error err
      | .ok () => validateAll o rest
termination_by (sizeOf elements, 0)
decreasing_by all_goals simp_wf; omega

/-- Every part is a content element and an instance of the schema of its type. -/
def validateElements (o : Ontology) (elements : List Content) : Except OntologyError Unit :=
  match elements with
  | [] => .ok ()
  | e :: rest =>
    if e.isContentElement then
      match o.schema e.typeName with
      | .error err => .error err
      | .ok s =>
        match validate o s e with
        | .error err => .error err
        | .ok () => validateElements o rest
    else .error (.notContentElement e)
termination_by (sizeOf elements, 0)
decreasing_by all_goals simp_wf; omega

/-- Each declared slot is empty where it may be, or has a fitting value that keeps its facets. -/
def validateSlots (o : Ontology) (s : Schema) (slots : List (String × Content))
    (ds : List SlotDescriptor) : Except OntologyError Unit :=
  match ds with
  | [] => .ok ()
  | d :: rest =>
    match _h : Slots.get? d.name slots with
    | none =>
      if d.optional then validateSlots o s slots rest
      else .error (.missingMandatorySlot s.name d.name)
    | some value =>
      match o.fitting d value with
      | .error e => .error e
      | .ok actual =>
        match validate o actual value with
        | .error e => .error e
        | .ok () =>
          match o.facetsOf s d.name with
          | .error e => .error e
          | .ok facets =>
            match o.checkFacets d.name value facets with
            | .error e => .error e
            | .ok () => validateSlots o s slots rest
termination_by (sizeOf slots, ds.length)
decreasing_by
  · exact Prod.Lex.right _ (Nat.lt_succ_self _)
  · exact Prod.Lex.left _ _ (Slots.sizeOf_lt_of_get? _h)
  · exact Prod.Lex.right _ (Nat.lt_succ_self _)
end

/-- The content is an instance of the schema of its type. -/
def validateContent (o : Ontology) (c : Content) : Except OntologyError Unit :=
  match o.schema c.typeName with
  | .error e => .error e
  | .ok s => o.validate s c

mutual
/-- Every slot of the content and of its parts is declared by the schema of the part. -/
def checkUndeclared (o : Ontology) (s : Schema) : Content → Except OntologyError Unit
  | .slotted _ _ slots => checkUndeclaredSlots o s slots
  | .aggregate _ elements _ => checkUndeclaredAll o elements
  | .list elements => checkUndeclaredAll o elements
  | .ire _ _ proposition =>
    match o.schema proposition.typeName with
    | .error e => .error e
    | .ok p => checkUndeclared o p proposition
  | .primitive _ => .ok ()
  | .variable _ _ => .ok ()

def checkUndeclaredAll (o : Ontology) : List Content → Except OntologyError Unit
  | [] => .ok ()
  | e :: rest =>
    match o.schema e.typeName with
    | .error err => .error err
    | .ok s =>
      match checkUndeclared o s e with
      | .error err => .error err
      | .ok () => checkUndeclaredAll o rest

def checkUndeclaredSlots (o : Ontology) (s : Schema) :
    List (String × Content) → Except OntologyError Unit
  | [] => .ok ()
  | (name, value) :: rest =>
    match o.containsSlot s name with
    | .error e => .error e
    | .ok false => .error (.undeclaredSlot s.name name)
    | .ok true =>
      match o.schema value.typeName with
      | .error e => .error e
      | .ok inner =>
        match checkUndeclared o inner value with
        | .error e => .error e
        | .ok () => checkUndeclaredSlots o s rest
end

end Ontology
end AgentContent
