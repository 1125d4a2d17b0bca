import AgentContent.Ontology.Basic

/-!
# AgentContent.Template.Edit

Content made from templates and from other content.

* `Content.withDefaults`: default values put into a template, where the template has a variable or
  nothing, or an aggregate that still is open. What the template has bound stays.
* `Content.addNamespace`, `Content.removeNamespace`: type names moved into and out of a namespace.
  Types that a base ontology does not know get text in front of their names, or lose it. Slot names,
  operators, variables and templates of elements stay.
* `Content.nullify`: content without its variables. Slots and elements that hold one are left out, and
  aggregates that have no elements left too, if that is asked for. Identifying expressions stay as
  they are.
-/

namespace AgentContent
namespace Content

/-! ## Defaults -/

def isVariable : Content → Bool
  | .variable _ _ => true
  | _ => false

/-- An aggregate with elements and without variables. -/
def isBoundAggregate (elements : List Content) (template : Option Content) : Bool :=
  !elements.isEmpty && groundedAll elements && template.all grounded

mutual
/-- The template in a slot with defaults put into it. -/
def withDefaultsIn (slot : String) (defaults template : Content) : Except OntologyError Content :=
  match defaults, template with
  | d, .variable _ _ => .ok d
  | d, .aggregate type elements inner =>
    if isBoundAggregate elements inner || d.isVariable then .ok (.aggregate type elements inner)
    else
      match d with
      | .aggregate t es i => .ok (.aggregate t es i)
      | d => .error (.templateMismatch slot (.notAggregate d))
  | .slotted _ _ given, .slotted role type slots =>
    match putDefaults given slots with
    | .error e => .error e
    | .ok slots => .ok (.slotted role type slots)
  | d, .slotted role type slots =>
    if d.isVariable then .ok (.slotted role type slots)
    else .error (.templateMismatch slot (.notSlotted d))
  | _, t => .ok t
termination_by structural defaults

/-- The slots of a template with the slots of defaults put into them. -/
def putDefaults (given : List (String × Content)) (slots : Slots Content) :
    Except OntologyError (Slots Content) :=
  match given with
  | [] => .ok slots
  | (name, d) :: rest =>
    match Slots.get? name slots with
    | none => putDefaults rest (Slots.insert name d slots)
    | some t =>
      match withDefaultsIn name d t with
      | .error e => .error e
      | .ok c => putDefaults rest (Slots.insert name c slots)
termination_by structural given
end

/-- The template with defaults put into it. -/
def withDefaults (defaults template : Content) : Except OntologyError Content :=
  withDefaultsIn template.typeName defaults template

/-! ## Namespaces -/

mutual
/-- Renames the types of slotted values and aggregates. -/
def renameTypes (rename : String → String) : Content → Content
  | .primitive p => .primitive p
  | .variable slots isMeta => .variable slots isMeta
  | .slotted role type slots => .slotted role (rename type) (renameSlots rename slots)
  | .aggregate type elements template => .aggregate (rename type) (renameAll rename elements) template
  | .ire type referent proposition =>
    .ire type (renameTypes rename referent) (renameTypes rename proposition)
  | .list elements => .list (renameAll rename elements)

def renameAll (rename : String → String) : List Content → List Content
  | [] => []
  | c :: rest => renameTypes rename c :: renameAll rename rest

def renameSlots (rename : String → String) : List (String × Content) → List (String × Content)
  | [] => []
  | (k, c) :: rest => (k, renameTypes rename c) :: renameSlots rename rest
end

/-- The name behind the text of a namespace. -/
def qualify (base : Ontology) (space name : String) : String :=
  if base.contains name then name else space ++ name

/-- The name without the text of a namespace, if it starts with it. -/
def unqualify (base : Ontology) (space name : String) : String :=
  if base.contains name then name
  else if space.toList.isPrefixOf name.toList then
    String.ofList (name.toList.drop space.toList.length)
  else name

def addNamespace (base : Ontology) (space : String) (c : Content) : Content :=
  c.renameTypes (qualify base space)

def removeNamespace (base : Ontology) (space : String) (c : Content) : Content :=
  c.renameTypes (unqualify base space)

/-! ## Variables left out -/

mutual
/-- The content without variables, nothing if that leaves nothing of it. -/
def nullify (dropEmpty : Bool) : Content → Option Content
  | .variable _ _ => none
  | .primitive p => some (.primitive p)
  | .ire type referent proposition => some (.ire type referent proposition)
  | .slotted role type slots => some (.slotted role type (nullifySlots dropEmpty slots))
  | .aggregate type elements _ =>
    let kept := nullifyAll dropEmpty elements
    if dropEmpty && kept.isEmpty then none else some (.aggregate type kept none)
  | .list elements => some (.list (nullifyAll dropEmpty elements))

def nullifyAll (dropEmpty : Bool) : List Content → List Content
  | [] => []
  | c :: rest =>
    match nullify dropEmpty c with
    | none => nullifyAll dropEmpty rest
    | some c => c :: nullifyAll dropEmpty rest

def nullifySlots (dropEmpty : Bool) : List (String × Content) → List (String × Content)
  | [] => []
  | (k, c) :: rest =>
    match nullify dropEmpty c with
    | none => nullifySlots dropEmpty rest
    | some c => (k, c) :: nullifySlots dropEmpty rest
end

end Content
end AgentContent
