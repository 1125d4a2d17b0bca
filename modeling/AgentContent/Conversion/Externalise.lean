import AgentContent.Ontology.Compatibility
import AgentContent.Time.Rfc3339

/-!
# AgentContent.Conversion.Externalise

From application data to content. The schema says what the data means: an object gives a value
with slots, a list an aggregate, an object with one member named for a sub-type, or that name
alone, a value of the sub-type.

* `infer`: the content of data of which no schema says more.
* `tagged?`: the sub-type that data names.
* `externalise`: the content of data under a schema.
-/

namespace AgentContent
namespace Ontology

mutual
/-- The content of data by its own shape. Objects and nulls have none. -/
def infer (type : String) : Json → Except OntologyError Content
  | .bool b => .ok (.ofBool b)
  | .integer n => .ok (if fitsInt64 n then .ofInt n else .ofFloat (.ofInt n))
  | .float x => .ok (.ofFloat x)
  | .string s => .ok (.ofString s)
  | .array items =>
    match inferAll type items with
    | .error e => .error e
    | .ok elements => .ok (.aggregate TypeName.sequence elements none)
  | v => .error (.conversion type (.cannotInfer v))

def inferAll (type : String) : List Json → Except OntologyError (List Content)
  | [] => .ok []
  | v :: rest =>
    match infer type v with
    | .error e => .error e
    | .ok c =>
      match inferAll type rest with
      | .error e => .error e
      | .ok cs => .ok (c :: cs)
end

/-- A primitive of a type: data of exactly that type for the basic ones, any other by its shape. -/
def primitiveOf (type : String) (v : Json) : Except OntologyError Content :=
  let expect (found : Option Content) : Except OntologyError Content :=
    match found with
    | some c => .ok c
    | none => .error (.conversion type (.unexpected v))
  if sameName type TypeName.string then expect (v.string?.map .ofString)
  else if sameName type TypeName.integer then expect (v.int64?.map .ofInt)
  else if sameName type TypeName.float then expect (v.float?.map .ofFloat)
  else if sameName type TypeName.boolean then expect (v.bool?.map .ofBool)
  else if sameName type TypeName.date then
    match v.string? with
    | none => .error (.conversion type (.unexpected v))
    | some text =>
      match Instant.read? text.toList with
      | some t => .ok (.ofDate t)
      | none => .error (.conversion type .unreadableDate)
  else if sameName type TypeName.byteSequence then
    expect ((v.array?.bind Json.bytes?).map .ofBytes)
  else infer type v

/-- The schema of a tag that names a slotted type other than the expected one, and fits it. -/
def subtype? (o : Ontology) (expected : Schema) (tag : String) : Option Schema :=
  match o.find? tag with
  | none => none
  | some sub =>
    if sub.kind.isSlotted && !sameName sub.name expected.name && o.compatible sub expected then
      some sub
    else none

/-- The name is one of a slot of the schema, as far as its super types are known. -/
def hasSlot (o : Ontology) (s : Schema) (name : String) : Bool :=
  match o.slot? s name with
  | .ok (some _) => true
  | _ => false

/-- The sub-type that data names, and its slots if it gives any. -/
def tagged? (o : Ontology) (expected : Schema) :
    Json → Option (Schema × Option (List (String × Json)))
  | .string tag => (o.subtype? expected tag).map fun sub => (sub, none)
  | .object [(tag, inner)] =>
    if o.hasSlot expected tag then none
    else
      match o.subtype? expected tag, inner with
      | some sub, .object fields => some (sub, some fields)
      | some sub, .null => some (sub, none)
      | _, _ => none
  | _ => none

theorem sizeOf_lt_of_tagged? {o : Ontology} {expected sub : Schema} {v : Json}
    {fields : List (String × Json)} (h : o.tagged? expected v = some (sub, some fields)) :
    sizeOf fields < sizeOf v := by
  unfold tagged? at h
  split at h
  · simp at h
  · split at h
    · cases h
    · split at h
      · cases h; simp; omega
      · cases h
      · cases h
  · cases h

/-- The role of values of a schema. -/
def roleOfKind : SchemaKind → Role
  | .agentAction => .agentAction
  | .predicate => .predicate
  | _ => .concept

/-- A value of a schema without slots. -/
def bareValue (s : Schema) : Except OntologyError Content :=
  if s.isAbstract then .error (.abstractSchema s.name)
  else .ok (.slotted (roleOfKind s.kind) s.name [])

mutual
/-- The content of data under a schema; `element` is the type of the elements of an aggregate. -/
def toContent (o : Ontology) (s : Schema) (element : Option String) (v : Json) :
    Except OntologyError Content :=
  match s.kind with
  | .primitive => primitiveOf s.name v
  | .aggregate =>
    match v with
    | .array items =>
      let type := if s.isRoot then TypeName.sequence else s.name
      match element with
      | none =>
        match inferAll s.name items with
        | .error e => .error e
        | .ok elements => .ok (.aggregate type elements none)
      | some name =>
        match o.schema name with
        | .error e => .error e
        | .ok es =>
          match toContents o es items with
          | .error e => .error e
          | .ok elements => .ok (.aggregate type elements none)
    | v => .error (.conversion s.name (.notList v))
  | .concept | .agentAction | .predicate =>
    match _h : o.tagged? s v with
    | some (sub, some fields) => toSlotted o sub fields
    | some (sub, none) => bareValue sub
    | none =>
      match v with
      | .object fields => toSlotted o s fields
      | v => .error (.conversion s.name (.notObject v))
  | .object | .contentElement | .term =>
    match _h : o.tagged? s v with
    | some (sub, some fields) => toSlotted o sub fields
    | some (sub, none) => bareValue sub
    | none => infer s.name v
  | kind => .error (.conversion s.name (.kindNotBuilt kind))
termination_by (sizeOf v, 0, 0)
decreasing_by
  · simp_wf; omega
  · exact Prod.Lex.left _ _ (sizeOf_lt_of_tagged? _h)
  · simp_wf; omega
  · exact Prod.Lex.left _ _ (sizeOf_lt_of_tagged? _h)

def toContents (o : Ontology) (s : Schema) (items : List Json) :
    Except OntologyError (List Content) :=
  match items with
  | [] => .ok []
  | v :: rest =>
    match toContent o s none v with
    | .error e => .error e
    | .ok c =>
      match toContents o s rest with
      | .error e => .error e
      | .ok cs => .ok (c :: cs)
termination_by (sizeOf items, 0, 0)
decreasing_by all_goals simp_wf; omega

/-- A value of a schema with the slots that an object gives. -/
def toSlotted (o : Ontology) (s : Schema) (fields : List (String × Json)) :
    Except OntologyError Content :=
  if s.isAbstract then .error (.abstractSchema s.name)
  else
    match o.slots s with
    | .error e => .error e
    | .ok ds =>
      match toSlots o s fields ds with
      | .error e => .error e
      | .ok slots => .ok (.slotted (roleOfKind s.kind) s.name slots)
termination_by (sizeOf fields, 1, 0)
decreasing_by exact Prod.Lex.right _ (Prod.Lex.left _ _ Nat.zero_lt_one)

/-- The slots of descriptors whose name an object has with a value other than null. -/
def toSlots (o : Ontology) (s : Schema) (fields : List (String × Json))
    (ds : List SlotDescriptor) : Except OntologyError (List (String × Content)) :=
  match ds with
  | [] => .ok []
  | d :: rest =>
    match _h : Slots.get? d.name fields with
    | none => toSlots o s fields rest
    | some .null => toSlots o s fields rest
    | some v =>
      match o.schema d.type with
      | .error e => .error e
      | .ok t =>
        match o.elementType? s d.name with
        | .error e => .error e
        | .ok element =>
          match toContent o t element v with
          | .error e => .error e
          | .ok c =>
            match toSlots o s fields rest with
            | .error e => .error e
            | .ok slots => .ok ((d.name, c) :: slots)
termination_by (sizeOf fields, 0, ds.length)
decreasing_by
  · exact Prod.Lex.right _ (Prod.Lex.right _ (Nat.lt_succ_self _))
  · exact Prod.Lex.right _ (Prod.Lex.right _ (Nat.lt_succ_self _))
  · exact Prod.Lex.left _ _ (Slots.sizeOf_lt_of_get? _h)
  · exact Prod.Lex.right _ (Prod.Lex.right _ (Nat.lt_succ_self _))
end

/-- The content of application data under a schema. Members of objects are taken in the order of
their names. -/
def externalise (o : Ontology) (s : Schema) (v : Json) : Except OntologyError Content :=
  toContent o s none v.sorted

end Ontology
end AgentContent
