import AgentContent.Content.Basic
import AgentContent.Json.Basic
import AgentContent.Time.Rfc3339

/-!
# AgentContent.Content.Json

Content as a data document: an object with the tag of the kind and the parts of the content.

* `Content.toJson`: the document of a content.
* `Content.ofJson?`: reads one; members that have no meaning do not count, those that have one may
  not be given twice.
* `Content.nonFinite?`: the first float that has no document form.
-/

namespace AgentContent

def Primitive.toJson : Primitive → Json
  | .string s => .object [("string", .string s)]
  | .boolean b => .object [("boolean", .bool b)]
  | .integer n => .object [("integer", .integer n)]
  | .float x => .object [("float", .float x)]
  | .date t => .object [("date", .string t.toData)]
  | .bytes bs => .object [("byte_sequence", .array (bs.map fun b => .integer b.toNat))]

/-- Exactly one member, named for the type of the value. -/
def Primitive.ofJson? : Json → Option Primitive
  | .object [("string", .string s)] => some (.string s)
  | .object [("boolean", .bool b)] => some (.boolean b)
  | .object [("integer", v)] => v.int64?.map .integer
  | .object [("float", v)] => v.float?.map .float
  | .object [("date", .string s)] => (Instant.readLoose? s.toList).map .date
  | .object [("byte_sequence", .array items)] => (Json.bytes? items).map .bytes
  | _ => none

namespace Content

mutual
def toJson : Content → Json
  | .primitive p => .object [("kind", .string "primitive"), ("value", p.toJson)]
  | .slotted role type slots =>
    .object [("kind", .string (kind (.slotted role type [])).tag), ("type", .string type),
      ("slots", .object (slotsToJson slots))]
  | .aggregate type elements none =>
    .object [("kind", .string "aggregate"), ("type", .string type),
      ("elements", .array (allToJson elements))]
  | .aggregate type elements (some template) =>
    .object [("kind", .string "aggregate"), ("type", .string type),
      ("elements", .array (allToJson elements)), ("element_template", template.toJson)]
  | .variable slots isMeta =>
    .object [("kind", .string "variable"), ("slots", .object (slotsToJson slots)),
      ("meta", .bool isMeta)]
  | .ire type referent proposition =>
    .object [("kind", .string "ire"), ("type", .string type), ("variable", referent.toJson),
      ("proposition", proposition.toJson)]
  | .list elements =>
    .object [("kind", .string "content_element_list"), ("elements", .array (allToJson elements))]

def allToJson : List Content → List Json
  | [] => []
  | c :: rest => c.toJson :: allToJson rest

def slotsToJson : List (String × Content) → List (String × Json)
  | [] => []
  | (k, c) :: rest => (k, c.toJson) :: slotsToJson rest
end

/-- The kind that a tag names. Inside another content a tag may be the number of the kind. -/
def Kind.ofTag? (inner : Bool) : Json → Option Kind
  | .string s => Kind.all.find? fun k => k.tag = s
  | .integer n => if inner && 0 ≤ n then Kind.all[n.toNat]? else none
  | _ => none

def typeMember? (members : List (String × Json)) : Option String :=
  (Json.member? "type" members).bind Json.string?

/-- A truth value that may be missing. -/
def metaMember? (members : List (String × Json)) : Option Bool :=
  match Json.member? "meta" members with
  | none => some false
  | some v => v.bool?

mutual
/-- Reads a content, `inner` when it is part of another. -/
def ofJsonAt? (inner : Bool) (doc : Json) : Option Content :=
  match doc with
  | .object members =>
    if Json.occurrences "kind" members ≠ 1 then none
    else
      match (Json.member? "kind" members).bind (Kind.ofTag? inner) with
      | none => none
      | some .primitive =>
        if Json.once ["value"] members then
          ((Json.member? "value" members).bind Primitive.ofJson?).map .primitive
        else none
      | some .concept => slottedOfJson? .concept members
      | some .agentAction => slottedOfJson? .agentAction members
      | some .predicate => slottedOfJson? .predicate members
      | some .aggregate =>
        if Json.once ["type", "elements", "element_template"] members then
          match typeMember? members, elementsMember? members, templateMember? members with
          | some type, some elements, some template => some (.aggregate type elements template)
          | _, _, _ => none
        else none
      | some .variable =>
        if Json.once ["slots", "meta"] members then
          match requiredSlots? members, metaMember? members with
          | some slots, some isMeta => some (.variable slots isMeta)
          | _, _ => none
        else none
      | some .ire =>
        if Json.once ["type", "variable", "proposition"] members then
          match typeMember? members, contentMember? "variable" members,
            contentMember? "proposition" members with
          | some type, some referent, some proposition => some (.ire type referent proposition)
          | _, _, _ => none
        else none
      | some .contentElementList =>
        if Json.once ["elements"] members then (elementsMember? members).map .list else none
  | _ => none
termination_by (sizeOf doc, 0)
decreasing_by all_goals simp_wf; omega

def slottedOfJson? (role : Role) (members : List (String × Json)) : Option Content :=
  if Json.once ["type", "slots"] members then
    match typeMember? members, slotsMember? members with
    | some type, some slots => some (.slotted role type slots)
    | _, _ => none
  else none
termination_by (sizeOf members, 1)
decreasing_by exact Prod.Lex.right _ Nat.zero_lt_one

/-- The content of a member that has to be there. -/
def contentMember? (name : String) (members : List (String × Json)) : Option Content :=
  match _h : Json.member? name members with
  | none => none
  | some v => ofJsonAt? true v
termination_by (sizeOf members, 0)
decreasing_by have := Json.sizeOf_lt_of_member? _h; omega

/-- Slots that have to be there. -/
def requiredSlots? (members : List (String × Json)) : Option (Slots Content) :=
  match _h : Json.member? "slots" members with
  | some (.object entries) => (entriesOfJson? entries).map Slots.ofList
  | _ => none
termination_by (sizeOf members, 0)
decreasing_by have := Json.sizeOf_lt_of_member? _h; simp at this; omega

/-- Slots, none when they are missing. -/
def slotsMember? (members : List (String × Json)) : Option (Slots Content) :=
  match _h : Json.member? "slots" members with
  | none => some []
  | some (.object entries) => (entriesOfJson? entries).map Slots.ofList
  | some _ => none
termination_by (sizeOf members, 0)
decreasing_by have := Json.sizeOf_lt_of_member? _h; simp at this; omega

/-- Elements, none when they are missing. -/
def elementsMember? (members : List (String × Json)) : Option (List Content) :=
  match _h : Json.member? "elements" members with
  | none => some []
  | some (.array items) => itemsOfJson? items
  | some _ => none
termination_by (sizeOf members, 0)
decreasing_by have := Json.sizeOf_lt_of_member? _h; simp at this; omega

/-- A template that may be missing or null. -/
def templateMember? (members : List (String × Json)) : Option (Option Content) :=
  match _h : Json.member? "element_template" members with
  | none => some none
  | some .null => some none
  | some v => (ofJsonAt? true v).map some
termination_by (sizeOf members, 0)
decreasing_by have := Json.sizeOf_lt_of_member? _h; omega

def itemsOfJson? (items : List Json) : Option (List Content) :=
  match items with
  | [] => some []
  | v :: rest =>
    match ofJsonAt? true v, itemsOfJson? rest with
    | some c, some cs => some (c :: cs)
    | _, _ => none
termination_by (sizeOf items, 0)
decreasing_by all_goals simp_wf; omega

def entriesOfJson? (entries : List (String × Json)) : Option (List (String × Content)) :=
  match entries with
  | [] => some []
  | (k, v) :: rest =>
    match ofJsonAt? true v, entriesOfJson? rest with
    | some c, some cs => some ((k, c) :: cs)
    | _, _ => none
termination_by (sizeOf entries, 0)
decreasing_by all_goals simp_wf; omega
end

/-- The content of a document. -/
def ofJson? (doc : Json) : Option Content :=
  ofJsonAt? false doc

mutual
/-- The first float, in the order of the document, that is infinite or no number. -/
def nonFinite? : Content → Option Binary64
  | .primitive (.float x) => if x.isFinite then none else some x
  | .primitive _ => none
  | .slotted _ _ slots => nonFiniteSlots? slots
  | .aggregate _ elements none => nonFiniteAll? elements
  | .aggregate _ elements (some template) => (nonFiniteAll? elements).or template.nonFinite?
  | .variable _ _ => none
  | .ire _ referent proposition => referent.nonFinite?.or proposition.nonFinite?
  | .list elements => nonFiniteAll? elements

def nonFiniteAll? : List Content → Option Binary64
  | [] => none
  | c :: rest => c.nonFinite?.or (nonFiniteAll? rest)

def nonFiniteSlots? : List (String × Content) → Option Binary64
  | [] => none
  | (_, c) :: rest => c.nonFinite?.or (nonFiniteSlots? rest)
end

end Content
end AgentContent
