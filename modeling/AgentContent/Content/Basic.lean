import AgentContent.Content.Slots
import AgentContent.Number.Numeral
import AgentContent.Time.Instant

/-!
# AgentContent.Content.Basic

Abstract content: the tree that message content is before it is written in a language and after it
is read from one.

* `TypeName`: the type names that the library itself gives a meaning.
* `Primitive`: strings, truth values, integers, floats, dates and byte sequences.
* `Content`: a primitive, a value with named slots, an aggregate of terms, a variable, an
  identifying expression (`ire`), or a list of content elements.
* `Content.grounded`: no part is a variable, templates of elements included.
-/

namespace AgentContent

/-! The six primitive types, the two general aggregates, variables, and lists of content elements. -/

namespace TypeName

def string : String := "BO_String"
def float : String := "BO_Float"
def integer : String := "BO_Integer"
def boolean : String := "BO_Boolean"
def date : String := "BO_Date"
def byteSequence : String := "BO_Byte-sequence"

def sequence : String := "sequence"
def set : String := "set"

def ofVariable : String := "Variable"
def contentElementList : String := "ContentElementList"

end TypeName

inductive Primitive where
  | string (value : String)
  | boolean (value : Bool)
  | integer (value : Int)
  | float (value : Binary64)
  | date (value : Instant)
  | bytes (value : List UInt8)
  deriving DecidableEq

/-- What a value with named slots may stand for in a sentence. -/
inductive Role where
  | concept
  | agentAction
  | predicate
  deriving DecidableEq

/-- Slots are in the order of insertion. The template of an aggregate says what its elements should
look like. -/
inductive Content where
  | primitive (value : Primitive)
  | slotted (role : Role) (type : String) (slots : List (String × Content))
  | aggregate (type : String) (elements : List Content) (template : Option Content)
  | variable (slots : List (String × Content)) (isMeta : Bool)
  | ire (type : String) (referent proposition : Content)
  | list (elements : List Content)

namespace Primitive

def typeName : Primitive → String
  | .string _ => TypeName.string
  | .boolean _ => TypeName.boolean
  | .integer _ => TypeName.integer
  | .float _ => TypeName.float
  | .date _ => TypeName.date
  | .bytes _ => TypeName.byteSequence

def string? : Primitive → Option String
  | .string s => some s
  | _ => none

end Primitive

namespace Content

inductive Kind where
  | primitive
  | concept
  | agentAction
  | predicate
  | aggregate
  | variable
  | ire
  | contentElementList
  deriving DecidableEq

/-- The label of a kind in messages. -/
def Kind.label : Kind → String
  | .primitive => "primitive"
  | .concept => "concept"
  | .agentAction => "agent-action"
  | .predicate => "predicate"
  | .aggregate => "aggregate"
  | .variable => "variable"
  | .ire => "ire"
  | .contentElementList => "content-element-list"

/-- The tag of a kind in data documents. -/
def Kind.tag : Kind → String
  | .primitive => "primitive"
  | .concept => "concept"
  | .agentAction => "agent_action"
  | .predicate => "predicate"
  | .aggregate => "aggregate"
  | .variable => "variable"
  | .ire => "ire"
  | .contentElementList => "content_element_list"

/-- All kinds, in the order in which data documents number them. -/
def Kind.all : List Kind :=
  [.primitive, .concept, .agentAction, .predicate, .aggregate, .variable, .ire, .contentElementList]

def ofString (s : String) : Content := .primitive (.string s)
def ofInt (n : Int) : Content := .primitive (.integer n)
def ofBool (b : Bool) : Content := .primitive (.boolean b)
def ofFloat (x : Binary64) : Content := .primitive (.float x)
def ofDate (t : Instant) : Content := .primitive (.date t)
def ofBytes (bs : List UInt8) : Content := .primitive (.bytes bs)

/-- The slots of a variable: its name, and the type of its values when that is declared. -/
def nameSlot : String := "Name"
def valueTypeSlot : String := "ValueType"

def freeVariable (name : String) (isMeta : Bool) : Content :=
  .variable [(nameSlot, ofString name)] isMeta

def typedVariable (name type : String) : Content :=
  .variable [(nameSlot, ofString name), (valueTypeSlot, ofString type)] false

def kind : Content → Kind
  | .primitive _ => .primitive
  | .slotted .concept _ _ => .concept
  | .slotted .agentAction _ _ => .agentAction
  | .slotted .predicate _ _ => .predicate
  | .aggregate _ _ _ => .aggregate
  | .variable _ _ => .variable
  | .ire _ _ _ => .ire
  | .list _ => .contentElementList

/-- The name that is looked up in an ontology. -/
def typeName : Content → String
  | .primitive p => p.typeName
  | .slotted _ type _ => type
  | .aggregate type _ _ => type
  | .variable _ _ => TypeName.ofVariable
  | .ire type _ _ => type
  | .list _ => TypeName.contentElementList

def primitive? : Content → Option Primitive
  | .primitive p => some p
  | _ => none

def string? : Content → Option String
  | .primitive (.string s) => some s
  | _ => none

/-- The elements of an aggregate. -/
def aggregate? : Content → Option (List Content)
  | .aggregate _ elements _ => some elements
  | _ => none

/-- The named slots of a concept, an agent action or a predicate. -/
def slots? : Content → Option (Slots Content)
  | .slotted _ _ slots => some slots
  | _ => none

/-- A string in a slot, the empty one when there is none. -/
def variableName (slots : Slots Content) : String :=
  ((Slots.get? nameSlot slots).bind string?).getD ""

def valueType? (slots : Slots Content) : Option String :=
  (Slots.get? valueTypeSlot slots).bind string?

/-- The name of the slot at a position. -/
def positionName (i : Nat) : String :=
  "#" ++ toString i

/-- The position that a name gives: a number after the mark, with or without a plus. -/
def position? (name : String) : Option Nat :=
  match name.toList with
  | '#' :: '+' :: ds => readNat? ds
  | '#' :: ds => readNat? ds
  | _ => none

def referentSlot : String := "Variable"
def propositionSlot : String := "Proposition"

/-- The part behind a slot name. -/
def part? (name : String) : Content → Option Content
  | .primitive _ => none
  | .slotted _ _ slots => Slots.get? name slots
  | .aggregate _ elements _ => (position? name).bind (elements[·]?)
  | .variable slots _ => Slots.get? name slots
  | .ire _ referent proposition =>
    if sameName name referentSlot then some referent
    else if sameName name propositionSlot then some proposition
    else none
  | .list elements => (position? name).bind (elements[·]?)

/-- The names of the slots that hold a value. -/
def names : Content → List String
  | .primitive _ => []
  | .slotted _ _ slots => Slots.names slots
  | .aggregate _ elements _ => (List.range elements.length).map positionName
  | .variable slots _ => Slots.names slots
  | .ire _ _ _ => [referentSlot, propositionSlot]
  | .list elements => (List.range elements.length).map positionName

/-- How many slots hold a value. -/
def count : Content → Nat
  | .primitive _ => 0
  | .slotted _ _ slots => slots.length
  | .aggregate _ elements _ => elements.length
  | .variable slots _ => slots.length
  | .ire _ _ _ => 2
  | .list elements => elements.length

/-- May be the content of a message on its own. -/
def isContentElement : Content → Bool
  | .slotted .predicate _ _ => true
  | .slotted .agentAction _ _ => true
  | .ire _ _ _ => true
  | .list _ => true
  | _ => false

/-- May fill a slot of a term. -/
def isTerm : Content → Bool
  | .slotted .predicate _ _ => false
  | .list _ => false
  | _ => true

mutual
def grounded : Content → Bool
  | .primitive _ => true
  | .slotted _ _ slots => groundedSlots slots
  | .aggregate _ elements none => groundedAll elements
  | .aggregate _ elements (some template) => groundedAll elements && template.grounded
  | .variable _ _ => false
  | .ire _ referent proposition => referent.grounded && proposition.grounded
  | .list elements => groundedAll elements

def groundedAll : List Content → Bool
  | [] => true
  | c :: rest => c.grounded && groundedAll rest

def groundedSlots : List (String × Content) → Bool
  | [] => true
  | (_, c) :: rest => c.grounded && groundedSlots rest
end

/-- Has a part to be filled: a variable somewhere, in a term or a predicate. -/
def isTemplate (c : Content) : Bool :=
  match c with
  | .primitive _ => false
  | .ire _ _ _ => false
  | .list _ => false
  | c => !c.grounded

end Content

end AgentContent
