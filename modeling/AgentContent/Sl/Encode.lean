import AgentContent.Ontology.Lineage
import AgentContent.Sl.Word
import AgentContent.Vocabulary.Basic

/-!
# AgentContent.Sl.Encode

The text of a content. Slots are written behind their names, but operators and basic types whose
slots are the first ones of their schema are written without.

* `positionalOrder?`: the names of the slots in the order in which they go without their names.
* `encode`: the text of a content, in an outer pair of parentheses.
-/

namespace AgentContent
namespace Sl

def symbol (what : Symbol) (name : String) : Except EncodeError (List Char) :=
  if isSymbol name.toList then .ok name.toList else .error (.noSymbol what name)

/-- The declared slots up to the first one that has no value. -/
def filledSlots (declared : List SlotDescriptor) (slots : Slots Content) : List String :=
  (declared.takeWhile fun d => Slots.contains d.name slots).map (·.name)

def positionalOrder? (o : Ontology) (type : String) (slots : Slots Content) :
    Option (List String) :=
  if Vocabulary.isPositional type then
    match o.find? type with
    | none => none
    | some s =>
      match o.slots s with
      | .error _ => none
      | .ok declared =>
        let filled := filledSlots declared slots
        if filled.length = slots.length &&
            (Slots.names slots).all fun n => declared.any fun d => sameName d.name n then
          some filled
        else none
  else none

/-- Texts one after the other, each behind a blank. -/
def spaced : List (Except EncodeError (List Char)) → Except EncodeError (List Char)
  | [] => .ok []
  | .error e :: _ => .error e
  | .ok text :: rest =>
    match spaced rest with
    | .error e => .error e
    | .ok more => .ok (' ' :: text ++ more)

/-- The texts of the named slots that have one. -/
def inOrder (texts : Slots (Except EncodeError (List Char))) (names : List String) :
    List (Except EncodeError (List Char)) :=
  names.filterMap fun n => Slots.get? n texts

/-- The text of a slot behind its name. -/
def named (name : String) (text : Except EncodeError (List Char)) :
    Except EncodeError (List Char) :=
  match symbol .slotName name, text with
  | .error e, _ => .error e
  | .ok _, .error e => .error e
  | .ok name, .ok text => .ok (':' :: name ++ ' ' :: text)

/-- A head and what follows it in parentheses. -/
def parenthesised (type : String) (rest : List (Except EncodeError (List Char))) :
    Except EncodeError (List Char) :=
  match symbol .typeName type with
  | .error e => .error e
  | .ok head =>
    match spaced rest with
    | .error e => .error e
    | .ok text => .ok ('(' :: head ++ text ++ [')'])

mutual
def encodeExpression (o : Ontology) : Content → Except EncodeError (List Char)
  | .primitive p => writePrimitive p
  | .variable slots isMeta =>
    match symbol .variableName (Content.variableName slots) with
    | .error e => .error e
    | .ok name => .ok ((if isMeta then ['?', '?'] else ['?']) ++ name)
  | .aggregate type elements _ => parenthesised type (encodeAll o elements)
  | .ire type referent proposition =>
    parenthesised type [encodeExpression o referent, encodeExpression o proposition]
  | .list _ => .error .nestedList
  | .slotted _ type slots =>
    let texts := encodeSlots o slots
    match positionalOrder? o type slots with
    | some names => parenthesised type (inOrder texts names)
    | none => parenthesised type (texts.map fun e => named e.1 e.2)

def encodeAll (o : Ontology) : List Content → List (Except EncodeError (List Char))
  | [] => []
  | c :: rest => encodeExpression o c :: encodeAll o rest

def encodeSlots (o : Ontology) :
    List (String × Content) → List (String × Except EncodeError (List Char))
  | [] => []
  | (name, c) :: rest => (name, encodeExpression o c) :: encodeSlots o rest
end

/-- Texts with a blank between any two. -/
def separated : List (Except EncodeError (List Char)) → Except EncodeError (List Char)
  | [] => .ok []
  | .error e :: _ => .error e
  | .ok text :: rest =>
    match spaced rest with
    | .error e => .error e
    | .ok more => .ok (text ++ more)

def encodeChars (o : Ontology) (c : Content) : Except EncodeError (List Char) :=
  let texts :=
    match c with
    | .list elements => encodeAll o elements
    | c => [encodeExpression o c]
  if texts.isEmpty then .error .emptyList
  else
    match separated texts with
    | .error e => .error e
    | .ok text => .ok ('(' :: text ++ [')'])

/-- The text of a content under an ontology. -/
def encode (o : Ontology) (c : Content) : Except EncodeError String :=
  match encodeChars o c with
  | .error e => .error e
  | .ok cs => .ok (String.ofList cs)

end Sl
end AgentContent
