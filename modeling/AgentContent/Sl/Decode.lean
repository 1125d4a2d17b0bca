import AgentContent.Ontology.Lineage
import AgentContent.Sl.Word

/-!
# AgentContent.Sl.Decode

The content that a text says. The type at the head of a group decides what it is: an aggregate, an
identifying expression, or a value with slots, whose arguments without a keyword fill the slots in
the order of the schema. A head that the ontology does not know takes the role that its place asks
for.

* `Form.ofTokens`: lexical elements grouped by their parentheses. Grouping never fails: a group that
  the text does not close has no place of its closing parenthesis, and a parenthesis that closes
  nothing is an atom.
* `expression`, `terms`, `arguments`: the parts of a group.
* `decode`: the content of a text, a list of content elements when there are several.
-/

namespace AgentContent
namespace Sl

/-! ## Groups -/

inductive Form where
  | atom (lexeme : Lexeme) (offset : Nat)
  | group (offset : Nat) (items : List Form) (closing : Option Nat)

namespace Form

/-- The byte at which the form starts. -/
def offset : Form → Nat
  | .atom _ offset => offset
  | .group offset _ _ => offset

/-- The forms of all open groups put into each other, none of them closed. The items of each level
are the last first. -/
def unwind (items : List Form) : List (Nat × List Form) → List Form
  | [] => items.reverse
  | (offset, outer) :: levels => unwind (.group offset items.reverse none :: outer) levels

/-- The forms of the rest of a text, inside the open groups given by their starts and the items of
the levels around them. -/
def build (levels : List (Nat × List Form)) (items : List Form) : List Token → List Form
  | [] => unwind items levels
  | ⟨.open, offset⟩ :: rest => build ((offset, items) :: levels) [] rest
  | ⟨.close, offset⟩ :: rest =>
    match levels with
    | [] => build [] (.atom .close offset :: items) rest
    | (start, outer) :: levels => build levels (.group start items.reverse (some offset) :: outer) rest
  | ⟨lexeme, offset⟩ :: rest => build levels (.atom lexeme offset :: items) rest

def ofTokens (tokens : List Token) : List Form :=
  build [] [] tokens

end Form

/-! ## Contents of groups -/

/-- What a place asks for. -/
inductive Expect where
  | term
  | proposition
  | action
  deriving DecidableEq

/-- What a slot of a type asks for. -/
def Expect.ofSlot (type : String) : Expect :=
  if sameName type SchemaKind.predicate.rootName ||
      sameName type SchemaKind.contentElement.rootName then .proposition
  else if sameName type SchemaKind.agentAction.rootName then .action
  else .term

def Expect.role : Expect → Role
  | .term => .concept
  | .proposition => .predicate
  | .action => .agentAction

/-- The role of a head of a kind. -/
def roleOf (kind : Option SchemaKind) (expect : Expect) : Role :=
  match kind with
  | some .predicate => .predicate
  | some .agentAction => .agentAction
  | some .concept => .concept
  | _ => expect.role

/-- The slots of the schema of a head, none if it has no schema. -/
def declaredSlots (o : Ontology) (s : Option Schema) : Except OntologyError (List SlotDescriptor) :=
  match s with
  | none => .ok []
  | some s => o.slots s

/-- What the slot of a keyword asks for. -/
def expectOfKeyword (declared : List SlotDescriptor) (name : String) : Expect :=
  match declared.find? fun d => sameName d.name name with
  | none => .term
  | some d => .ofSlot d.type

/-- The error where a group ends and another expression is asked for; `finish` is the end of the
text. -/
def missingExpression (finish : Nat) (closing : Option Nat) : ParseError :=
  match closing with
  | some offset => ⟨offset, .unexpectedClose⟩
  | none => ⟨finish, .unexpectedEnd⟩

/-- Where a group that should end ends. -/
def requireClose (finish : Nat) (closing : Option Nat) (fault : Fault) : Except ParseError Unit :=
  match closing with
  | some _ => .ok ()
  | none => .error ⟨finish, fault⟩

mutual
def expression (o : Ontology) (finish : Nat) (expect : Expect) : Form → Except ParseError Content
  | .atom (.word w) _ => .ok (.primitive (wordValue w))
  | .atom (.quoted s) _ => .ok (.ofString s)
  | .atom (.variable name isMeta) _ => .ok (.freeVariable name isMeta)
  | .atom (.bytes bs) _ => .ok (.ofBytes bs)
  | .atom (.keyword name) offset => .error ⟨offset, .unexpectedKeyword name⟩
  | .atom _ offset => .error ⟨offset, .unexpectedClose⟩
  | .group _ [] (some offset) => .error ⟨offset, .noHead⟩
  | .group _ [] none => .error ⟨finish, .unexpectedEnd⟩
  | .group _ (.atom (.word type) headOffset :: args) closing =>
    let schema : Option Schema := o.find? type
    match schema.map Schema.kind with
    | some .aggregate =>
      match terms o finish closing args with
      | .error e => .error e
      | .ok elements => .ok (.aggregate type elements none)
    | some .ire =>
      match args with
      | [] => .error (missingExpression finish closing)
      | [v] =>
        match expression o finish .term v with
        | .error e => .error e
        | .ok _ => .error (missingExpression finish closing)
      | v :: p :: rest =>
        match expression o finish .term v with
        | .error e => .error e
        | .ok referent =>
          match expression o finish .proposition p with
          | .error e => .error e
          | .ok proposition =>
            match rest with
            | [] =>
              match requireClose finish closing .unexpectedEnd with
              | .error e => .error e
              | .ok () => .ok (.ire type referent proposition)
            | extra :: _ => .error ⟨extra.offset, .referentAndProposition type⟩
    | kind =>
      match declaredSlots o schema with
      | .error e => .error ⟨headOffset, .badSchema e⟩
      | .ok declared =>
        match arguments o finish type declared closing 0 [] args with
        | .error e => .error e
        | .ok slots => .ok (.slotted (roleOf kind expect) type slots)
  | .group _ (head :: _) _ => .error ⟨head.offset, .noHead⟩

/-- The elements of an aggregate up to the end of its group. -/
def terms (o : Ontology) (finish : Nat) (closing : Option Nat) :
    List Form → Except ParseError (List Content)
  | [] =>
    match requireClose finish closing .missingClose with
    | .error e => .error e
    | .ok () => .ok []
  | f :: rest =>
    match expression o finish .term f with
    | .error e => .error e
    | .ok c =>
      match terms o finish closing rest with
      | .error e => .error e
      | .ok cs => .ok (c :: cs)

/-- The slots that the arguments of a group fill, after `position` of them without a keyword. -/
def arguments (o : Ontology) (finish : Nat) (type : String) (declared : List SlotDescriptor)
    (closing : Option Nat) (position : Nat) (slots : Slots Content) :
    List Form → Except ParseError (Slots Content)
  | [] =>
    match requireClose finish closing (.missingCloseAfter type) with
    | .error e => .error e
    | .ok () => .ok slots
  | .atom (.keyword _) _ :: [] => .error (missingExpression finish closing)
  | .atom (.keyword name) _ :: v :: rest =>
    match expression o finish (expectOfKeyword declared name) v with
    | .error e => .error e
    | .ok c => arguments o finish type declared closing position (Slots.insert name c slots) rest
  | f :: rest =>
    match declared[position]? with
    | none => .error ⟨f.offset, .tooManyArguments type⟩
    | some d =>
      match expression o finish (.ofSlot d.type) f with
      | .error e => .error e
      | .ok c =>
        arguments o finish type declared closing (position + 1) (Slots.insert d.name c slots) rest
end

/-- The content elements of the outer group. -/
def elements (o : Ontology) (finish : Nat) (closing : Option Nat) :
    List Form → Except ParseError (List Content)
  | [] =>
    match requireClose finish closing .missingClose with
    | .error e => .error e
    | .ok () => .ok []
  | .atom _ offset :: _ => .error ⟨offset, .notParenthesised⟩
  | f :: rest =>
    match expression o finish .proposition f with
    | .error e => .error e
    | .ok c =>
      match elements o finish closing rest with
      | .error e => .error e
      | .ok cs => .ok (c :: cs)

/-- The content of all forms of a text. -/
def contentOf (o : Ontology) (finish : Nat) : List Form → Except ParseError Content
  | [] => .error ⟨finish, .unexpectedEnd⟩
  | .atom _ offset :: _ => .error ⟨offset, .contentNotOpened⟩
  | .group offset items closing :: rest =>
    match elements o finish closing items with
    | .error e => .error e
    | .ok cs =>
      match rest with
      | extra :: _ => .error ⟨extra.offset, .trailing⟩
      | [] =>
        match cs with
        | [] => .error ⟨offset, .emptyContent⟩
        | [c] => .ok c
        | cs => .ok (.list cs)

def decodeChars (o : Ontology) (cs : List Char) : Except (Failure ParseError) Content :=
  match Token.scan cs with
  | .error e => .error e
  | .ok tokens =>
    match contentOf o (byteSize cs) (Form.ofTokens tokens) with
    | .error e => .error (.reported e)
    | .ok c => .ok c

/-- The content that a text says under an ontology. -/
def decode (o : Ontology) (text : String) : Except (Failure ParseError) Content :=
  decodeChars o text.toList

end Sl
end AgentContent
