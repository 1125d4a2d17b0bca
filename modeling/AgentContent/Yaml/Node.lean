import AgentContent.Yaml.Token

/-!
# AgentContent.Yaml.Node

Settings documents as trees. A node that other places repeat has a number, and those places hold
the number.

* `Node.ofTokens?`: the tree of the only document of a list of words.
* `Node.read?`: the tree of a text; a text without a document is an empty plain scalar.
* `Node.follow`: the node that a node stands for.
-/

namespace AgentContent
namespace Yaml

inductive Node where
  | scalar (tag : Option String) (value : Scalar)
  | sequence (items : List Node)
  | mapping (entries : List (Node × Node))
  | alias (number : Nat)
  | numbered (number : Nat) (node : Node)

/-- Reading of nodes: the words that are left, the numbers of the anchors by name, and what the
handles of tags stand for. -/
structure Reading where
  tokens : List Token
  anchors : List (String × Nat) := []
  handles : List (String × String) := []

namespace Reading

def rest (r : Reading) (tokens : List Token) : Reading :=
  { r with tokens := tokens }

/-- A new number for a name. -/
def number (r : Reading) : Nat :=
  r.anchors.length

def withAnchor (r : Reading) (name : String) : Reading :=
  { r with anchors := (name, r.number) :: r.anchors.filter (·.1 ≠ name) }

def defaultHandles : List (String × String) :=
  [("!", "!"), ("!!", "tag:yaml.org,2002:")]

/-- A tag in full. -/
def tag? (r : Reading) (handle rest : String) : Option String :=
  if handle = "" then some rest
  else ((r.handles ++ defaultHandles).lookup handle).map (· ++ rest)

end Reading

/-- The anchor and the tag in front of a node. -/
structure Properties where
  anchor : Option String := none
  tag : Option (String × String) := none

/-- Each at most once and in any order. -/
def readProperties : List Token → Properties × List Token
  | .anchor a :: .tag h t :: rest => (⟨some a, some (h, t)⟩, rest)
  | .tag h t :: .anchor a :: rest => (⟨some a, some (h, t)⟩, rest)
  | .anchor a :: rest => (⟨some a, none⟩, rest)
  | .tag h t :: rest => (⟨none, some (h, t)⟩, rest)
  | rest => ({}, rest)

namespace Node

def empty : Node :=
  .scalar none ⟨"", .plain⟩

/-- A scalar that its tag marks as one without a tag. -/
def ofScalar (tag : Option String) (v : Scalar) : Node :=
  .scalar (if tag = some "!" then none else tag) v

/-- The words that end an entry of a mapping. -/
def endsBlockEntry : List Token → Bool
  | .key :: _ => true
  | .value :: _ => true
  | .blockEnd :: _ => true
  | _ => false

/-- The words that end an item of a list. -/
def endsBlockItem : List Token → Bool
  | .blockEntry :: _ => true
  | .blockEnd :: _ => true
  | _ => false

def endsFlowItem : List Token → Bool
  | .flowEntry :: _ => true
  | .flowSequenceEnd :: _ => true
  | _ => false

def endsFlowEntry : List Token → Bool
  | .flowEntry :: _ => true
  | .flowMappingEnd :: _ => true
  | _ => false

/-- How a node stands: inside of a flow collection or in a block, there perhaps as the value of a
mapping, which can have a list whose items start at the column of the keys. -/
inductive Context where
  | flow
  | block
  | value
  deriving DecidableEq

mutual
/-- A node. Reading takes at most `fuel` calls inside each other. -/
def readNode (fuel : Nat) (x : Context) (r : Reading) : Option (Node × Reading) :=
  match fuel with
  | 0 => none
  | fuel + 1 =>
    match r.tokens with
    | .alias name :: rest => (r.anchors.lookup name).map fun n => (.alias n, r.rest rest)
    | tokens =>
      let (p, tokens) := readProperties tokens
      let found := match p.tag with
        | none => some none
        | some (h, t) => (r.tag? h t).map some
      match found, p.anchor with
      | none, _ => none
      | some tag, none => readContent fuel x tag p.tag.isSome (r.rest tokens)
      | some tag, some name =>
        (readContent fuel x tag true ((r.rest tokens).withAnchor name)).map fun (n, s) =>
          (.numbered r.number n, s)

/-- A node behind its properties; where there are some, it may be empty. -/
def readContent (fuel : Nat) (x : Context) (tag : Option String) (mayBeEmpty : Bool) (r : Reading) :
    Option (Node × Reading) :=
  match fuel with
  | 0 => none
  | fuel + 1 =>
    match r.tokens with
    | .scalar v :: rest => some (ofScalar tag v, r.rest rest)
    | .flowSequence :: rest =>
      (readFlowItems fuel true (r.rest rest)).map fun (ns, r) => (.sequence ns, r)
    | .flowMapping :: rest =>
      (readFlowEntries fuel true (r.rest rest)).map fun (es, r) => (.mapping es, r)
    | tokens =>
      match x, tokens with
      | .value, .blockEntry :: _ =>
        (readItemsInline fuel r).map fun (ns, r) => (.sequence ns, r)
      | .block, .blockSequence :: rest | .value, .blockSequence :: rest =>
        (readItems fuel (r.rest rest)).map fun (ns, r) => (.sequence ns, r)
      | .block, .blockMapping :: rest | .value, .blockMapping :: rest =>
        (readEntries fuel (r.rest rest)).map fun (es, r) => (.mapping es, r)
      | _, _ => if mayBeEmpty then some (.scalar tag ⟨"", .plain⟩, r) else none

/-- A node, unless the words that come end what it would be in. -/
def readOptional (fuel : Nat) (x : Context) (ends : List Token → Bool) (r : Reading) :
    Option (Node × Reading) :=
  match fuel with
  | 0 => none
  | fuel + 1 => if ends r.tokens then some (empty, r) else readNode fuel x r

/-- The items of a list up to the end of its block. -/
def readItems (fuel : Nat) (r : Reading) : Option (List Node × Reading) :=
  match fuel with
  | 0 => none
  | fuel + 1 =>
    match r.tokens with
    | .blockEnd :: rest => some ([], r.rest rest)
    | .blockEntry :: rest =>
      match readOptional fuel .block endsBlockItem (r.rest rest) with
      | none => none
      | some (n, r) => (readItems fuel r).map fun (ns, r) => (n :: ns, r)
    | _ => none

/-- The items of a list that has no block of its own. -/
def readItemsInline (fuel : Nat) (r : Reading) : Option (List Node × Reading) :=
  match fuel with
  | 0 => none
  | fuel + 1 =>
    match r.tokens with
    | .blockEntry :: rest =>
      match readOptional fuel .block (fun ts => endsBlockItem ts || endsBlockEntry ts)
          (r.rest rest) with
      | none => none
      | some (n, r) => (readItemsInline fuel r).map fun (ns, r) => (n :: ns, r)
    | _ => some ([], r)

/-- The entries of a mapping up to the end of its block. -/
def readEntries (fuel : Nat) (r : Reading) : Option (List (Node × Node) × Reading) :=
  match fuel with
  | 0 => none
  | fuel + 1 =>
    match r.tokens with
    | .blockEnd :: rest => some ([], r.rest rest)
    | .key :: rest =>
      match readOptional fuel .value endsBlockEntry (r.rest rest) with
      | none => none
      | some (k, r) =>
        match readValue fuel .value endsBlockEntry r with
        | none => none
        | some (v, r) => (readEntries fuel r).map fun (es, r) => ((k, v) :: es, r)
    | _ => none

/-- The value of an entry, which may be missing. -/
def readValue (fuel : Nat) (x : Context) (ends : List Token → Bool) (r : Reading) :
    Option (Node × Reading) :=
  match fuel with
  | 0 => none
  | fuel + 1 =>
    match r.tokens with
    | .value :: rest => readOptional fuel x ends (r.rest rest)
    | _ => some (empty, r)

/-- The items of a list in flow up to its end, a comma in front of all but the first. -/
def readFlowItems (fuel : Nat) (first : Bool) (r : Reading) : Option (List Node × Reading) :=
  match fuel with
  | 0 => none
  | fuel + 1 =>
    match first, r.tokens with
    | _, .flowSequenceEnd :: rest => some ([], r.rest rest)
    | false, .flowEntry :: .flowSequenceEnd :: rest => some ([], r.rest rest)
    | false, .flowEntry :: rest => readFlowItem fuel (r.rest rest)
    | false, _ => none
    | true, _ => readFlowItem fuel r

/-- The mapping of one entry that is an item of a list in flow, behind its key. -/
def readItemValue (fuel : Nat) (k : Node) (r : Reading) : Option (Node × Reading) :=
  match fuel with
  | 0 => none
  | fuel + 1 => (readValue fuel .flow endsFlowItem r).map fun (v, r) => (.mapping [(k, v)], r)

/-- An item of a list in flow, which may be a mapping of one entry, and the items after it. -/
def readFlowItem (fuel : Nat) (r : Reading) : Option (List Node × Reading) :=
  match fuel with
  | 0 => none
  | fuel + 1 =>
    let item := match r.tokens with
      | .key :: .value :: rest => readItemValue fuel empty (r.rest rest)
      | .key :: .flowEntry :: rest => readItemValue fuel empty (r.rest rest)
      | .key :: .flowSequenceEnd :: rest => readItemValue fuel empty (r.rest rest)
      | .key :: rest =>
        match readNode fuel .flow (r.rest rest) with
        | none => none
        | some (k, r) => readItemValue fuel k r
      | _ => readNode fuel .flow r
    match item with
    | none => none
    | some (n, r) => (readFlowItems fuel false r).map fun (ns, r) => (n :: ns, r)

/-- The entries of a mapping in flow up to its end, a comma in front of all but the first. -/
def readFlowEntries (fuel : Nat) (first : Bool) (r : Reading) :
    Option (List (Node × Node) × Reading) :=
  match fuel with
  | 0 => none
  | fuel + 1 =>
    match first, r.tokens with
    | _, .flowMappingEnd :: rest => some ([], r.rest rest)
    | false, .flowEntry :: .flowMappingEnd :: rest => some ([], r.rest rest)
    | false, .flowEntry :: rest => readFlowEntry fuel (r.rest rest)
    | false, _ => none
    | true, _ => readFlowEntry fuel r

/-- An entry of a mapping in flow, which may be a key alone, and the entries after it. -/
def readFlowEntry (fuel : Nat) (r : Reading) : Option (List (Node × Node) × Reading) :=
  match fuel with
  | 0 => none
  | fuel + 1 =>
    let entry := match r.tokens with
      | .key :: rest =>
        match readOptional fuel .flow (fun ts => endsFlowEntry ts || ts matches .value :: _)
            (r.rest rest) with
        | none => none
        | some (k, r) => (readValue fuel .flow endsFlowEntry r).map fun (v, r) => ((k, v), r)
      | _ => (readNode fuel .flow r).map fun (k, r) => ((k, empty), r)
    match entry with
    | none => none
    | some (e, r) => (readFlowEntries fuel false r).map fun (es, r) => (e :: es, r)
end

/-- What the directives in front of a document say, each at most once, and the words after them. -/
def readDirectives (versioned : Bool) (handles : List (String × String)) :
    List Token → Option (List (String × String) × List Token)
  | .version :: rest => if versioned then none else readDirectives true handles rest
  | .tagDirective h t :: rest =>
    if (handles.lookup h).isSome then none else readDirectives versioned ((h, t) :: handles) rest
  | rest => some (handles, rest)

/-- The words behind the start mark of a document that end it without a node. -/
def endsDocument : List Token → Bool
  | [] => true
  | .version :: _ => true
  | .tagDirective _ _ :: _ => true
  | .documentStart :: _ => true
  | .documentEnd :: _ => true
  | _ => false

/-- Nothing but end marks of documents. -/
def onlyEnds (tokens : List Token) : Bool :=
  tokens.all fun
    | .documentEnd => true
    | _ => false

/-- Four calls a word suffice. -/
def enough (tokens : List Token) : Nat :=
  4 * tokens.length + 4

/-- The node of a document behind its directives. -/
def readDocument (handles : List (String × String)) (tokens : List Token) : Option Node :=
  match readNode (enough tokens) .block ⟨tokens, [], handles⟩ with
  | some (n, r) => if onlyEnds r.tokens then some n else none
  | none => none

/-- The only document of a list of words. A document with directives has a start mark. -/
def ofTokens? (tokens : List Token) : Option Node :=
  if tokens.isEmpty then some empty
  else
    match readDirectives false [] tokens with
    | some (handles, .documentStart :: rest) =>
      if endsDocument rest then if onlyEnds rest then some empty else none
      else readDocument handles rest
    | some (_, rest) => if rest.length = tokens.length then readDocument [] tokens else none
    | none => none

def read? (text : String) : Option Node :=
  ((Source.ofText? text).bind Token.scan).bind ofTokens?

mutual
/-- The node with a number, the last one if there are more. -/
def find? (number : Nat) : Node → Option Node
  | .numbered n node => (find? number node).or (if n = number then some node else none)
  | .sequence items => findAll? number items
  | .mapping entries => findEntries? number entries
  | _ => none

def findAll? (number : Nat) : List Node → Option Node
  | [] => none
  | n :: rest => (findAll? number rest).or (find? number n)

def findEntries? (number : Nat) : List (Node × Node) → Option Node
  | [] => none
  | (k, v) :: rest => ((findEntries? number rest).or (find? number v)).or (find? number k)
end

/-- The node that a node of a document stands for. -/
def follow (root : Node) : Node → Node
  | .alias n => (root.find? n).getD empty
  | .numbered _ n => n
  | n => n

end Node
end Yaml
end AgentContent
