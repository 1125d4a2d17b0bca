import AgentContent.Content.Json
import AgentContent.Json.Read
import AgentContent.Json.Write
import AgentContent.Message.Basic
import AgentContent.Sl.Decode
import AgentContent.Sl.Encode

/-!
# AgentContent.Language.Basic

Content languages: what turns content into the payload of a message and back.

* `sl`: the semantic language, which brings a vocabulary of its own.
* `json`: content as a data document in bytes, on one line or on indented ones.
* `display`: content as displays show it, which nobody reads back.
* `custom`: a language of an application's own.
-/

namespace AgentContent

/-- How a language writes and reads content under an ontology: as texts or as bytes. -/
inductive Coding where
  | text (write : Ontology → Content → Except CodecError String)
    (read : Ontology → String → Except CodecError Content)
  | bytes (write : Ontology → Content → Except CodecError (List UInt8))
    (read : Ontology → List UInt8 → Except CodecError Content)

/-- A language of an application's own, with the vocabulary that it defines, if any. The vocabulary
belongs to the language: asked for it, the language always gives the same one, as it always has the
same name. -/
structure Codec where
  name : String
  vocabulary? : Option Ontology := none
  coding : Coding

inductive Language where
  | sl (vocabulary : Ontology)
  | json (pretty : Bool)
  | display
  | custom (codec : Codec)

namespace Language

def name : Language → String
  | .sl _ => "fipa-sl"
  | .json _ => "json"
  | .display => "display"
  | .custom codec => codec.name

/-- Which content slot the language uses. -/
def carrier : Language → Carrier
  | .sl _ => .text
  | .json _ => .bytes
  | .display => .text
  | .custom ⟨_, _, .text _ _⟩ => .text
  | .custom ⟨_, _, .bytes _ _⟩ => .bytes

/-- The vocabulary that the language itself defines. -/
def vocabulary? : Language → Option Ontology
  | .sl vocabulary => some vocabulary
  | .custom codec => codec.vocabulary?
  | _ => none

/-- The data document of a content as a text. -/
def encodeJson (pretty : Bool) (c : Content) : Except CodecError String :=
  match c.nonFinite? with
  | some x => .error (.encode (.notFiniteJson x))
  | none => .ok (if pretty then c.toJson.pretty else c.toJson.compact)

def decodeJson (bytes : List UInt8) : Except CodecError Content :=
  match (Json.ofBytes? bytes).bind Content.ofJson? with
  | some c => .ok c
  | none => .error .notDocument

def encodeSl (o : Ontology) (c : Content) : Except CodecError String :=
  match Sl.encode o c with
  | .ok text => .ok text
  | .error e => .error (.ofEncode e)

def decodeSl (o : Ontology) (text : String) : Except CodecError Content :=
  match Sl.decode o text with
  | .ok c => .ok c
  | .error e => .error (.ofDecode e)

/-- The bytes of a text. -/
def bytesOf (text : String) : List UInt8 :=
  text.toUTF8.data.toList

/-- The payload of a content under an ontology. -/
def encode (o : Ontology) (c : Content) : Language → Except CodecError Payload
  | .sl _ =>
    match encodeSl o c with
    | .ok text => .ok (.text text)
    | .error e => .error e
  | .json pretty =>
    match encodeJson pretty c with
    | .ok text => .ok (.bytes (bytesOf text))
    | .error e => .error e
  | .display => .ok (.text c.display)
  | .custom ⟨_, _, .text write _⟩ =>
    match write o c with
    | .ok text => .ok (.text text)
    | .error e => .error e
  | .custom ⟨_, _, .bytes write _⟩ =>
    match write o c with
    | .ok bytes => .ok (.bytes bytes)
    | .error e => .error e

/-- The content of a payload under an ontology; `as` is the name by which the language was asked
for. -/
def decode (o : Ontology) (as : String) (p : Payload) (l : Language) : Except CodecError Content :=
  match l, p with
  | .sl _, .text text => decodeSl o text
  | .json _, .bytes bytes => decodeJson bytes
  | .display, .text text => .error (.parse ⟨0, .undisplayable text⟩)
  | .custom ⟨_, _, .text _ read⟩, .text text => read o text
  | .custom ⟨_, _, .bytes _ read⟩, .bytes bytes => read o bytes
  | l, _ => .error (.incompatibleContent as l.carrier)

/-- The languages that every manager can have. -/
def standard : List Language :=
  [.sl Vocabulary.operators, .json false]

end Language

end AgentContent
