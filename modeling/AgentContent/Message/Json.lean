import AgentContent.Json.Read
import AgentContent.Json.Write
import AgentContent.Message.Basic

/-!
# AgentContent.Message.Json

Messages as data documents.

* `Message.toJson`: all members, those without a value null.
* `Message.ofJson?`: members that may be null may be missing; no member may be given twice.
-/

namespace AgentContent

def Payload.toJson : Payload → Json
  | .text s => .object [("text", .string s)]
  | .bytes bs => .object [("bytes", .array (bs.map fun b => .integer b.toNat))]

def Payload.ofJson? : Json → Option Payload
  | .object [("text", .string s)] => some (.text s)
  | .object [("bytes", .array items)] => (Json.bytes? items).map .bytes
  | _ => none

def Performative.ofJson? : Json → Option Performative
  | .string s => ofTag? s
  | .object [(s, .null)] => ofTag? s
  | _ => none

namespace Message

def orNull {α : Type} (f : α → Json) : Option α → Json
  | none => .null
  | some a => f a

def toJson (m : Message) : Json :=
  .object [("performative", .string m.performative.tag), ("sender", orNull AgentId.toJson m.sender),
    ("receivers", .array (m.receivers.map AgentId.toJson)),
    ("reply_to", .array (m.replyTo.map AgentId.toJson)), ("language", orNull .string m.language),
    ("ontology", orNull .string m.ontology), ("encoding", orNull .string m.encoding),
    ("protocol", orNull .string m.protocol), ("conversation_id", orNull .string m.conversationId),
    ("content", orNull Payload.toJson m.content)]

/-- A member that may be missing or null. -/
def nullable? {α : Type} (read : Json → Option α) (name : String)
    (members : List (String × Json)) : Option (Option α) :=
  match Json.member? name members with
  | none => some none
  | some .null => some none
  | some v => (read v).map some

/-- A list of identifiers that has to be there. -/
def agents? (name : String) (members : List (String × Json)) : Option (List AgentId) :=
  match Json.member? name members with
  | some (.array items) => items.mapM AgentId.ofJson?
  | _ => none

def memberNames : List String :=
  ["performative", "sender", "receivers", "reply_to", "language", "ontology", "encoding",
    "protocol", "conversation_id", "content"]

def ofMembers? (members : List (String × Json)) : Option Message := do
  let performative ← (Json.member? "performative" members).bind Performative.ofJson?
  let sender ← nullable? AgentId.ofJson? "sender" members
  let receivers ← agents? "receivers" members
  let replyTo ← agents? "reply_to" members
  let language ← nullable? Json.string? "language" members
  let ontology ← nullable? Json.string? "ontology" members
  let encoding ← nullable? Json.string? "encoding" members
  let protocol ← nullable? Json.string? "protocol" members
  let conversationId ← nullable? Json.string? "conversation_id" members
  let content ← nullable? Payload.ofJson? "content" members
  some ⟨performative, sender, receivers, replyTo, language, ontology, encoding, protocol,
    conversationId, content⟩

def ofJson? : Json → Option Message
  | .object members => if Json.once memberNames members then ofMembers? members else none
  | _ => none

/-- The text of a message. -/
def write (m : Message) : String :=
  m.toJson.compact

/-- The message of a text. -/
def read? (text : String) : Option Message :=
  (Json.ofText? text).bind ofJson?

end Message

end AgentContent
