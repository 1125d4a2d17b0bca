import AgentContent.Json.Token

/-!
# AgentContent.Json.Read

Reading a document from its text. A document has lists and objects at most `maxDepth` levels deep,
and nothing after it but spaces.
-/

namespace AgentContent
namespace Json

/-- Levels of lists and objects that a document may have. -/
def maxDepth : Nat := 127

mutual
/-- A value and the words after it, in at most `fuel` calls and with `depth` levels left. -/
def readValue (fuel depth : Nat) (tokens : List Token) : Option (Json × List Token) :=
  match fuel, tokens with
  | 0, _ => none
  | _ + 1, .literal v :: rest => some (v, rest)
  | _ + 1, .text s :: rest => some (.string s, rest)
  | _ + 1, .openArray :: .closeArray :: rest =>
    if depth = 0 then none else some (.array [], rest)
  | fuel + 1, .openArray :: rest =>
    if depth = 0 then none
    else
      match readItems fuel (depth - 1) rest with
      | none => none
      | some (items, rest) => some (.array items, rest)
  | _ + 1, .openObject :: .closeObject :: rest =>
    if depth = 0 then none else some (.object [], rest)
  | fuel + 1, .openObject :: rest =>
    if depth = 0 then none
    else
      match readMembers fuel (depth - 1) rest with
      | none => none
      | some (members, rest) => some (.object members, rest)
  | _ + 1, _ => none

/-- One item or more, up to the closing bracket. -/
def readItems (fuel depth : Nat) (tokens : List Token) : Option (List Json × List Token) :=
  match fuel with
  | 0 => none
  | fuel + 1 =>
    match readValue fuel depth tokens with
    | some (v, .closeArray :: rest) => some ([v], rest)
    | some (v, .comma :: rest) =>
      match readItems fuel depth rest with
      | none => none
      | some (items, rest) => some (v :: items, rest)
    | _ => none

/-- One member or more, up to the closing brace. -/
def readMembers (fuel depth : Nat) (tokens : List Token) :
    Option (List (String × Json) × List Token) :=
  match fuel, tokens with
  | fuel + 1, .text key :: .colon :: rest =>
    match readValue fuel depth rest with
    | some (v, .closeObject :: rest) => some ([(key, v)], rest)
    | some (v, .comma :: rest) =>
      match readMembers fuel depth rest with
      | none => none
      | some (members, rest) => some ((key, v) :: members, rest)
    | _ => none
  | _, _ => none
end

/-- The document of a list of words. Two calls a word suffice. -/
def ofTokens? (depth : Nat) (tokens : List Token) : Option Json :=
  match readValue (2 * tokens.length + 1) depth tokens with
  | some (v, []) => some v
  | _ => none

/-- The document of a text. -/
def ofText? (text : String) : Option Json :=
  (Token.scan text.toList).bind (ofTokens? maxDepth)

/-- The document of a text in bytes. -/
def ofBytes? (bytes : List UInt8) : Option Json :=
  (String.fromUTF8? ⟨bytes.toArray⟩).bind ofText?

end Json
end AgentContent
