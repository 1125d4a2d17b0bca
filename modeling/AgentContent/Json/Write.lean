import AgentContent.Json.Basic

/-!
# AgentContent.Json.Write

The text of a document, compact or on indented lines.

* `Json.compact`: nothing between the parts.
* `Json.pretty`: an item or member a line, two blanks a level, empty lists and objects closed at once.
-/

namespace AgentContent
namespace Json

/-- Two hexadecimal digits after the two zeros of a control character. -/
def controlEscape (c : Char) : List Char :=
  ['\\', 'u', '0', '0', Nat.digitChar (c.toNat / 16), Nat.digitChar (c.toNat % 16)]

def stringChar (c : Char) : List Char :=
  match c with
  | '"' => ['\\', '"']
  | '\\' => ['\\', '\\']
  | '\x08' => ['\\', 'b']
  | '\t' => ['\\', 't']
  | '\n' => ['\\', 'n']
  | '\x0c' => ['\\', 'f']
  | '\r' => ['\\', 'r']
  | c => if c.toNat < 32 then controlEscape c else [c]

def writeString (s : String) : List Char :=
  '"' :: s.toList.flatMap stringChar ++ ['"']

/-- The text of a number; one that is not finite has none and is written as `null`. -/
def writeFloat (x : Binary64) : List Char :=
  if x.isFinite then FloatStyle.data.write x else "null".toList

def writeInt (n : Int) : List Char :=
  (toString n).toList

mutual
def write : Json → List Char
  | .null => "null".toList
  | .bool b => if b then "true".toList else "false".toList
  | .integer n => writeInt n
  | .float x => writeFloat x
  | .string s => writeString s
  | .array items => '[' :: writeItems items ++ [']']
  | .object members => '\x7b' :: writeMembers members ++ ['\x7d']

def writeItems : List Json → List Char
  | [] => []
  | [v] => v.write
  | v :: rest => v.write ++ ',' :: writeItems rest

def writeMembers : List (String × Json) → List Char
  | [] => []
  | [(k, v)] => writeString k ++ ':' :: v.write
  | (k, v) :: rest => writeString k ++ ':' :: v.write ++ ',' :: writeMembers rest
end

def newline (level : Nat) : List Char :=
  '\n' :: List.replicate (2 * level) ' '

mutual
def writePretty (level : Nat) : Json → List Char
  | .null => "null".toList
  | .bool b => if b then "true".toList else "false".toList
  | .integer n => writeInt n
  | .float x => writeFloat x
  | .string s => writeString s
  | .array [] => ['[', ']']
  | .array (v :: rest) =>
    '[' :: newline (level + 1) ++ v.writePretty (level + 1) ++
      writePrettyItems (level + 1) rest ++ newline level ++ [']']
  | .object [] => ['\x7b', '\x7d']
  | .object ((k, v) :: rest) =>
    '\x7b' :: newline (level + 1) ++ writeString k ++ ':' :: ' ' :: v.writePretty (level + 1) ++
      writePrettyMembers (level + 1) rest ++ newline level ++ ['\x7d']

def writePrettyItems (level : Nat) : List Json → List Char
  | [] => []
  | v :: rest => ',' :: newline level ++ v.writePretty level ++ writePrettyItems level rest

def writePrettyMembers (level : Nat) : List (String × Json) → List Char
  | [] => []
  | (k, v) :: rest =>
    ',' :: newline level ++ writeString k ++ ':' :: ' ' :: v.writePretty level ++
      writePrettyMembers level rest
end

def compact (v : Json) : String :=
  String.ofList v.write

def pretty (v : Json) : String :=
  String.ofList (v.writePretty 0)

end Json
end AgentContent
