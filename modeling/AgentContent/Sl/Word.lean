import AgentContent.Content.Basic
import AgentContent.Number.Shortest
import AgentContent.Sl.Token
import AgentContent.Time.Rfc3339

/-!
# AgentContent.Sl.Word

Words and the primitives that they stand for.

* `writeDate`, `readDate?`: dates as words, the digits of day and time around a letter, three places
  of the second, and a letter for universal time that a reader does not need.
* `wordValue`: a truth value, an integer, a float or a date if the word reads as one, else a string.
* `writePrimitive`: the text of a primitive; a string goes without quotes when it is a word that
  stands for itself.
-/

namespace AgentContent
namespace Sl

def writeDate (t : Instant) : List Char :=
  writeYear t.year ++ padded 2 t.month ++ padded 2 t.day ++ 'T' :: padded 2 t.hour ++
    padded 2 t.minute ++ padded 2 t.shownSecond ++ padded 3 (t.shownNano / 1000000) ++ ['Z']

/-- The word without its last character if that is the letter of universal time. -/
def dropZone (cs : List Char) : List Char :=
  if cs.getLast? = some 'Z' then cs.dropLast else cs

def readDate? (word : List Char) : Option Instant :=
  let body := dropZone word
  let field (start width : Nat) : Option Nat := readNat? ((body.drop start).take width)
  if body.length ≠ 18 || body[8]? ≠ some 'T' then none
  else do
    let year ← field 0 4
    let month ← field 4 2
    let day ← field 6 2
    let hour ← field 9 2
    let minute ← field 11 2
    let second ← field 13 2
    let milli ← field 15 3
    Instant.ofFields? year month day hour minute second (milli * 1000000)

/-- A digit, and nothing but digits, signs, points and exponent marks. -/
def looksNumeric (cs : List Char) : Bool :=
  cs.any Char.isDigit &&
    cs.all fun c => c.isDigit || c = '+' || c = '-' || c = '.' || c = 'e' || c = 'E'

def wordValue (word : String) : Primitive :=
  let cs := word.toList
  if word = "true" then .boolean true
  else if word = "false" then .boolean false
  else
    match readInt64? cs with
    | some n => .integer n
    | none =>
      match if looksNumeric cs then readFloat? cs else none with
      | some x => .float x
      | none =>
        match readDate? cs with
        | some t => .date t
        | none => .string word

/-- The characters can be written as a name: no mark of another element in front, no delimiter. -/
def isSymbol (cs : List Char) : Bool :=
  match cs with
  | [] => false
  | c :: _ => c != '?' && c != ':' && c != '#' && !cs.any isDelimiter

/-- The string is a word that stands for the string itself. -/
def isBareWord (s : String) : Bool :=
  isSymbol s.toList && wordValue s = .string s

def quoteChar (c : Char) : List Char :=
  if c = '"' || c = '\\' then ['\\', c] else [c]

/-- A string in quotes, quotes and backslashes in it behind a backslash. -/
def writeQuoted (s : String) : List Char :=
  '"' :: s.toList.flatMap quoteChar ++ ['"']

/-- All digits of a finite float, with a zero after the point of a whole number. -/
def writeFloat (x : Binary64) : List Char :=
  let text := FloatStyle.plain.write x
  if text.any (fun c => c = '.' || c = 'e' || c = 'E') then text else text ++ ['.', '0']

def writeBytes (bs : List UInt8) : List Char :=
  let payload := Base64.encode bs
  '#' :: (Nat.toDigits 10 payload.length ++ '"' :: payload)

/-- A byte sequence whose text would be longer than memory can be has none. -/
def writePrimitive : Primitive → Except EncodeError (List Char)
  | .string s => .ok (if isBareWord s then s.toList else writeQuoted s)
  | .boolean b => .ok (if b then "true" else "false").toList
  | .integer n => .ok (toString n).toList
  | .float x => if x.isFinite then .ok (writeFloat x) else .error (.notFinite x)
  | .date t => .ok (writeDate t)
  | .bytes bs =>
    if maxCapacity < (Base64.encode bs).length then .error .capacityOverflow
    else .ok (writeBytes bs)

end Sl
end AgentContent
