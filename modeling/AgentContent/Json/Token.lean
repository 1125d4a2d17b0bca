import AgentContent.Json.Basic

/-!
# AgentContent.Json.Token

The words of a document text: marks, literals, numbers and strings. `Token.scan` splits a text into
them and refuses it when some part is none.
-/

namespace AgentContent
namespace Json

inductive Token where
  | openArray
  | closeArray
  | openObject
  | closeObject
  | comma
  | colon
  | literal (value : Json)
  | text (value : String)

namespace Token

def isSpace (c : Char) : Bool :=
  c = ' ' || c = '\n' || c = '\t' || c = '\r'

/-- The code unit that four hexadecimal digits give. -/
def unit? (a b c d : Char) : Option Nat :=
  readHex? [a, b, c, d]

/-- The character of a code unit that is no half of a pair. -/
def charOfUnit? (u : Nat) : Option Char :=
  if 0xD800 ≤ u && u ≤ 0xDFFF then none else some (Char.ofNat u)

/-- The character of two code units that form a pair. -/
def charOfPair? (u v : Nat) : Option Char :=
  if 0xD800 ≤ u && u ≤ 0xDBFF && 0xDC00 ≤ v && v ≤ 0xDFFF then
    some (Char.ofNat (0x10000 + (u - 0xD800) * 0x400 + (v - 0xDC00)))
  else none

def simpleEscape? : Char → Option Char
  | '"' => some '"'
  | '\\' => some '\\'
  | '/' => some '/'
  | 'b' => some '\x08'
  | 'f' => some '\x0c'
  | 'n' => some '\n'
  | 'r' => some '\r'
  | 't' => some '\t'
  | _ => none

/-- The characters up to the closing quote, and the text after it. -/
def stringBody (done : List Char) : List Char → Option (List Char × List Char)
  | [] => none
  | '"' :: rest => some (done.reverse, rest)
  | '\\' :: 'u' :: a :: b :: c :: d :: '\\' :: 'u' :: e :: f :: g :: h :: rest =>
    match unit? a b c d with
    | none => none
    | some u =>
      match charOfUnit? u with
      | some x => stringBody (x :: done) ('\\' :: 'u' :: e :: f :: g :: h :: rest)
      | none =>
        match (unit? e f g h).bind (charOfPair? u) with
        | some x => stringBody (x :: done) rest
        | none => none
  | '\\' :: 'u' :: a :: b :: c :: d :: rest =>
    match (unit? a b c d).bind charOfUnit? with
    | some x => stringBody (x :: done) rest
    | none => none
  | '\\' :: e :: rest =>
    match simpleEscape? e with
    | some x => stringBody (x :: done) rest
    | none => none
  | c :: rest => if c.toNat < 32 || c = '\\' then none else stringBody (c :: done) rest

/-- The digits of a number that fit into an unsigned integer of 64 bits, and how many follow. -/
def significantDigits (n : Nat) : List Char → Nat × Nat
  | [] => (n, 0)
  | c :: cs =>
    if 10 * n + digitValue c < 0x10000000000000000 then significantDigits (10 * n + digitValue c) cs
    else (n, cs.length + 1)

/-- The number of a sign, whole digits, places after the point and a power of ten. Digits beyond
those that an unsigned integer of 64 bits holds only count for the magnitude. -/
def number? (negative : Bool) (whole : List Char) (places : Option (List Char))
    (power : Option Int) : Option Json :=
  let (n, dropped) := significantDigits 0 whole
  let signed (x : Binary64) : Json := .float (if negative then x.negate else x)
  match places, power with
  | none, none =>
    if dropped = 0 then
      if !negative then some (.integer n)
      else if n = 0 || 0x8000000000000000 < n then some (signed (.ofInt n))
      else some (.integer (-(n : Int)))
    else (scaledTen? n dropped).map signed
  | _, _ =>
    let places := places.getD []
    let (m, unused) := if dropped = 0 then significantDigits n places else (n, places.length)
    let used : Nat := places.length - unused
    let e := power.getD 0
    let e := if e < -0x80000000 then -0x80000000 else if 0x80000000 ≤ e then 0x7FFFFFFF else e
    (scaledTen? m ((dropped : Int) - used + e)).map signed

/-- A number and the text after it: no zero in front of other digits, digits on both sides of a
point, digits in an exponent. -/
def scanNumber (cs : List Char) : Option (Json × List Char) :=
  let (negative, body) :=
    match cs with
    | '-' :: r => (true, r)
    | r => (false, r)
  let whole := body.takeWhile Char.isDigit
  let rest := body.dropWhile Char.isDigit
  if whole.isEmpty || (whole.head? = some '0' && 1 < whole.length) then none
  else
    let fractional : Option (Option (List Char) × List Char) :=
      match rest with
      | '.' :: r =>
        let places := r.takeWhile Char.isDigit
        if places.isEmpty then none else some (some places, r.dropWhile Char.isDigit)
      | r => some (none, r)
    match fractional with
    | none => none
    | some (places, rest) =>
      let powered : Option (Option Int × List Char) :=
        match rest with
        | c :: r =>
          if c = 'e' || c = 'E' then
            let (down, r) := splitSign r
            match readNat? (r.takeWhile Char.isDigit) with
            | none => none
            | some e => some (some (if down then -(e : Int) else e), r.dropWhile Char.isDigit)
          else some (none, rest)
        | [] => some (none, [])
      match powered with
      | none => none
      | some (power, rest) => (number? negative whole places power).map fun v => (v, rest)

/-- The mark that a character is. -/
def mark? : Char → Option Token
  | '[' => some .openArray
  | ']' => some .closeArray
  | '\x7b' => some .openObject
  | '\x7d' => some .closeObject
  | ',' => some .comma
  | ':' => some .colon
  | _ => none

/-- The first word of a text that starts with no space, and the text after it. -/
def next (cs : List Char) : Option (Token × List Char) :=
  match cs with
  | [] => none
  | '"' :: rest => (stringBody [] rest).map fun r => (.text (String.ofList r.1), r.2)
  | 't' :: 'r' :: 'u' :: 'e' :: rest => some (.literal (.bool true), rest)
  | 'f' :: 'a' :: 'l' :: 's' :: 'e' :: rest => some (.literal (.bool false), rest)
  | 'n' :: 'u' :: 'l' :: 'l' :: rest => some (.literal .null, rest)
  | c :: rest =>
    match mark? c with
    | some t => some (t, rest)
    | none => (scanNumber cs).map fun r => (.literal r.1, r.2)

/-- All words of a text, in at most `fuel` steps. -/
def scanFrom (fuel : Nat) (done : List Token) (cs : List Char) : Option (List Token) :=
  match fuel with
  | 0 => none
  | fuel + 1 =>
    match cs.dropWhile isSpace with
    | [] => some done.reverse
    | rest =>
      match next rest with
      | none => none
      | some (t, rest) => scanFrom fuel (t :: done) rest

/-- The words of a text. Each of them has a character, so the steps suffice. -/
def scan (cs : List Char) : Option (List Token) :=
  scanFrom (cs.length + 1) [] cs

end Token

end Json
end AgentContent
