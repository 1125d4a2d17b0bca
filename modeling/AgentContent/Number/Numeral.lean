import AgentContent.Number.Binary64

/-!
# AgentContent.Number.Numeral

Reading numerals.

* `readNat?`, `readInt?`: decimal integers, the second with an optional sign.
* `readFloat?`: a sign, digits around a point, and a power of ten, read as the nearest number;
  besides these the words for infinity and for no number.
* `scaledTen?`: digits and a power of ten combined by rounded products and quotients, which is how
  data documents read their fractions.
* `readHex?`: hexadecimal digits of either case.
-/

namespace AgentContent

def digitValue (c : Char) : Nat :=
  c.toNat - '0'.toNat

/-- The value of decimal digits. -/
def natOfDigits (cs : List Char) : Nat :=
  cs.foldl (fun n c => 10 * n + digitValue c) 0

/-- One digit or more, and nothing else. -/
def readNat? (cs : List Char) : Option Nat :=
  if cs.isEmpty || !cs.all Char.isDigit then none else some (natOfDigits cs)

/-- The sign in front of a numeral, and the rest. -/
def splitSign : List Char → Bool × List Char
  | '-' :: cs => (true, cs)
  | '+' :: cs => (false, cs)
  | cs => (false, cs)

def readInt? (cs : List Char) : Option Int :=
  let (negative, rest) := splitSign cs
  match readNat? rest with
  | none => none
  | some n => some (if negative then -(n : Int) else n)

def leastInt64 : Int := -0x8000000000000000
def greatestInt64 : Int := 0x7FFFFFFFFFFFFFFF

/-- The integer is one of those that 64 bits hold. -/
def fitsInt64 (n : Int) : Bool :=
  leastInt64 ≤ n && n ≤ greatestInt64

/-- An integer of 64 bits. -/
def readInt64? (cs : List Char) : Option Int :=
  match readInt? cs with
  | none => none
  | some n => if fitsInt64 n then some n else none

/-- The power of ten after the digits: nothing, or a marker and a signed integer. -/
def readExponent? : List Char → Option Int
  | [] => some 0
  | c :: cs => if c = 'e' || c = 'E' then readInt? cs else none

def foldChars (cs : List Char) : List Char :=
  cs.map Char.toLower

def readFloat? (cs : List Char) : Option Binary64 :=
  let (negative, body) := splitSign cs
  let word := foldChars body
  if word = "inf".toList || word = "infinity".toList then some (.infinity negative)
  else if word = "nan".toList then some (.nan negative)
  else
    let whole := body.takeWhile Char.isDigit
    let afterWhole := body.dropWhile Char.isDigit
    let (places, rest) :=
      match afterWhole with
      | '.' :: r => (r.takeWhile Char.isDigit, r.dropWhile Char.isDigit)
      | r => ([], r)
    if whole.isEmpty && places.isEmpty then none
    else
      match readExponent? rest with
      | none => none
      | some e => some (.ofDecimal negative (natOfDigits (whole ++ places)) (e - places.length))

/-- Digits times a power of ten: the digits are rounded first, then each product with or quotient
by a power of ten that is itself a number. Nothing when the result is beyond every number. -/
def scaledTen? (digits : Nat) (exponent : Int) : Option Binary64 :=
  let x := Binary64.ofInt digits
  let ten (k : Nat) := Binary64.ofDecimal false 1 k
  if x.isZero then some x
  else if 308 < exponent then none
  else if 0 ≤ exponent then
    let y := x.times (ten exponent.toNat)
    if y.isFinite then some y else none
  else if -308 ≤ exponent then some (x.dividedBy (ten (-exponent).toNat))
  else if -616 ≤ exponent then some ((x.dividedBy (ten 308)).dividedBy (ten (-exponent - 308).toNat))
  else some (.zero false)

/-! ## Hexadecimal numerals -/

def hexValue? (c : Char) : Option Nat :=
  if c.isDigit then some (c.toNat - '0'.toNat)
  else if 'a' ≤ c && c ≤ 'f' then some (c.toNat - 'a'.toNat + 10)
  else if 'A' ≤ c && c ≤ 'F' then some (c.toNat - 'A'.toNat + 10)
  else none

/-- The number that digits write after the digits of another one. -/
def readHexAfter? (n : Nat) : List Char → Option Nat
  | [] => some n
  | c :: rest =>
    match hexValue? c with
    | none => none
    | some d => readHexAfter? (16 * n + d) rest

def readHex? (cs : List Char) : Option Nat :=
  readHexAfter? 0 cs

end AgentContent
