import AgentContent.Number.Numeral
import AgentContent.Text.Basic
import AgentContent.Time.Instant

/-!
# AgentContent.Time.Rfc3339

Instants as internet timestamps.

* `Instant.write`: four digits of the year, signed beyond them, as many groups of three places as
  the nanoseconds need, and a mark of the zone.
* `Instant.read?`: reads one in the strict form, `Instant.readLoose?` one with blanks between its
  parts, fields without leading zeros and a signed year.
-/

namespace AgentContent

/-- The decimal digits of a number, filled with zeros to a width. -/
def padded (width n : Nat) : List Char :=
  let digits := Nat.toDigits 10 n
  List.replicate (width - digits.length) '0' ++ digits

/-- Four digits; a sign in front of a year that has more or is negative. -/
def writeYear (year : Int) : List Char :=
  if 0 ≤ year && year ≤ 9999 then padded 4 year.toNat
  else (if year < 0 then '-' else '+') :: padded 4 year.natAbs

namespace Instant

/-- Places of the second: none, three, six or nine. -/
def writeFraction (nano : Nat) : List Char :=
  if nano = 0 then []
  else if nano % 1000000 = 0 then '.' :: padded 3 (nano / 1000000)
  else if nano % 1000 = 0 then '.' :: padded 6 (nano / 1000)
  else '.' :: padded 9 nano

def write (zone : List Char) (t : Instant) : List Char :=
  writeYear t.year ++ '-' :: padded 2 t.month ++ '-' :: padded 2 t.day ++ 'T' :: padded 2 t.hour ++
    ':' :: padded 2 t.minute ++ ':' :: padded 2 t.shownSecond ++ writeFraction t.shownNano ++ zone

/-- The form that displays show, with a numeric zone. -/
def toDisplay (t : Instant) : String :=
  String.ofList (t.write "+00:00".toList)

/-- The form of data documents, with the letter of universal time. -/
def toData (t : Instant) : String :=
  String.ofList (t.write ['Z'])

/-- As many digits as there are, from `least` to `most`. -/
def digits? (least most : Nat) (cs : List Char) : Option (Nat × List Char) :=
  let ds := (cs.take most).takeWhile Char.isDigit
  if ds.length < least then none else some (natOfDigits ds, cs.drop ds.length)

def char? (c : Char) : List Char → Option (List Char)
  | [] => none
  | d :: rest => if c = d then some rest else none

/-- The mark between day and time. -/
def separator? : List Char → Option (List Char)
  | [] => none
  | c :: rest => if c = 'T' || c = 't' || c = ' ' then some rest else none

/-- Nanoseconds after a point; digits beyond the ninth do not count. -/
def fraction? : List Char → Option (Nat × List Char)
  | '.' :: rest =>
    let ds := rest.takeWhile Char.isDigit
    if ds.isEmpty then none
    else
      let used := ds.take 9
      some (natOfDigits used * Nat.pow 10 (9 - used.length), rest.dropWhile Char.isDigit)
  | cs => some (0, cs)

/-- Minutes that a zone is ahead: a letter for none, or a sign, hours and minutes with what
`between` skips in their middle. -/
def zone? (between : List Char → Option (List Char)) : List Char → Option (Int × List Char)
  | [] => none
  | c :: rest =>
    if c = 'Z' || c = 'z' then some (0, rest)
    else if c = '+' || c = '-' || c = '−' then
      match digits? 2 2 rest with
      | none => none
      | some (hours, rest) =>
        match (between rest).bind (digits? 2 2) with
        | none => none
        | some (minutes, rest) =>
          if minutes < 60 then
            let ahead : Int := (60 * hours + minutes : Nat)
            some (if c = '+' then ahead else -ahead, rest)
          else none
    else none

/-- The instant of fields that are read in a zone. A second 60 is a leap second. -/
def ofZoned? (year : Int) (month day hour minute second nano : Nat) (ahead : Int) :
    Option Instant :=
  let leap := second = 60
  match ofFields? year month day hour minute (if leap then 59 else second)
      (if leap then 1000000000 + nano else nano) with
  | none => none
  | some t => if ahead.natAbs < 1440 then t.back? ahead else none

/-- Reads the strict form: fields of fixed width and a zone with a colon. -/
def read? (cs : List Char) : Option Instant := do
  let (year, cs) ← digits? 4 4 cs
  let (month, cs) ← (char? '-' cs).bind (digits? 2 2)
  let (day, cs) ← (char? '-' cs).bind (digits? 2 2)
  let (hour, cs) ← (separator? cs).bind (digits? 2 2)
  let (minute, cs) ← (char? ':' cs).bind (digits? 2 2)
  let (second, cs) ← (char? ':' cs).bind (digits? 2 2)
  let (nano, cs) ← fraction? cs
  let (ahead, cs) ← zone? (char? ':') cs
  if cs.isEmpty then ofZoned? year month day hour minute second nano ahead else none

/-- A number of at most `most` digits after any blanks. -/
def looseDigits? (most : Nat) (cs : List Char) : Option (Nat × List Char) :=
  digits? 1 most (trimStart cs)

/-- Four digits at most, or a sign and any number of digits. -/
def looseYear? (cs : List Char) : Option (Int × List Char) :=
  match trimStart cs with
  | '-' :: rest => (digits? 1 rest.length rest).map fun r => (-(r.1 : Int), r.2)
  | '+' :: rest => (digits? 1 rest.length rest).map fun r => (r.1, r.2)
  | rest => (digits? 1 4 rest).map fun r => (r.1, r.2)

def looseChar? (c : Char) (cs : List Char) : Option (List Char) :=
  char? c (trimStart cs)

/-- Three letters for universal time, or a zone with colons and blanks in its middle. -/
def looseZone? (cs : List Char) : Option (Int × List Char) :=
  if foldChars (cs.take 3) = "utc".toList then some (0, cs.drop 3)
  else zone? (fun r => some (r.dropWhile fun c => c = ':' || isBlank c)) cs

/-- Reads the form with blanks between the parts. -/
def readLoose? (cs : List Char) : Option Instant := do
  let (year, cs) ← looseYear? cs
  let (month, cs) ← (looseChar? '-' cs).bind (looseDigits? 2)
  let (day, cs) ← (looseChar? '-' cs).bind (looseDigits? 2)
  let (hour, cs) ← (separator? cs).bind (looseDigits? 2)
  let (minute, cs) ← (looseChar? ':' cs).bind (looseDigits? 2)
  let (second, cs) ← (looseChar? ':' cs).bind (looseDigits? 2)
  let (nano, cs) ← fraction? cs
  let (ahead, cs) ← looseZone? (trimStart cs)
  if (trimStart cs).isEmpty then ofZoned? year month day hour minute second nano ahead else none

end Instant

end AgentContent
