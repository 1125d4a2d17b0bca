import AgentContent.Number.Binary64

/-!
# AgentContent.Number.Shortest

Writing floating-point numbers in decimal.

* `shortest`: the decimal with the fewest digits that reads back as the number, and of those the
  nearest to it.
* `FloatStyle`: how a decimal is laid out: where positional notation ends, which of two equally
  near decimals is taken, and what the exponent looks like.
* `FloatStyle.write`: the text of a number.
-/

namespace AgentContent

/-- The number `digits * 10 ^ exponent`. -/
structure Decimal where
  digits : Nat
  exponent : Int
  deriving DecidableEq

/-- What is taken when a number lies halfway between two decimals. -/
inductive Tie where
  | up
  | even
  deriving DecidableEq

/-- The greatest `k` with `10 ^ k ≤ num / den`, for a positive fraction. -/
def floorLogTen (num den : Nat) : Int :=
  if den ≤ num then ((Nat.toDigits 10 (num / den)).length : Int) - 1
  else
    let k := (Nat.toDigits 10 (den / num)).length
    if den ≤ num * Nat.pow 10 (k - 1) then -((k : Int) - 1) else -(k : Int)

/-- The digits without the zeros at their end, which go into the exponent. -/
def Decimal.strip (fuel : Nat) (d : Decimal) : Decimal :=
  match fuel with
  | 0 => d
  | fuel + 1 =>
    if d.digits != 0 && d.digits % 10 = 0 then
      Decimal.strip fuel ⟨d.digits / 10, d.exponent + 1⟩
    else d

/-- The point of the grid of multiples of `10 ^ p` nearest to `x`, if one of them reads back as
`x`. A decimal reads back when it lies between the midpoints to the neighbours of `x`, which count
themselves when the significand is even. -/
def onGrid? (tie : Tie) (x : Binary64) (p : Int) : Option Nat :=
  let m := x.significand
  let q := x.scale - 2
  let unit := Nat.pow 10 p.toNat * Nat.pow 2 (-q).toNat
  let weight := Nat.pow 2 q.toNat * Nat.pow 10 (-p).toNat
  let value := 4 * m * weight
  let low := (if m = Binary64.hiddenUnit && 1 < x.exponentField then 4 * m - 1 else 4 * m - 2) * weight
  let high := (4 * m + 2) * weight
  let readsBack (c : Nat) : Bool :=
    if m % 2 = 0 then low ≤ c * unit && c * unit ≤ high else low < c * unit && c * unit < high
  let below := value / unit
  let above := below + 1
  match readsBack below, readsBack above with
  | false, false => none
  | true, false => some below
  | false, true => some above
  | true, true =>
    let down := value - below * unit
    let up := above * unit - value
    if down < up then some below
    else if up < down then some above
    else
      match tie with
      | .up => some above
      | .even => some (if below % 2 = 0 then below else above)

/-- The shortest decimal that reads back as a finite number, without its sign. -/
def shortest (tie : Tie) (x : Binary64) : Decimal :=
  if x.isZero then ⟨0, 0⟩
  else
    let (num, den) := x.ratio
    let k := floorLogTen num den
    let found := (List.range 17).findSome? fun (n : Nat) =>
      (onGrid? tie x (k - n)).map fun c => Decimal.strip 18 ⟨c, k - n⟩
    found.getD ⟨0, 0⟩

/-- How numbers are laid out. -/
structure FloatStyle where
  /-- Least power of ten of a first digit that is written positionally; none: all are. -/
  lowest : Option Int
  /-- Least power of ten of a first digit that is no longer written positionally. -/
  beyond : Option Int
  /-- Whole numbers are written with a zero after the point. -/
  pointZero : Bool
  /-- A positive exponent has its sign. -/
  plusSign : Bool
  tie : Tie

namespace FloatStyle

/-- Digits with a point after the first `point` of them. -/
def positional (style : FloatStyle) (digits : List Char) (point : Int) : List Char :=
  if point ≤ 0 then '0' :: '.' :: List.replicate (-point).toNat '0' ++ digits
  else if (digits.length : Int) ≤ point then
    digits ++ List.replicate (point.toNat - digits.length) '0' ++
      (if style.pointZero then ['.', '0'] else [])
  else digits.take point.toNat ++ '.' :: digits.drop point.toNat

/-- A first digit, the others after a point, and a power of ten. -/
def scientific (style : FloatStyle) (digits : List Char) (exponent : Int) : List Char :=
  let mantissa :=
    match digits with
    | [] => []
    | [d] => [d]
    | d :: ds => d :: '.' :: ds
  let sign := if exponent < 0 then ['-'] else if style.plusSign then ['+'] else []
  mantissa ++ 'e' :: sign ++ Nat.toDigits 10 exponent.natAbs

/-- The text of a number without its sign. -/
def magnitude (style : FloatStyle) (x : Binary64) : List Char :=
  if x.isNaN then "NaN".toList
  else if !x.isFinite then "inf".toList
  else if x.isZero then '0' :: (if style.pointZero then ['.', '0'] else [])
  else
    let d := shortest style.tie x
    let digits := Nat.toDigits 10 d.digits
    let first : Int := d.exponent + digits.length - 1
    if style.lowest.all (· ≤ first) && style.beyond.all (first < ·) then
      style.positional digits (first + 1)
    else style.scientific digits first

def write (style : FloatStyle) (x : Binary64) : List Char :=
  if x.isNegative && !x.isNaN then '-' :: style.magnitude x else style.magnitude x

/-- Displayed values: positional from 0.0001 and below `10 ^ 16`, a half goes up. -/
def display : FloatStyle := ⟨some (-4), some 16, true, false, .up⟩

/-- All digits and never an exponent, a half goes up. -/
def plain : FloatStyle := ⟨none, none, false, false, .up⟩

/-- Data documents: positional from 0.00001 and below `10 ^ 16`, exponents have a sign, a half goes
to the even digit. -/
def data : FloatStyle := ⟨some (-5), some 16, true, true, .even⟩

end FloatStyle

end AgentContent
