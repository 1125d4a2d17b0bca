/-!
# AgentContent.Number.Binary64

Floating-point numbers in the 64-bit binary format, kept as their bit pattern so that equality is
equality of bits: a NaN equals itself and the two zeros differ.

A finite number is `significand * 2 ^ scale`, negated when the top bit is set.

* `ofRatio`: the number nearest to a fraction, a half going to the even neighbour.
* `times`, `dividedBy`: product and quotient of finite numbers, rounded once.
-/

namespace AgentContent

structure Binary64 where
  bits : UInt64
  deriving DecidableEq, Inhabited

namespace Binary64

/-- The sign bit: `2 ^ 63`. -/
def signUnit : Nat := 0x8000000000000000

/-- The bit in front of the fraction, which is not stored: `2 ^ 52`. -/
def hiddenUnit : Nat := 0x10000000000000

def isNegative (x : Binary64) : Bool :=
  signUnit ≤ x.bits.toNat

/-- The biased exponent: 11 bits. -/
def exponentField (x : Binary64) : Nat :=
  x.bits.toNat / hiddenUnit % 2048

def fraction (x : Binary64) : Nat :=
  x.bits.toNat % hiddenUnit

def isFinite (x : Binary64) : Bool :=
  x.exponentField != 2047

def isNaN (x : Binary64) : Bool :=
  x.exponentField == 2047 && x.fraction != 0

def isZero (x : Binary64) : Bool :=
  x.exponentField == 0 && x.fraction == 0

def significand (x : Binary64) : Nat :=
  if x.exponentField = 0 then x.fraction else x.fraction + hiddenUnit

def scale (x : Binary64) : Int :=
  if x.exponentField = 0 then -1074 else (x.exponentField : Int) - 1075

/-- A sign bit and the 63 bits of a magnitude. -/
def ofMagnitude (negative : Bool) (magnitude : Nat) : Binary64 :=
  ⟨UInt64.ofNat (if negative then signUnit + magnitude else magnitude)⟩

def zero (negative : Bool) : Binary64 :=
  ofMagnitude negative 0

def infinity (negative : Bool) : Binary64 :=
  ofMagnitude negative (2047 * hiddenUnit)

def nan (negative : Bool) : Binary64 :=
  ofMagnitude negative (2047 * hiddenUnit + hiddenUnit / 2)

/-- The integer nearest to a fraction, a half going to the even one. -/
def roundHalfEven (num den : Nat) : Nat :=
  let whole := num / den
  let rest := num % den
  if 2 * rest < den then whole
  else if den < 2 * rest then whole + 1
  else whole + whole % 2

/-- A fraction multiplied by a power of two. -/
def scaleTwo (num den : Nat) (e : Int) : Nat × Nat :=
  if 0 ≤ e then (num * Nat.pow 2 e.toNat, den) else (num, den * Nat.pow 2 (-e).toNat)

/-- The greatest `k` with `2 ^ k ≤ num / den`, for a positive fraction. -/
def floorLogTwo (num den : Nat) : Int :=
  let guess : Int := (Nat.log2 num : Int) - (Nat.log2 den : Int)
  let (a, b) := scaleTwo num den (-guess)
  if a < b then guess - 1 else guess

/-- The number nearest to a fraction, a half going to the even significand, beyond the greatest
finite number infinity. -/
def ofRatio (negative : Bool) (num den : Nat) : Binary64 :=
  if num = 0 then zero negative
  else
    let e : Int := max (floorLogTwo num den - 52) (-1074)
    let (a, b) := scaleTwo num den (-e)
    let magnitude := (e + 1074).toNat * hiddenUnit + roundHalfEven a b
    ofMagnitude negative (min magnitude (2047 * hiddenUnit))

def ofInt (n : Int) : Binary64 :=
  ofRatio (n < 0) n.natAbs 1

/-- The magnitude of a finite number as a fraction. -/
def ratio (x : Binary64) : Nat × Nat :=
  scaleTwo x.significand 1 x.scale

/-- The rounded product of the magnitudes of finite numbers. -/
def times (x y : Binary64) : Binary64 :=
  let (a, b) := x.ratio
  let (c, d) := y.ratio
  ofRatio false (a * c) (b * d)

/-- The rounded quotient of the magnitudes of finite numbers, for a divisor other than zero. -/
def dividedBy (x y : Binary64) : Binary64 :=
  let (a, b) := x.ratio
  let (c, d) := y.ratio
  ofRatio false (a * d) (b * c)

def negate (x : Binary64) : Binary64 :=
  ⟨x.bits ^^^ UInt64.ofNat signUnit⟩

/-- The number nearest to `digits * 10 ^ exponent`. Numbers of `10 ^ 310` and more are beyond every
finite number and those below `10 ^ (-330)` round to zero, whatever their digits are. -/
def ofDecimal (negative : Bool) (digits : Nat) (exponent : Int) : Binary64 :=
  let point : Int := exponent + (Nat.toDigits 10 digits).length
  if digits = 0 || point < -330 then zero negative
  else if 310 < point then infinity negative
  else if 0 ≤ exponent then ofRatio negative (digits * Nat.pow 10 exponent.toNat) 1
  else ofRatio negative digits (Nat.pow 10 (-exponent).toNat)

end Binary64

end AgentContent
