/-!
# Binary64 numbers in exact arithmetic

A `Float` is taken apart into a sign, a whole mantissa and a power of two, and put together
again from a quotient of natural numbers. Everything in between is arithmetic on `Nat` and
`Int`, so that a result can be reasoned about without rounding:

* `Binary.parts?` reads the parts of a finite number: its value is `± mantissa · 2 ^ exponent`;
* `Binary.ofRatio` is the number nearest to a quotient, a tie going to the even mantissa;
* `Binary.floor?`, `Binary.compareInt?` and `Binary.modulo` are exact.
-/

-- powers are those of the core library, also where other instances of them are in scope
attribute [instance (2000), default_instance (20000)] instPowNat

namespace BlockProgram.Binary

/-- A finite number taken apart: its value is `± mantissa · 2 ^ exponent`. -/
structure Parts where
  /-- whether the sign bit is set; zero has a sign too -/
  negative : Bool
  /-- the significand as a whole number, below `2 ^ 53` -/
  mantissa : Nat
  /-- the weight of the last place, `-1074` or more -/
  exponent : Int
  deriving DecidableEq, Repr

/-- The weight of the last place of the smallest positive number. -/
def minExponent : Int := -1074

/-- The bits of positive infinity; every larger magnitude rounds to it. -/
def infinityBits : Nat := 2047 * 2 ^ 52

/-- The parts of a finite number; infinities and not-a-number have none. -/
def parts? (x : Float) : Option Parts :=
  let bits := x.toBits.toNat
  let field : Nat := bits / 2 ^ 52 % 2048
  let fraction : Nat := bits % 2 ^ 52
  let negative := decide (2 ^ 63 ≤ bits)
  if field = 2047 then none
  else if field = 0 then some ⟨negative, fraction, minExponent⟩
  else some ⟨negative, fraction + 2 ^ 52, (field : Int) - 1075⟩

/-- A number is finite if it has parts. -/
def isFinite (x : Float) : Bool := (parts? x).isSome

/-- The sign bit, also of zero. -/
def isNegative (x : Float) : Bool := decide (2 ^ 63 ≤ x.toBits.toNat)

/-- The number with the given magnitude bits and sign. -/
def ofMagnitude (negative : Bool) (bits : Nat) : Float :=
  Float.ofBits (UInt64.ofNat (if negative then bits + 2 ^ 63 else bits))

/-- Positive or negative infinity. -/
def infinity (negative : Bool) : Float := ofMagnitude negative infinityBits

/-- The quotient rounded to the nearest natural number, a tie going to the even one. -/
def roundDiv (num den : Nat) : Nat :=
  let quotient := num / den
  let twice := 2 * (num % den)
  if twice < den then quotient
  else if den < twice then quotient + 1
  else quotient + quotient % 2

/-- The weight of the last place at which `num / den` has a mantissa of 53 bits, but never
below the smallest one. -/
def lastPlace (num den : Nat) : Int :=
  let guess := (num.log2 : Int) - den.log2 - 52
  let tooHigh := num * 2 ^ (-guess).toNat < den * 2 ^ guess.toNat * 2 ^ 52
  max minExponent (if tooHigh then guess - 1 else guess)

/-- The magnitude bits of the number nearest to `num / den`.

At the last place `q` the rounded mantissa `m` has the bits `(q + 1074) · 2 ^ 52 + m`: for a
mantissa below `2 ^ 52` this is a subnormal number, and a mantissa that rounds up to `2 ^ 53`
carries into the exponent field. -/
def nearestBits (num den : Nat) : Nat :=
  if num = 0 then 0
  else
    let q := lastPlace num den
    let mantissa := roundDiv (num * 2 ^ (-q).toNat) (den * 2 ^ q.toNat)
    min infinityBits ((q - minExponent).toNat * 2 ^ 52 + mantissa)

/-- The number nearest to `± num / den`; infinite when the quotient is out of range. -/
def ofRatio (negative : Bool) (num den : Nat) : Float :=
  ofMagnitude negative (nearestBits num den)

/-- The number with the given parts, rounded if they are no binary64 number. -/
def ofParts (p : Parts) : Float :=
  ofRatio p.negative (p.mantissa * 2 ^ p.exponent.toNat) (2 ^ (-p.exponent).toNat)

/-- The number nearest to a whole number, or `none` when that would be infinite. -/
def ofInt? (n : Int) : Option Float :=
  let bits := nearestBits n.natAbs 1
  if bits = infinityBits then none else some (ofMagnitude (n < 0) bits)

namespace Parts

/-- The mantissa with its sign. -/
def signed (p : Parts) : Int := if p.negative then -(p.mantissa : Int) else p.mantissa

/-- The largest whole number not above the value. -/
def floor (p : Parts) : Int :=
  if 0 ≤ p.exponent then p.signed * 2 ^ p.exponent.toNat
  else p.signed.fdiv (2 ^ (-p.exponent).toNat)

/-- Whether the value is a whole number. -/
def isWhole (p : Parts) : Bool :=
  decide (0 ≤ p.exponent) || p.mantissa % 2 ^ (-p.exponent).toNat == 0

/-- The value compared with a whole number, exactly. -/
def compareInt (p : Parts) (n : Int) : Ordering :=
  compare (p.signed * 2 ^ p.exponent.toNat) (n * 2 ^ (-p.exponent).toNat)

end Parts

/-- The largest whole number not above a finite number. -/
def floor? (x : Float) : Option Int := (parts? x).map Parts.floor

/-- The whole number that a float equals, if it is one. -/
def whole? (x : Float) : Option Int :=
  match parts? x with
  | some p => if p.isWhole then some p.floor else none
  | none => none

/-- The order of a float and a whole number, exactly; not-a-number has none. -/
def compareInt? (x : Float) (n : Int) : Option Ordering :=
  match parts? x with
  | some p => some (p.compareInt n)
  | none =>
    if x == infinity false then some .gt
    else if x == infinity true then some .lt
    else none

/-- The remainder of the quotient cut off at the point, with the sign of `x`, for finite
numbers with `y ≠ 0`. It is exact: both are counted in units of the smaller last place. -/
def Parts.truncatedRemainder (x y : Parts) : Parts :=
  let unit := min x.exponent y.exponent
  let a := x.mantissa * 2 ^ (x.exponent - unit).toNat
  let b := y.mantissa * 2 ^ (y.exponent - unit).toNat
  ⟨x.negative, a % b, unit⟩

/-- The remainder of floored division for `y ≠ 0`: it has the sign of `y`, also when it is
zero. An infinite `x` has none; for an infinite `y` it is `x`, moved by `y` if the signs
differ. -/
def modulo (x y : Float) : Float :=
  let remainder :=
    match parts? x, parts? y with
    | some p, some q => ofParts (p.truncatedRemainder q)
    | some _, none => if y.isNaN then y else x
    | none, _ => infinity false - infinity false
  if remainder == 0 then ofMagnitude (isNegative y) 0
  else if (y < 0) != (remainder < 0) then remainder + y
  else remainder

end BlockProgram.Binary
