import BlockProgram.Number.Binary

/-!
# Numbers of a program

A number is a whole number of any size or a binary64 number. Whole numbers stay whole under
`+`, `-`, `*` and `%`; as soon as one operand is a float the other becomes one too, and that
fails for a whole number beyond the range of floats. A quotient is always a float.

Comparisons between the two kinds are exact. `Number.normalize` turns a whole float of up to
`2 ^ 53` back into a whole number.
-/

namespace BlockProgram

/-- A whole number of any size or a binary64 number. -/
inductive Number where
  | int (n : Int)
  | float (x : Float)
  deriving DecidableEq

namespace Number

/-- The nearest float; `none` for a whole number beyond the range of floats. -/
def toFloat? : Number → Option Float
  | .int n => Binary.ofInt? n
  | .float x => some x

/-- Both numbers as floats. -/
def floats? (a b : Number) : Option (Float × Float) :=
  match a.toFloat?, b.toFloat? with
  | some x, some y => some (x, y)
  | _, _ => none

/-- An operation done in whole numbers where both operands are whole and in floats
otherwise. -/
def combine? (onInt : Int → Int → Int) (onFloat : Float → Float → Float) :
    Number → Number → Option Number
  | .int a, .int b => some (.int (onInt a b))
  | a, b => (floats? a b).map fun (x, y) => .float (onFloat x y)

/-- The sum. -/
def add? : Number → Number → Option Number := combine? (· + ·) (· + ·)

/-- The difference. -/
def sub? : Number → Number → Option Number := combine? (· - ·) (· - ·)

/-- The product. -/
def mul? : Number → Number → Option Number := combine? (· * ·) (· * ·)

/-- The remainder of floored division by a number other than zero: it has the sign of the
divisor. -/
def mod? : Number → Number → Option Number := combine? Int.fmod Binary.modulo

/-- The quotient by a number other than zero, correctly rounded also for large whole
numbers. -/
def div? : Number → Number → Option Number
  | .int a, .int b =>
    let q := Binary.ofRatio ((a < 0) != (b < 0)) a.natAbs b.natAbs
    if Binary.isFinite q then some (.float q) else none
  | a, b => (floats? a b).map fun (x, y) => .float (x / y)

/-- The order of two floats; not-a-number has none. -/
def compareFloats? (x y : Float) : Option Ordering :=
  if x < y then some .lt
  else if y < x then some .gt
  else if x == y then some .eq
  else none

/-- The exact order of two numbers; not-a-number has none. -/
def compare? : Number → Number → Option Ordering
  | .int a, .int b => some (compare a b)
  | .float x, .int n => Binary.compareInt? x n
  | .int n, .float x => (Binary.compareInt? x n).map Ordering.swap
  | .float x, .float y => compareFloats? x y

/-- Numeric equality, across the two kinds. -/
def same (a b : Number) : Bool := compare? a b == some .eq

/-- Whether a number equals zero. -/
def isZero (a : Number) : Bool := same a (.int 0)

/-- The largest whole float that `normalize` turns into a whole number. -/
def exactLimit : Nat := 2 ^ 53

/-- A whole float of magnitude up to `exactLimit` as a whole number; any other number is
kept. -/
def normalize : Number → Number
  | .int n => .int n
  | .float x =>
    match Binary.whole? x with
    | some n => if n.natAbs ≤ exactLimit then .int n else .float x
    | none => .float x

/-- The largest whole number not above a finite number. -/
def floor? : Number → Option Int
  | .int n => some n
  | .float x => Binary.floor? x

/-- The whole part of a finite number, cut off toward zero. -/
def truncate? : Number → Option Int
  | .int n => some n
  | .float x =>
    (Binary.parts? x).map fun p =>
      if p.negative then -({ p with negative := false }).floor else p.floor

/-- The largest finite float. -/
def floatMax : Nat := (2 ^ 53 - 1) * 2 ^ 971

/-- A finite number within the range of floats. -/
def inRange : Number → Bool
  | .int n => n.natAbs ≤ floatMax
  | .float x => Binary.isFinite x

end Number

end BlockProgram
