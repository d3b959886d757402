import BlockProgram.Number.Shortest

/-!
# Writing a number in decimal

The digits of a finite number are always the fewest that read back; how they are laid out is
a decision of each format and is kept in one record, `Layout`:

* `Layout.text` is the layout of values in program text: `1.5`, `1e-05`, `1e+16`;
* `Layout.document` is the layout of saved programs: `1.5`, `1e-7`, `1e16`.
-/

namespace BlockProgram

/-- How the digits of a finite number are laid out. -/
structure Layout where
  /-- the smallest exponent of the first digit that is still written positionally -/
  lowest : Int
  /-- the largest such exponent -/
  highest : Int
  /-- whether a positive exponent is written with its sign -/
  plusSign : Bool
  /-- the least number of digits of an exponent -/
  exponentWidth : Nat
  deriving DecidableEq, Repr

namespace Layout

/-- Values in program text: positional from `0.0001` up to sixteen digits before the point;
an exponent has a sign and two digits. -/
def text : Layout := ⟨-4, 15, true, 2⟩

/-- Saved programs: positional from `0.00001` up to sixteen digits before the point; an
exponent has no plus and no padding. -/
def document : Layout := ⟨-5, 15, false, 1⟩

/-- An exponent with its mark. -/
def exponent (l : Layout) (e : Int) : String :=
  let digits := (Nat.repr e.natAbs)
  let padding := String.ofList (List.replicate (l.exponentWidth - digits.length) '0')
  let sign := if e < 0 then "-" else if l.plusSign then "+" else ""
  "e" ++ sign ++ padding ++ digits

/-- The decimal `n · 10 ^ place` without sign. A positional number always has a point and a
digit after it; a number with an exponent has a point only before further digits. -/
def magnitude (l : Layout) (n : Nat) (place : Int) : String :=
  let digits := Nat.toDigits 10 n
  let first : Int := place + digits.length - 1
  if l.lowest ≤ first ∧ first ≤ l.highest then
    if 0 ≤ place then
      String.ofList (digits ++ List.replicate place.toNat '0') ++ ".0"
    else if 0 ≤ first then
      let whole := (first + 1).toNat
      String.ofList (digits.take whole ++ '.' :: digits.drop whole)
    else
      String.ofList ('0' :: '.' :: (List.replicate (-first - 1).toNat '0' ++ digits))
  else
    let mantissa :=
      match digits with
      | d :: [] => [d]
      | d :: rest => d :: '.' :: rest
      | [] => []
    String.ofList mantissa ++ l.exponent first

/-- The text of a finite number; infinities and not-a-number have none. Zero keeps its sign. -/
def write? (l : Layout) (x : Float) : Option String :=
  (Binary.parts? x).map fun p =>
    let sign := if p.negative then "-" else ""
    if p.mantissa = 0 then sign ++ "0.0"
    else
      let (n, place) := Shortest.decimal p
      sign ++ l.magnitude n place

end Layout

/-- The names of the numbers that have no digits. -/
structure SpecialNames where
  notANumber : String
  infinity : String
  negativeInfinity : String
  deriving DecidableEq, Repr

/-- The text of any number: digits in the given layout, or the name of a special number. -/
def SpecialNames.write (names : SpecialNames) (l : Layout) (x : Float) : String :=
  match l.write? x with
  | some s => s
  | none =>
    if x.isNaN then names.notANumber
    else if Binary.isNegative x then names.negativeInfinity
    else names.infinity

/-- The text of a number in program text. -/
def Layout.textOf (x : Float) : String :=
  SpecialNames.write ⟨"nan", "inf", "-inf"⟩ Layout.text x

/-- A number rounded to one place after the point, a tie on the exact binary value going to
the even digit. Zero and numbers that round to it keep their sign. -/
def Layout.onePlace (x : Float) : String :=
  match Binary.parts? x with
  | none => if x.isNaN then "nan" else if Binary.isNegative x then "-inf" else "inf"
  | some p =>
    let tenths := Binary.roundDiv (10 * p.mantissa * 2 ^ p.exponent.toNat) (2 ^ (-p.exponent).toNat)
    (if p.negative then "-" else "") ++ Nat.repr (tenths / 10) ++ "." ++ Nat.repr (tenths % 10)

end BlockProgram
