import BlockProgram.Number.Binary
import BlockProgram.Text.Blank
import BlockProgram.Text.Digit

/-!
# Reading decimal numbers

The value of a decimal is the nearest binary64 number, found in exact arithmetic. Around that
stand the grammars in which decimals occur:

* `Decimal.real?` reads a plain real: sign, digits with or without a point, exponent, or one of
  the names `inf`, `infinity` and `nan` in any case;
* `Decimal.typed?` and `Decimal.typedInt?` read numbers as people type them: with blanks around,
  digits of any script, and single underscores between digits;
* `Decimal.field?` reads a text given for a coordinate of a saved block.
-/

namespace BlockProgram.Decimal

open Text

/-- The number nearest to `± n · 10 ^ exponent`, where `n` has `width` digits at most. An
exponent far out of range is not raised to a power: the result is infinite or zero. -/
def nearest (negative : Bool) (n width : Nat) (exponent : Int) : Float :=
  if n = 0 then Binary.ofMagnitude negative 0
  else if exponent > 400 then Binary.infinity negative
  else if exponent + width < -400 then Binary.ofMagnitude negative 0
  else Binary.ofRatio negative (n * 10 ^ exponent.toNat) (10 ^ (-exponent).toNat)

/-- The ASCII digits. -/
def isAsciiDigit (c : Char) : Bool := '0' ≤ c && c ≤ '9'

/-- A sign in front, if there is one: whether it is a minus, and what follows. -/
def takeSign : List Char → Bool × List Char
  | '-' :: rest => (true, rest)
  | '+' :: rest => (false, rest)
  | rest => (false, rest)

/-- The exponent of a decimal, which must be all that is left: nothing, or `e` with a whole
number. -/
def exponent? : List Char → Option Int
  | [] => some 0
  | mark :: rest =>
    if mark == 'e' || mark == 'E' then
      let (negative, digits) := takeSign rest
      if digits.isEmpty || !digits.all isAsciiDigit then none
      else
        let n : Int := readDigits digits
        some (if negative then -n else n)
    else none

/-- The digits before and after the point, and what follows; there has to be a digit. -/
def significand? (cs : List Char) : Option (List Char × List Char × List Char) :=
  let whole := cs.takeWhile isAsciiDigit
  let (fraction, rest) :=
    match cs.dropWhile isAsciiDigit with
    | '.' :: more => (more.takeWhile isAsciiDigit, more.dropWhile isAsciiDigit)
    | other => ([], other)
  if whole.isEmpty && fraction.isEmpty then none else some (whole, fraction, rest)

/-- An unsigned decimal with ASCII digits. -/
def unsigned? (negative : Bool) (cs : List Char) : Option Float :=
  match significand? cs with
  | none => none
  | some (whole, fraction, rest) =>
    (exponent? rest).map fun e =>
      let digits := whole ++ fraction
      nearest negative (readDigits digits) digits.length (e - fraction.length)

/-- The special numbers by name. -/
def named? (negative : Bool) (cs : List Char) : Option Float :=
  let name := String.ofList (cs.map Char.toLower)
  if name == "inf" || name == "infinity" then some (Binary.infinity negative)
  else if name == "nan" then some (Binary.infinity false - Binary.infinity false)
  else none

/-- A real with an optional sign, in ASCII digits or by name. -/
def real? (cs : List Char) : Option Float :=
  let (negative, body) := takeSign cs
  match named? negative body with
  | some x => some x
  | none => unsigned? negative body

/-- The text without its underscores, if each of them stands between two digits. -/
def joinDigitGroups? : List Char → Option (List Char)
  | [] => some []
  | '_' :: _ => none
  | c :: '_' :: d :: rest =>
    if isAsciiDigit c && isAsciiDigit d then
      (joinDigitGroups? (d :: rest)).map (c :: ·)
    else none
  | c :: rest => (joinDigitGroups? rest).map (c :: ·)

/-- A typed number before it is read: blanks cut off, digits of any script made ASCII, groups of
digits joined. -/
def typedDigits? (s : String) : Option (List Char) :=
  joinDigitGroups? ((trimBy isNumberBlank s.toList).map toAsciiDigit)

/-- A typed real. -/
def typed? (s : String) : Option Float := (typedDigits? s).bind real?

/-- The most digits that a typed whole number may have. -/
def maxIntDigits : Nat := 4300

/-- A typed whole number with an optional sign. -/
def typedInt? (s : String) : Option Int :=
  match typedDigits? s with
  | none => none
  | some cs =>
    let (negative, digits) := takeSign cs
    if digits.isEmpty || !digits.all isAsciiDigit || maxIntDigits < digits.length then none
    else
      let n : Int := readDigits digits
      some (if negative then -n else n)

/-- Two underscores in a row. -/
def hasDoubleUnderscore : List Char → Bool
  | '_' :: '_' :: _ => true
  | _ :: rest => hasDoubleUnderscore rest
  | [] => false

/-- The text of a coordinate: a real with blanks around it or, without blanks, with underscores
inside that are neither first nor last nor doubled. -/
def field? (s : String) : Option Float :=
  let cs := s.toList
  match real? (trimBy isNumberBlank cs) with
  | some x => some x
  | none =>
    if cs.head? == some '_' || cs.getLast? == some '_' || hasDoubleUnderscore cs then none
    else real? (cs.filter (· != '_'))

end BlockProgram.Decimal
