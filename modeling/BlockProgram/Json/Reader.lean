import BlockProgram.Number.Decimal
import BlockProgram.Value.Basic

/-!
# Reading JSON documents

A JSON document becomes a value. The grammar is strict, except that `NaN`, `Infinity` and
`-Infinity` are numbers. A number without point and exponent is a whole number of any size up to
`Decimal.maxIntDigits` digits. Of several members with one name the first gives the place and
the last the value. Containers with content may be nested `maxDepth` deep.

Each reader takes what it reads off the front of the characters and returns the rest. The
readers of values and of texts recurse on fuel; every character costs at most one unit, so the
length of the document, which `document?` gives, is enough.
-/

namespace BlockProgram.Json

open Decimal (isAsciiDigit)

/-- The deepest level at which a container may have content. -/
def maxDepth : Nat := 200

/-- The blanks between tokens. -/
def isSpace (c : Char) : Bool := c == ' ' || c == '\t' || c == '\n' || c == '\r'

/-- The characters from the next token on. -/
def skipSpace (cs : List Char) : List Char := cs.dropWhile isSpace

/-- The rest after a fixed word, if the characters begin with it. -/
def word? (word : List Char) (cs : List Char) : Option (List Char) :=
  match word, cs with
  | [], rest => some rest
  | w :: ws, c :: rest => if w == c then word? ws rest else none
  | _ :: _, [] => none

/-- The value of a hexadecimal digit. -/
def hexValue? (c : Char) : Option Nat :=
  if isAsciiDigit c then some (c.toNat - 48)
  else if 'a' ≤ c && c ≤ 'f' then some (c.toNat - 87)
  else if 'A' ≤ c && c ≤ 'F' then some (c.toNat - 55)
  else none

/-- Four hexadecimal digits. -/
def hexUnit? : List Char → Option (Nat × List Char)
  | a :: b :: c :: d :: rest => do
    let a ← hexValue? a
    let b ← hexValue? b
    let c ← hexValue? c
    let d ← hexValue? d
    return (4096 * a + 256 * b + 16 * c + d, rest)
  | _ => none

/-- The character after `\u`: one unit, or two that form a surrogate pair. A surrogate on its
own is no character. -/
def unicodeEscape? (cs : List Char) : Option (Char × List Char) := do
  let (unit, rest) ← hexUnit? cs
  if 0xD800 ≤ unit && unit < 0xDC00 then
    let rest ← word? ['\\', 'u'] rest
    let (low, rest) ← hexUnit? rest
    if 0xDC00 ≤ low && low < 0xE000 then
      return (Char.ofNat (0x10000 + (unit - 0xD800) * 0x400 + (low - 0xDC00)), rest)
    else none
  else if 0xDC00 ≤ unit && unit < 0xE000 then none
  else return (Char.ofNat unit, rest)

/-- The character that a one-letter escape stands for. -/
def shortEscape? (c : Char) : Option Char :=
  if c == '"' || c == '\\' || c == '/' then some c
  else if c == 'b' then some '\x08'
  else if c == 'f' then some '\x0c'
  else if c == 'n' then some '\n'
  else if c == 'r' then some '\r'
  else if c == 't' then some '\t'
  else none

/-- The characters of a text up to its closing quote, after those read so far in reverse. -/
def textBody? : Nat → List Char → List Char → Option (String × List Char)
  | 0, _, _ => none
  | fuel + 1, sofar, cs =>
    match cs with
    | [] => none
    | '"' :: rest => some (String.ofList sofar.reverse, rest)
    | '\\' :: 'u' :: rest =>
      match unicodeEscape? rest with
      | some (c, rest) => textBody? fuel (c :: sofar) rest
      | none => none
    | '\\' :: e :: rest =>
      match shortEscape? e with
      | some c => textBody? fuel (c :: sofar) rest
      | none => none
    | c :: rest => if c.toNat < 0x20 || c == '\\' then none else textBody? fuel (c :: sofar) rest

/-- The digits of the whole part: a zero alone, or digits that do not begin with zero. -/
def wholePart? (cs : List Char) : Option (List Char × List Char) :=
  match cs with
  | '0' :: rest =>
    match rest with
    | c :: _ => if isAsciiDigit c then none else some (['0'], rest)
    | [] => some (['0'], rest)
  | _ =>
    let digits := cs.takeWhile isAsciiDigit
    if digits.isEmpty then none else some (digits, cs.dropWhile isAsciiDigit)

/-- The digits after a point, if there is a point; then there has to be a digit. -/
def fractionPart? (cs : List Char) : Option (Option (List Char) × List Char) :=
  match cs with
  | '.' :: rest =>
    let digits := rest.takeWhile isAsciiDigit
    if digits.isEmpty then none else some (some digits, rest.dropWhile isAsciiDigit)
  | _ => some (none, cs)

/-- The exponent, if there is one; then there has to be a digit. -/
def exponentPart? (cs : List Char) : Option (Option Int × List Char) :=
  match cs with
  | mark :: rest =>
    if mark == 'e' || mark == 'E' then
      let (negative, rest) := Decimal.takeSign rest
      let digits := rest.takeWhile isAsciiDigit
      if digits.isEmpty then none
      else
        let n : Int := Text.readDigits digits
        some (some (if negative then -n else n), rest.dropWhile isAsciiDigit)
    else some (none, cs)
  | [] => some (none, [])

/-- A number after its sign. -/
def numberBody? (negative : Bool) (cs : List Char) : Option (Value × List Char) := do
  let (whole, rest) ← wholePart? cs
  let (fraction, rest) ← fractionPart? rest
  let (exponent, rest) ← exponentPart? rest
  match fraction, exponent with
  | none, none =>
    if Decimal.maxIntDigits < whole.length then none
    else
      let n : Int := Text.readDigits whole
      return (.int (if negative then -n else n), rest)
  | _, _ =>
    let places := fraction.getD []
    let digits := whole ++ places
    let x := Decimal.nearest negative (Text.readDigits digits) digits.length
      (exponent.getD 0 - places.length)
    return (.float x, rest)

/-- A number, or one of the names of special numbers. -/
def number? (cs : List Char) : Option (Value × List Char) :=
  match cs with
  | '-' :: rest =>
    match word? "Infinity".toList rest with
    | some rest => some (.float (Binary.infinity true), rest)
    | none => numberBody? true rest
  | _ => numberBody? false cs

/-- The words that stand for a value. -/
def namedValue? (cs : List Char) : Option (Value × List Char) :=
  let words : List (String × Value) :=
    [("null", .null), ("true", .bool true), ("false", .bool false),
      ("NaN", .float (Binary.infinity false - Binary.infinity false)),
      ("Infinity", .float (Binary.infinity false))]
  words.findSome? fun (name, v) => (word? name.toList cs).map fun rest => (v, rest)

mutual

/-- A value at a level of nesting. No text in it is longer than `limit`. -/
def value? (limit fuel depth : Nat) (cs : List Char) : Option (Value × List Char) :=
  match fuel with
  | 0 => none
  | fuel + 1 =>
    match cs with
    | [] => none
    | '"' :: rest => (textBody? limit [] rest).map fun (s, rest) => (.str s, rest)
    | '[' :: rest =>
      match skipSpace rest with
      | ']' :: rest => some (.list [], rest)
      | rest =>
        if maxDepth ≤ depth then none
        else (items? limit fuel (depth + 1) rest).map fun (items, rest) => (.list items, rest)
    | '\x7b' :: rest =>
      match skipSpace rest with
      | '\x7d' :: rest => some (.dict [], rest)
      | rest =>
        if maxDepth ≤ depth then none
        else
          (members? limit fuel (depth + 1) rest).map fun (members, rest) =>
            (.dict (Dict.ofEntries members), rest)
    | c :: _ =>
      if c == '-' || isAsciiDigit c then number? cs else namedValue? cs

/-- The items of a list up to its end; there is at least one. -/
def items? (limit fuel depth : Nat) (cs : List Char) : Option (List Value × List Char) :=
  match fuel with
  | 0 => none
  | fuel + 1 =>
    match value? limit fuel depth cs with
    | none => none
    | some (item, rest) =>
      match skipSpace rest with
      | ']' :: rest => some ([item], rest)
      | ',' :: rest =>
        (items? limit fuel depth (skipSpace rest)).map fun (items, rest) => (item :: items, rest)
      | _ => none

/-- The members of an object up to its end; there is at least one. -/
def members? (limit fuel depth : Nat) (cs : List Char) : Option (Dict × List Char) :=
  match fuel with
  | 0 => none
  | fuel + 1 =>
    match cs with
    | '"' :: rest =>
      match textBody? limit [] rest with
      | none => none
      | some (name, rest) =>
        match skipSpace rest with
        | ':' :: rest =>
          match value? limit fuel depth (skipSpace rest) with
          | none => none
          | some (v, rest) =>
            match skipSpace rest with
            | '\x7d' :: rest => some ([(.str name, v)], rest)
            | ',' :: rest =>
              (members? limit fuel depth (skipSpace rest)).map fun (members, rest) =>
                ((.str name, v) :: members, rest)
            | _ => none
        | _ => none
    | _ => none

end

/-- The value of a whole document; nothing but blanks may follow it. -/
def document? (text : String) : Option Value :=
  let cs := text.toList
  match value? cs.length (cs.length + 1) 0 (skipSpace cs) with
  | some (v, rest) => if (skipSpace rest).isEmpty then some v else none
  | none => none

end BlockProgram.Json
