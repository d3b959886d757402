import BlockProgram.Number.Decimal
import BlockProgram.Value.Basic

/-!
# Typed-in literals

A text typed into a slot is read once, when a program is built. Blanks at its ends do not
count. What is left may be empty, a truth value in any case, or a numeral: an optional minus,
digits, and perhaps a point with more digits. A numeral without a point is a whole number of at
most `Decimal.maxIntDigits` digits; any other text stays as it was typed.
-/

namespace BlockProgram

open Text

/-- A numeral taken apart: whether it has a minus, its digits, and those after the point if it
has one. -/
structure Numeral where
  negative : Bool
  whole : List Char
  fraction : Option (List Char)
  deriving DecidableEq, Repr

namespace Numeral

/-- The numeral that a text is, digits of any script included. -/
def read? (cs : List Char) : Option Numeral :=
  let (negative, body) :=
    match cs with
    | '-' :: rest => (true, rest)
    | _ => (false, cs)
  let whole := body.takeWhile isDigit
  if whole.isEmpty then none
  else
    match body.dropWhile isDigit with
    | [] => some ⟨negative, whole, none⟩
    | '.' :: fraction =>
      if !fraction.isEmpty && fraction.all isDigit then some ⟨negative, whole, some fraction⟩
      else none
    | _ => none

/-- The value of a numeral; a whole number with too many digits has none. -/
def value? (n : Numeral) : Option Value :=
  match n.fraction with
  | none =>
    if n.whole.length ≤ Decimal.maxIntDigits then
      let magnitude : Int := readDigits n.whole
      some (.int (if n.negative then -magnitude else magnitude))
    else none
  | some fraction =>
    let digits := n.whole ++ fraction
    some (.float (Decimal.nearest n.negative (readDigits digits) digits.length
      (-(fraction.length : Int))))

end Numeral

/-- Whether a text is a lower-case word up to the case of its ASCII letters. -/
def isWord (word s : String) : Bool := s.toList.map Char.toLower == word.toList

/-- The value of a typed-in text. -/
def readLiteral (s : String) : Value :=
  let text := trim s
  if text.isEmpty then .str ""
  else if isWord "true" text then .bool true
  else if isWord "false" text then .bool false
  else
    match (Numeral.read? text.toList).bind Numeral.value? with
    | some v => v
    | none => .str s

namespace Value

/-- A text as a literal; values of other types are themselves. -/
def ofLiteral : Value → Value
  | .str s => readLiteral s
  | v => v

end Value

/-- The socket that holds the name of a variable. -/
def nameSocket : String := "name"

/-- What an input slot holds once a program is built: the name of a variable is only trimmed,
any other text is read as a literal. -/
def slotValue (socket raw : Value) : Value :=
  match raw with
  | .str s => if socket.isStr nameSocket then .str (trim s) else readLiteral s
  | v => v

end BlockProgram
