import BlockProgram.Number.Decimal
import BlockProgram.Number.Layout
import BlockProgram.Text.Quoted
import BlockProgram.Value.Basic

/-!
# Values as text

A value has two written forms. `Value.written` is its form inside other values and in the views
of a program, with texts between quotes; `Value.plain` is its form on its own, where a text
stands for itself and a reference is marked by `&`. Both spell out whole numbers, however long. A
running program has a text of a whole number only up to `Decimal.maxIntDigits` digits;
`Value.isWritable` is whether a value keeps to that.
-/

namespace BlockProgram

/-- The parts with a separator between them. -/
def joined (separator : String) (parts : List String) : String := String.intercalate separator parts

namespace Value

mutual

/-- The written form of a value. -/
def written : Value → String
  | .null => "None"
  | .bool true => "True"
  | .bool false => "False"
  | .int n => Int.repr n
  | .float x => Layout.textOf x
  | .str s => Text.quote s
  | .list items => "[" ++ joined ", " (writtenItems items) ++ "]"
  | .dict entries => "\x7b" ++ joined ", " (writtenEntries entries) ++ "\x7d"
  | .ref block => "InputRef(block_id=" ++ Text.quote block ++ ")"

/-- The written forms of the items of a list. -/
def writtenItems : List Value → List String
  | [] => []
  | item :: rest => written item :: writtenItems rest

/-- The written forms of the entries of a dictionary. -/
def writtenEntries : List (Value × Value) → List String
  | [] => []
  | (key, value) :: rest => (written key ++ ": " ++ written value) :: writtenEntries rest

end

mutual

/-- Whether no whole number in a value has too many digits to be written out. -/
def isWritable : Value → Bool
  | .int n => (Nat.toDigits 10 n.natAbs).length ≤ Decimal.maxIntDigits
  | .list items => areWritable items
  | .dict entries => haveWritable entries
  | _ => true

/-- Whether all items of a list can be written out. -/
def areWritable : List Value → Bool
  | [] => true
  | item :: rest => item.isWritable && areWritable rest

/-- Whether the keys and values of a dictionary can be written out. -/
def haveWritable : List (Value × Value) → Bool
  | [] => true
  | (key, value) :: rest => key.isWritable && value.isWritable && haveWritable rest

end

/-- The form of a value on its own. -/
def plain : Value → String
  | .str s => s
  | .ref block => "&" ++ block
  | v => v.written

end Value

end BlockProgram
