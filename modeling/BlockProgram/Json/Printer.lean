import BlockProgram.Number.Layout
import BlockProgram.Text.Quoted
import BlockProgram.Value.Written

/-!
# Writing JSON documents

Values are written in one of two styles, each a record of decisions:

* `Style.saved` is the style of saved programs: other scripts as they are, numbers in the
  layout of documents, and `null` for numbers that JSON does not have;
* `Style.report` is the style of reports on the command line: ASCII only, numbers as in program
  text, and names for the special numbers.
-/

namespace BlockProgram.Json

/-- The decisions of a style. -/
structure Style where
  /-- whether everything beyond ASCII is escaped -/
  asciiOnly : Bool
  layout : Layout
  special : SpecialNames

/-- The style of saved programs. -/
def Style.saved : Style := ⟨false, .document, ⟨"null", "null", "null"⟩⟩

/-- The style of reports. -/
def Style.report : Style := ⟨true, .text, ⟨"NaN", "Infinity", "-Infinity"⟩⟩

/-- The UTF-16 units of a character. -/
def units16 (c : Char) : List Nat :=
  let code := c.toNat
  if code < 0x10000 then [code]
  else [0xD800 + (code - 0x10000) / 0x400, 0xDC00 + (code - 0x10000) % 0x400]

/-- A character by its UTF-16 units. -/
def unitEscape (c : Char) : List Char :=
  (units16 c).flatMap fun unit => '\\' :: 'u' :: Text.hex 4 unit

/-- One character inside a JSON text. -/
def textChar (style : Style) (c : Char) : List Char :=
  if c == '"' || c == '\\' then ['\\', c]
  else if c == '\x08' then ['\\', 'b']
  else if c == '\x0c' then ['\\', 'f']
  else if c == '\n' then ['\\', 'n']
  else if c == '\r' then ['\\', 'r']
  else if c == '\t' then ['\\', 't']
  else if c.toNat < 0x20 || (style.asciiOnly && 0x7F ≤ c.toNat) then unitEscape c
  else [c]

/-- A JSON text. -/
def text (style : Style) (s : String) : String :=
  String.ofList ('"' :: (s.toList.flatMap (textChar style) ++ ['"']))

/-- A key of a dictionary as the name of a member. -/
def memberName : Value → String
  | .str s => s
  | .bool true => "true"
  | .bool false => "false"
  | .float x => if Binary.isFinite x then Layout.textOf x else "None"
  | v => v.plain

/-- The parts of a container between its brackets. With an indentation every part stands on a
line of its own. -/
def container (indent : Option Nat) (depth : Nat) (opening closing : String)
    (parts : List String) : String :=
  match indent, parts with
  | _, [] => opening ++ closing
  | none, parts => opening ++ joined "," parts ++ closing
  | some width, parts =>
    let line (level : Nat) := "\n" ++ String.ofList (List.replicate (width * level) ' ')
    opening ++ line (depth + 1) ++ joined ("," ++ line (depth + 1)) parts ++ line depth ++ closing

/-- What stands between the name and the value of a member. -/
def colon (indent : Option Nat) : String := if indent.isSome then ": " else ":"

mutual

/-- The JSON text of a value. -/
def render (style : Style) (indent : Option Nat) (depth : Nat) : Value → String
  | .null => "null"
  | .bool true => "true"
  | .bool false => "false"
  | .int n => Int.repr n
  | .float x => style.special.write style.layout x
  | .str s => text style s
  | .list items => container indent depth "[" "]" (renderItems style indent (depth + 1) items)
  | .dict entries =>
    container indent depth "\x7b" "\x7d" (renderMembers style indent (depth + 1) entries)
  | .ref block =>
    container indent depth "\x7b" "\x7d"
      [text style "block_id" ++ colon indent ++ text style block]

/-- The texts of the items of a list. -/
def renderItems (style : Style) (indent : Option Nat) (depth : Nat) : List Value → List String
  | [] => []
  | item :: rest => render style indent depth item :: renderItems style indent depth rest

/-- The texts of the members of a dictionary. -/
def renderMembers (style : Style) (indent : Option Nat) (depth : Nat) :
    List (Value × Value) → List String
  | [] => []
  | (key, value) :: rest =>
    (text style (memberName key) ++ colon indent ++ render style indent depth value)
      :: renderMembers style indent depth rest

end

/-- The text of a whole document. -/
def document (style : Style) (indent : Option Nat) (v : Value) : String := render style indent 0 v

end BlockProgram.Json
