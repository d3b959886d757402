import BlockProgram.Graph.Record
import BlockProgram.Json.Printer
import BlockProgram.Json.Reader

/-!
# Libraries for saved documents

Programs are saved and loaded by way of a library for documents, which reads the value in a text and
writes a text for a value. `Json.Library` is such a library, and `Json.standard` is the one that the
commands use.
-/

namespace BlockProgram.Json

/-- A library for saved documents. -/
structure Library where
  /-- how the records of a document are read -/
  origin : Origin
  /-- the value in a text, where the text is a document -/
  read? : String → Option Value
  /-- the text of a value, on one line or with an indentation for every level -/
  write : (indent : Option Int) → Value → Except Fault String

/-- The indentation that a document can be laid out with: nothing, or a width of 64 bits without
sign. -/
def width? : Option Int → Except Fault (Option Nat)
  | none => .ok none
  | some n => if n < 0 || 2 ^ 64 ≤ n then .error .outOfRange else .ok (some n.toNat)

/-- The library that the commands use. -/
def standard : Library where
  origin := .words
  read? := document?
  write indent v := (width? indent).map fun width => document .saved width v

end BlockProgram.Json
