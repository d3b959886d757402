import BlockProgram.Graph.Basic
import BlockProgram.Graph.Checked
import BlockProgram.Number.Decimal

/-!
# Blocks, edges and graphs from records

A record is a dictionary whose fields are looked up by name; fields of other names are ignored.
Texts are never made from numbers. Coordinates are read leniently: whole numbers, truth values
and texts that read as a real become floats.

Records come from memory or from a saved document, and only what is read as a coordinate differs
(`Origin`). A record in memory admits every whole number in the range of floats.
-/

namespace BlockProgram

/-- Where a record comes from decides what is read as a coordinate. -/
structure Origin where
  coordinate : Value → Checked Float

namespace Origin

open Checked

/-- A coordinate, for which the whole numbers that are admitted may stand. -/
def readCoordinate (admits : Int → Bool) : Value → Checked Float
  | .float x => .ok x
  | .bool b => .ok (if b then 1 else 0)
  | .int n =>
    match admits n, Binary.ofInt? n with
    | true, some x => .ok x
    | _, _ => refuse .numberExpected
  | .str s =>
    match Decimal.field? s with
    | some x => .ok x
    | none => refuse .unreadableNumber
  | _ => refuse .numberExpected

/-- Records made in memory. -/
def memory : Origin := ⟨readCoordinate fun _ => true⟩

/-- Records of a document whose whole numbers have to fit 64 bits to stand for a coordinate. -/
def words : Origin := ⟨readCoordinate fun n => -(2 ^ 63) ≤ n && n < 2 ^ 63⟩

end Origin

namespace Record

open Checked

/-- A coordinate as the value that a block stores. -/
def coordinateValue (origin : Origin) (v : Value) : Checked Value :=
  (origin.coordinate v).map Value.float

/-- A width or height, which may be nothing. -/
def sizeValue (origin : Origin) : Value → Checked Value
  | .null => .ok .null
  | v => coordinateValue origin v

/-- A text. -/
def text : Value → Checked String
  | .str s => .ok s
  | _ => refuse .textExpected

/-- A text that may be nothing. -/
def optionalText : Value → Checked (Option String)
  | .null => .ok none
  | .str s => .ok (some s)
  | _ => refuse .textExpected

/-- The path step that names a key of a dictionary. -/
def keyStep (key : Value) : PathStep :=
  match key.number? with
  | some (.int n) => .index n
  | _ => .field key.plain

/-- The issues with the keys of a dictionary, which have to be texts. -/
def keyIssues (entries : Dict) : List Issue :=
  entries.filterMap fun (key, _) =>
    match key with
    | .str _ => none
    | _ => some ⟨[keyStep key, .field "[key]"], .textExpected⟩

/-- A dictionary whose keys are texts. -/
def namedValues : Value → Checked Value
  | .dict entries =>
    match keyIssues entries with
    | [] => .ok (.dict entries)
    | issues => .error issues
  | _ => refuse .dictExpected

/-- The first of several names under which a record has a field. -/
def lookup (record : Dict) (names : List String) : Option Value := names.findSome? record.named?

/-- A field that has to be there. -/
def required {α : Type} (record : Dict) (name : String) (others : List String)
    (check : Value → Checked α) : Checked α :=
  under [.field name] <|
    match lookup record (name :: others) with
    | some v => check v
    | none => refuse .missing

/-- A field with a value to take when it is absent. -/
def optional {α : Type} (record : Dict) (name : String) (absent : α)
    (check : Value → Checked α) : Checked α :=
  match record.named? name with
  | some v => under [.field name] (check v)
  | none => .ok absent

/-- A block from the fields of a record. -/
def blockOfFields (origin : Origin) (r : Dict) : Checked Block :=
  part (part (part (part (part (part (part (part (.ok Block.mk)
    (required r "id" [] text))
    ((required r "type" [] text).map Value.str))
    (optional r "inputs" (.dict []) namedValues))
    (optional r "x" (.float 0) (coordinateValue origin)))
    (optional r "y" (.float 0) (coordinateValue origin)))
    (optional r "w" .null (sizeValue origin)))
    (optional r "h" .null (sizeValue origin)))
    (optional r "data" (.dict []) namedValues)

/-- A block from a record. -/
def block (origin : Origin) : Value → Checked Block
  | .dict fields => blockOfFields origin fields
  | _ => refuse .recordExpected

/-- The kind of an edge. -/
def edgeKind : Value → Checked EdgeKind
  | .str name =>
    match EdgeKind.named? name with
    | some kind => .ok kind
    | none => refuse .unknownKind
  | _ => refuse .unknownKind

/-- An edge from the fields of a record. Its ends are called `from` and `to`, or `from_id` and
`to_id` where the short names are absent. -/
def edgeOfFields (r : Dict) : Checked Edge :=
  part (part (part (part (part (.ok Edge.mk)
    (required r "kind" [] edgeKind))
    (required r "from" ["from_id"] text))
    (required r "to" ["to_id"] text))
    (optional r "branch" none optionalText))
    (optional r "port" none optionalText)

/-- An edge from a record. -/
def edge : Value → Checked Edge
  | .dict fields => edgeOfFields fields
  | _ => refuse .recordExpected

/-- A list of records. -/
def records {α : Type} (check : Value → Checked α) : Value → Checked (List α)
  | .list values => items check 0 values
  | _ => refuse .listExpected

/-- A graph from a record. -/
def graph (origin : Origin) : Value → Checked ProgramGraph
  | .dict r =>
    part (part (.ok ProgramGraph.mk)
      (optional r "blocks" [] (records (block origin))))
      (optional r "edges" [] (records edge))
  | _ => refuse .recordExpected

end Record

end BlockProgram
