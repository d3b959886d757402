import BlockProgram.Json.Library

/-!
# Saved programs

A program graph is saved as a JSON document and loaded back from one, by way of a library for
documents. All fields of blocks and edges are written, in a fixed order; the ends of an edge are called
`from` and `to`.
-/

namespace BlockProgram

/-- A position or size as it is saved: a number within the range of floats is saved as a float,
anything else as it is. -/
def savedCoordinate (v : Value) : Value :=
  match v.number? with
  | some n =>
    match n.toFloat? with
    | some x => .float x
    | none => v
  | none => v

/-- A text or nothing as a value. -/
def Value.ofText? : Option String → Value
  | some s => .str s
  | none => .null

/-- A block as a record. -/
def Block.record (b : Block) : Value :=
  .dict
    [(.str "id", .str b.id), (.str "type", b.type), (.str "inputs", b.inputs),
      (.str "x", savedCoordinate b.x), (.str "y", savedCoordinate b.y),
      (.str "w", savedCoordinate b.w), (.str "h", savedCoordinate b.h), (.str "data", b.data)]

/-- An edge as a record. -/
def Edge.record (e : Edge) : Value :=
  .dict
    [(.str "kind", .str e.kind.name), (.str "from", .str e.source), (.str "to", .str e.target),
      (.str "branch", Value.ofText? e.branch), (.str "port", Value.ofText? e.socket)]

namespace ProgramGraph

/-- A graph as a record. -/
def record (g : ProgramGraph) : Value :=
  .dict
    [(.str "blocks", .list (g.blocks.map Block.record)),
      (.str "edges", .list (g.edges.map Edge.record))]

/-- The document that a graph is saved as, on one line or indented. -/
def save (library : Json.Library) (indent : Option Int) (g : ProgramGraph) :
    Except Fault String :=
  library.write indent g.record

/-- The graph of a document. -/
def load (library : Json.Library) (text : String) : Checked ProgramGraph :=
  match library.read? text with
  | some v => Record.graph library.origin v
  | none => Checked.refuse .malformedDocument

end ProgramGraph

end BlockProgram
