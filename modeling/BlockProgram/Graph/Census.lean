import BlockProgram.Graph.Basic
import BlockProgram.Fault

/-!
# Counting blocks and edges

How often each block type and each edge kind occurs, in the order of first appearance.
-/

namespace BlockProgram

/-- Counts one more occurrence of a key. -/
def tallyOne (counts : List (Value × Nat)) (key : Value) : List (Value × Nat) :=
  match counts with
  | [] => [(key, 1)]
  | (k, n) :: rest => if k.sameKey key then (k, n + 1) :: rest else (k, n) :: tallyOne rest key

/-- How often each key occurs; a value that is no key cannot be counted. -/
def tally (keys : List Value) : Except Fault (List (Value × Nat)) :=
  keys.foldlM (fun counts key => (Fault.needKey key).map fun _ => tallyOne counts key) []

/-- How often each block type and each edge kind occurs. -/
structure Census where
  blocks : List (Value × Nat)
  edges : List (Value × Nat)

/-- The counts of block types. -/
def countBlockTypes (blocks : List Block) : Except Fault (List (Value × Nat)) :=
  tally (blocks.map (·.type))

/-- The counts of edge kinds. -/
def countEdgeKinds (edges : List Edge) : Except Fault (List (Value × Nat)) :=
  tally (edges.map fun e => .str e.kind.name)

/-- The census of a graph. -/
def ProgramGraph.census (g : ProgramGraph) : Except Fault Census := do
  let blocks ← countBlockTypes g.blocks
  let edges ← countEdgeKinds g.edges
  return ⟨blocks, edges⟩

end BlockProgram
