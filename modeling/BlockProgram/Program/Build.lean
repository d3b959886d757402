import BlockProgram.Fault
import BlockProgram.Program.Basic
import BlockProgram.Value.Literal

/-!
# Building programs

Building goes through the blocks and then through the edges. Of several blocks with one id the
first gives the place and the last gives the node. An edge with an unknown end is skipped; of
several edges that fill the same link the last one counts. A root is a block that no stack edge
enters, and a program starts at the first root of type `start`, or else at the first root.
-/

namespace BlockProgram

namespace Program

/-- Whether an item could be the entry of a dictionary: it has a key and a value. -/
def checkPair (position : Nat) : Value → Except Fault Unit
  | .str s => if s.length = 2 then .ok () else .error (.notAPair position s.length)
  | .list [key, _] => Fault.needKey key
  | .list items => .error (.notAPair position items.length)
  | .dict entries =>
    if entries.length = 2 then .ok () else .error (.notAPair position entries.length)
  | _ => .error .wrongType

/-- Whether all items could be the entries of a dictionary. -/
def checkPairs : Nat → List Value → Except Fault Unit
  | _, [] => .ok ()
  | position, item :: rest =>
    match checkPair position item with
    | .ok () => checkPairs (position + 1) rest
    | .error fault => .error fault

/-- Whether the data of a block can be read as a dictionary: it is one, or a list of pairs. -/
def checkData : Value → Except Fault Unit
  | .dict _ => .ok ()
  | .list items => checkPairs 0 items
  | .str s => if s.isEmpty then .ok () else .error (.notAPair 0 1)
  | _ => .error .wrongType

/-- The inputs of a block; a value that counts as false stands for none. -/
def blockInputs (inputs : Value) : Except Fault Dict :=
  match inputs with
  | .dict entries => .ok entries
  | _ => if inputs.truthy then .error .missingOperation else .ok []

/-- The node of a block, not yet linked. Its typed-in inputs are read. -/
def nodeOfBlock (b : Block) : Except Fault Node := do
  let inputs ← blockInputs b.inputs
  checkData b.data
  return { id := b.id, type := b.type,
           inputs := inputs.map fun (socket, raw) => (socket, slotValue socket raw) }

/-- The nodes with one more, which replaces one of the same id. -/
def putNode : List Node → Node → List Node
  | [], n => [n]
  | m :: rest, n => if m.id == n.id then n :: rest else m :: putNode rest n

/-- One unlinked node for every id among the blocks. -/
def nodesOfBlocks (blocks : List Block) : Except Fault (List Node) :=
  blocks.foldlM (fun nodes b => (nodeOfBlock b).map (putNode nodes)) []

/-- The heads of branches with one more, which replaces one of the same key. -/
def putBranch : List (String × String) → String → String → List (String × String)
  | [], key, head => [(key, head)]
  | entry :: rest, key, head =>
    if entry.1 == key then (key, head) :: rest else entry :: putBranch rest key head

/-- A node with the link of an edge that leaves it. -/
def linkNode (e : Edge) (n : Node) : Node :=
  match e.kind with
  | .stack => { n with next := some e.target }
  | .branch => { n with branches := putBranch n.branches (Edge.branchKey e.branch) e.target }
  | .input =>
    match e.socket with
    | some socket => { n with inputs := Dict.setNamed n.inputs socket (.ref e.target) }
    | none => n

/-- Whether both ends of an edge are nodes. -/
def isKnown (nodes : List Node) (e : Edge) : Bool :=
  nodes.any (·.id == e.source) && nodes.any (·.id == e.target)

/-- The nodes with the link of an edge, which is skipped if an end is unknown. -/
def linkEdge (nodes : List Node) (e : Edge) : List Node :=
  if isKnown nodes e then nodes.map fun n => if n.id == e.source then linkNode e n else n
  else nodes

/-- Whether a stack edge between known blocks enters a block. -/
def isEntered (nodes : List Node) (edges : List Edge) (id : String) : Bool :=
  edges.any fun e => e.kind == .stack && e.target == id && isKnown nodes e

/-- Whether a node is of the type at which programs start. -/
def isStart (nodes : List Node) (id : String) : Bool :=
  match findNode? nodes id with
  | some n => n.type.isStr startType
  | none => false

/-- The root to start at. -/
def chooseEntry (nodes : List Node) (roots : List String) : Option String :=
  match roots.find? (isStart nodes) with
  | some id => some id
  | none => roots.head?

/-- The program of a list of blocks and a list of edges. -/
def build (blocks : List Block) (edges : List Edge) : Except Fault Program := do
  let unlinked ← nodesOfBlocks blocks
  let nodes := edges.foldl linkEdge unlinked
  let roots := (blocks.map (·.id)).filter fun id => !isEntered unlinked edges id
  return ⟨nodes, roots, chooseEntry nodes roots⟩

end Program

/-- The program of a graph as it is. -/
def ProgramGraph.build (g : ProgramGraph) : Except Fault Program := Program.build g.blocks g.edges

end BlockProgram
