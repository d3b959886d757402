import BlockProgram.Fault
import BlockProgram.Graph.Basic

/-!
# The workspace

A workspace is a program under edit: blocks with distinct ids in the order of their arrival, the
edges between them, and the palette of variables. It also counts the ids handed out, so that
every new one is fresh.

This module has the lookups and the operations on blocks. Operations that cannot go wrong are
functions on workspaces; the others are edits, which keep what was changed before a fault.
-/

namespace BlockProgram

/-- A variable of the palette: its display name and the value that a run starts with. -/
structure Variable where
  id : String
  name : String
  initial : Value

/-- A program under edit. -/
structure Workspace where
  blocks : List Block := []
  edges : List Edge := []
  palette : List Variable := []
  /-- how many ids have been handed out -/
  issued : Nat := 0
  deriving Inhabited

/-- A change of a workspace with a result. A fault keeps the changes made before it. -/
abbrev Edit (α : Type) := ExceptT Fault (StateM Workspace) α

/-- An edit that cannot go wrong. -/
def Edit.change {α : Type} (f : Workspace → α × Workspace) : Edit α := fun ws =>
  let (a, ws) := f ws
  (.ok a, ws)

/-- An edit that changes nothing and may fail. -/
def Edit.lift {α : Type} (result : Except Fault α) : Edit α := fun ws => (result, ws)

/-- An edit that either fails, and then changes nothing, or gives the changed workspace. -/
def Edit.update (f : Workspace → Except Fault Workspace) : Edit Unit := fun ws =>
  match f ws with
  | .ok ws => (.ok (), ws)
  | .error fault => (.error fault, ws)

namespace Workspace

/-! ## Lookups -/

/-- The block with an id. -/
def block? (ws : Workspace) (id : String) : Option Block := ws.blocks.find? (·.id == id)

/-- Whether there is a block with an id. -/
def has (ws : Workspace) (id : String) : Bool := ws.blocks.any (·.id == id)

/-- The first target of the edges with a property. -/
def target? (ws : Workspace) (p : Edge → Bool) : Option String := (ws.edges.find? p).map (·.target)

/-- The block that follows in the stack. -/
def successor? (ws : Workspace) (id : String) : Option String :=
  ws.target? fun e => e.kind == .stack && e.source == id

/-- The block that comes before in the stack. -/
def predecessor? (ws : Workspace) (id : String) : Option String :=
  (ws.edges.find? fun e => e.kind == .stack && e.target == id).map (·.source)

/-- The first block of a branch. -/
def branchHead? (ws : Workspace) (id key : String) : Option String :=
  ws.target? fun e => e.kind == .branch && e.source == id && e.slot == some key

/-- The reporter plugged in at a socket. -/
def inputSource? (ws : Workspace) (id : String) (socket : Option String) : Option String :=
  ws.target? fun e => e.kind == .input && e.source == id && e.socket == socket

/-- The graph as it is now. Later edits do not change it. -/
def snapshot (ws : Workspace) : ProgramGraph := ⟨ws.blocks, ws.edges⟩

/-! ## Blocks -/

/-- The workspace without the edges that have a property. -/
def removeEdges (ws : Workspace) (p : Edge → Bool) : Workspace :=
  { ws with edges := ws.edges.filter fun e => !p e }

/-- The workspace with one more edge. -/
def appendEdge (ws : Workspace) (e : Edge) : Workspace := { ws with edges := ws.edges ++ [e] }

/-- The workspace with a block changed in place. -/
def modifyBlock (ws : Workspace) (id : String) (f : Block → Block) : Workspace :=
  { ws with blocks := ws.blocks.map fun b => if b.id == id then f b else b }

/-- The workspace with one more block, unless its id is taken. -/
def addBlock (ws : Workspace) (b : Block) : Except Fault Workspace :=
  if ws.has b.id then .error (.duplicateBlock b.id)
  else .ok { ws with blocks := ws.blocks ++ [b] }

/-- The workspace without the edges that touch a block. -/
def disconnectAll (ws : Workspace) (id : String) : Workspace := ws.removeEdges (·.touches id)

/-- Whether a stack edge takes the place of another between two blocks: it leaves the first one
or enters the second one. -/
def rivalsStack (above below : String) (e : Edge) : Bool :=
  e.kind == .stack && (e.source == above || e.target == below)

/-- Joins the two ends of a stack from which a block was taken out. An end that is missing or
has an empty id stays open. -/
def splice (ws : Workspace) (above below : Option String) : Workspace :=
  match above, below with
  | some above, some below =>
    if above.isEmpty || below.isEmpty then ws
    else (ws.removeEdges (rivalsStack above below)).appendEdge (.stack above below)
  | _, _ => ws

/-- Deletes a block and every edge that touches it, and joins the stack around it. -/
def deleteBlock (ws : Workspace) (id : String) : Bool × Workspace :=
  if ws.has id then
    let without : Workspace := { ws with blocks := ws.blocks.filter (·.id != id) }
    (true, (without.disconnectAll id).splice (ws.predecessor? id) (ws.successor? id))
  else (false, ws)

end Workspace

/-! ## Fields -/

/-- The fields of a block that can be set. -/
inductive BlockField where
  | type
  | inputs
  | x
  | y
  | w
  | h
  | data
  deriving DecidableEq, Repr

namespace BlockField

/-- The name of a field. -/
def name : BlockField → String
  | .type => "type"
  | .inputs => "inputs"
  | .x => "x"
  | .y => "y"
  | .w => "w"
  | .h => "h"
  | .data => "data"

/-- The field with a name. -/
def named? (name : String) : Option BlockField :=
  [type, inputs, x, y, w, h, data].find? fun field => field.name == name

end BlockField

/-- A block with a field set. Any value is stored as it is. -/
def Block.set (b : Block) (field : BlockField) (value : Value) : Block :=
  match field with
  | .type => { b with type := value }
  | .inputs => { b with inputs := value }
  | .x => { b with x := value }
  | .y => { b with y := value }
  | .w => { b with w := value }
  | .h => { b with h := value }
  | .data => { b with data := value }

namespace Workspace

/-- Sets a field by its name. The id of a block cannot be set; a name that begins with an
underscore is private and has no effect. -/
def assign (ws : Workspace) (id name : String) (value : Value) : Except Fault Workspace :=
  if name == "id" then .error .immutableId
  else
    match BlockField.named? name with
    | some field => .ok (ws.modifyBlock id (·.set field value))
    | none => if name.startsWith "_" then .ok ws else .error (.noSuchField name)

/-- Moves a block. -/
def moveBlock (ws : Workspace) (id : String) (x y : Value) : Workspace :=
  ws.modifyBlock id fun b => { b with x, y }

/-- The inputs of a block with a value stored at a socket. -/
def withInput (b : Block) (socket value : Value) : Except Fault Block :=
  match b.inputs with
  | .dict entries =>
    if socket.isKey then .ok { b with inputs := .dict (Dict.insert entries socket value) }
    else .error .wrongType
  | _ => .error .wrongType

/-- Stores a value at a socket of a block, which fails unless its inputs are a dictionary. -/
def storeInput (id : String) (socket value : Value) : Edit Unit :=
  Edit.update fun ws =>
    match ws.block? id with
    | none => .ok ws
    | some b => (withInput b socket value).map fun b => ws.modifyBlock id fun _ => b

end Workspace

end BlockProgram
