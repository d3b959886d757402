import BlockProgram.Graph.Walk
import BlockProgram.Workspace.Basic

/-!
# Connecting blocks

An edge may be drawn between two known blocks unless it leaves a `stop` block or closes a
directed cycle over the edges of all kinds. A refusal is no fault: the answer is `false` and
nothing changes. An edge that is drawn replaces those that claim its place: a block has one
successor and one predecessor in a stack, one head for each branch key, and one reporter for
each socket. A socket with a reporter plugged in holds the empty text.
-/

namespace BlockProgram

namespace Workspace

/-- Whether an edge between two blocks would close a cycle. -/
def wouldCycle (ws : Workspace) (source target : String) : Bool :=
  reaches ws.edges source [target]

/-- Whether a block ends the program. -/
def isStop (ws : Workspace) (id : String) : Bool :=
  match ws.block? id with
  | some b => b.type.isStr stopType
  | none => false

/-- Whether an edge between two blocks may be drawn. -/
def canConnect (ws : Workspace) (source target : String) : Bool :=
  ws.has source && ws.has target && !ws.isStop source && !ws.wouldCycle source target

/-- The workspace with an edge in place of those that claim its place. -/
def replaceEdges (ws : Workspace) (rivals : Edge → Bool) (e : Edge) : Workspace :=
  (ws.removeEdges rivals).appendEdge e

/-- Makes a block the successor of another. -/
def connectStack (ws : Workspace) (above below : String) : Bool × Workspace :=
  if ws.canConnect above below then
    (true, ws.replaceEdges (rivalsStack above below) (.stack above below))
  else (false, ws)

/-- Whether an edge leads to the branch of a block under a key. -/
def fillsBranch (parent : String) (key : Option String) (e : Edge) : Bool :=
  e.kind == .branch && e.source == parent && e.slot == key

/-- Makes a block the head of a branch. The key is stored as it is given. -/
def connectBranch (ws : Workspace) (parent : String) (key : Option String) (child : String) :
    Bool × Workspace :=
  if ws.canConnect parent child then
    (true, ws.replaceEdges (fillsBranch parent key) (.toBranch parent key child))
  else (false, ws)

/-- Whether an edge fills a socket of a block. -/
def fillsSocket (parent : String) (socket : Option String) (e : Edge) : Bool :=
  e.kind == .input && e.source == parent && e.socket == socket

/-- A socket as a key of a block's inputs. -/
def socketKey : Option String → Value
  | some socket => .str socket
  | none => .null

/-- Plugs a reporter in at a socket. The edge stays even if the inputs of the block turn out to be
no dictionary. -/
def connectInput (parent : String) (socket : Option String) (child : String) :
    Edit Bool := fun ws =>
  if ws.canConnect parent child then
    let ws := ws.replaceEdges (fillsSocket parent socket) (.toInput parent socket child)
    (do storeInput parent (socketKey socket) (.str ""); return true : Edit Bool) ws
  else (.ok false, ws)

/-- The socket names that stand for inputs begin with this. -/
def inputSocketMark : String := "input:"

/-- The socket name that stands for the successor. -/
def nextSocket : String := "next"

/-- The text after a mark, if it begins with the mark. -/
def afterMark? (mark text : String) : Option String :=
  if mark.toList.isPrefixOf text.toList then
    some (String.ofList (text.toList.drop mark.toList.length))
  else none

/-- Connects by the name of an editor's socket: an input, the successor, or a branch key. -/
def connectSocket (source socket target : String) : Edit Bool :=
  match afterMark? inputSocketMark socket with
  | some input => connectInput source (some input) target
  | none =>
    if socket == nextSocket then Edit.change fun ws => ws.connectStack source target
    else Edit.change fun ws => ws.connectBranch source (some socket) target

/-- Draws an edge given as a whole. Only the field of its own kind is kept: a branch key that is
missing or empty becomes the default one, a missing socket becomes the empty one. -/
def connectEdge (e : Edge) : Edit Bool :=
  match e.kind with
  | .stack => Edit.change fun ws => ws.connectStack e.source e.target
  | .branch => Edit.change fun ws => ws.connectBranch e.source e.slot e.target
  | .input => connectInput e.source (some (e.socket.getD "")) e.target

/-- Stores a value at a socket; a stored value and a plugged-in reporter exclude each other. -/
def setInput (id : String) (socket value : Value) : Edit Unit := fun ws =>
  let unplugged := ws.removeEdges fun e =>
    e.kind == .input && e.source == id && (socketKey e.socket).sameKey socket
  storeInput id socket value unplugged

/-- Adds the blocks and then draws the edges of a graph. -/
def replay (g : ProgramGraph) : Edit Unit := do
  g.blocks.forM fun b => Edit.update fun ws => ws.addBlock b
  g.edges.forM fun e => do
    let _ ← connectEdge e

/-- The workspace that holds a graph: its blocks, and the edges that may be drawn. -/
def ofGraph (g : ProgramGraph) : Except Fault Workspace :=
  match replay g {} with
  | (.ok (), ws) => .ok ws
  | (.error fault, _) => .error fault

end Workspace

/-- A graph repaired by drawing it anew: every edge has passed the rules of an editor. -/
def ProgramGraph.repaired (g : ProgramGraph) : Except Fault ProgramGraph :=
  (Workspace.ofGraph g).map Workspace.snapshot

end BlockProgram
