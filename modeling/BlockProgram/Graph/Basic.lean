import BlockProgram.Value.Written

/-!
# Blocks, edges and program graphs

A program is edited as a flat graph: blocks with ids, and edges of three kinds between them.

* A `stack` edge leads to the block that follows.
* A `branch` edge leads to the first block of a branch; its slot is the branch key, `body` when
  none is given.
* An `input` edge leads to the reporter that fills the socket which is its slot.

Besides its id a block has only fields that an editor may set to any value. A block read from a
record has a text as type, dictionaries as inputs and data, and floats as position and size.
-/

namespace BlockProgram

/-- A block of a program. Its position, size and data are carried for the editor. -/
structure Block where
  id : String
  type : Value
  inputs : Value := .dict []
  x : Value := .float 0
  y : Value := .float 0
  w : Value := .null
  h : Value := .null
  data : Value := .dict []
  deriving Inhabited

/-- The three relations between blocks. -/
inductive EdgeKind where
  | stack
  | branch
  | input
  deriving DecidableEq, Repr, Inhabited

namespace EdgeKind

/-- The name of a kind. -/
def name : EdgeKind → String
  | .stack => "stack"
  | .branch => "branch"
  | .input => "input"

/-- The kind with a name. -/
def named? (name : String) : Option EdgeKind :=
  [stack, branch, input].find? fun kind => kind.name == name

end EdgeKind

/-- The branch of a key that is missing or empty. -/
def defaultBranch : String := "body"

/-- A directed relation between two blocks, from `source` to `target`. -/
structure Edge where
  kind : EdgeKind
  source : String
  target : String
  branch : Option String := none
  socket : Option String := none
  deriving DecidableEq, Repr, Inhabited

namespace Edge

/-- An edge to the next block of a stack. -/
def stack (source target : String) : Edge := { kind := .stack, source, target }

/-- An edge to the first block of a branch. -/
def toBranch (source : String) (key : Option String) (target : String) : Edge :=
  { kind := .branch, source, target, branch := key }

/-- An edge to the reporter at a socket. -/
def toInput (source : String) (socket : Option String) (target : String) : Edge :=
  { kind := .input, source, target, socket }

/-- The key under which a branch is found. -/
def branchKey (key : Option String) : String :=
  match key with
  | some key => if key.isEmpty then defaultBranch else key
  | none => defaultBranch

/-- The slot that an edge fills: the key of a branch, the socket of an input. -/
def slot (e : Edge) : Option String :=
  match e.kind with
  | .stack => none
  | .branch => some (branchKey e.branch)
  | .input => e.socket

/-- Whether a block is an end of the edge. -/
def touches (e : Edge) (id : String) : Bool := e.source == id || e.target == id

/-- An edge in one line, with its slot unless that is missing or empty. -/
def text (e : Edge) : String :=
  let tag :=
    match e.slot with
    | some slot => if slot.isEmpty then "" else "[" ++ slot ++ "]"
    | none => ""
  e.source ++ " -" ++ e.kind.name ++ tag ++ "-> " ++ e.target

end Edge

namespace Block

/-- A block in one line: its type and id, and its inputs if it has any. -/
def text (b : Block) : String :=
  let name := b.type.plain ++ "#" ++ b.id
  match b.inputs with
  | .dict (entry :: rest) =>
    let args := (entry :: rest).map fun (socket, value) => socket.plain ++ "=" ++ value.written
    name ++ "(" ++ joined ", " args ++ ")"
  | _ => name

end Block

/-- A program as it is saved: blocks and edges. -/
structure ProgramGraph where
  blocks : List Block := []
  edges : List Edge := []
  deriving Inhabited

/-- The type of the block at which a program starts. -/
def startType : String := "start"

/-- The type of the block that ends a program. -/
def stopType : String := "stop"

end BlockProgram
