import BlockProgram.Graph.Basic

/-!
# Programs

A program is what a graph is compiled to before it runs: one node for every block, linked to
the node that follows it, to the heads of its branches and, through references in its inputs, to
the reporters that fill them. Links are ids; nodes have distinct ids and stand in the order in
which their blocks first came.
-/

namespace BlockProgram

/-- A block of a program with its links. -/
structure Node where
  id : String
  type : Value
  inputs : Dict := []
  next : Option String := none
  /-- the heads of the branches by key, in the order in which the keys first came -/
  branches : List (String × String) := []
  deriving Inhabited

namespace Node

/-- The head of a branch. -/
def branch? (n : Node) (key : String) : Option String :=
  (n.branches.find? fun entry => entry.1 == key).map (·.2)

/-- What an input slot holds; nothing if it was never filled. -/
def input (n : Node) (socket : String) : Value := (Dict.named? n.inputs socket).getD .null

end Node

/-- A compiled program: its nodes, the nodes without a predecessor, and the one to start at. -/
structure Program where
  nodes : List Node := []
  roots : List String := []
  entry : Option String := none
  deriving Inhabited

/-- The node with an id. -/
def findNode? (nodes : List Node) (id : String) : Option Node := nodes.find? (·.id == id)

namespace Program

/-- The node with an id. -/
def node? (p : Program) (id : String) : Option Node := findNode? p.nodes id

end Program

end BlockProgram
