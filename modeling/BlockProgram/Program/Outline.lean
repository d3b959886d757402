import BlockProgram.Program.Basic

/-!
# Programs as text

The outline of a program has a line for every node, followed by a line for each of its branches
and inputs. The branch table of a node lists its branches by key for views that show all the
usual ones.
-/

namespace BlockProgram

/-- The keys of the branches that control blocks have. -/
def usualKeys : List String := ["true", "false", defaultBranch]

namespace Node

/-- The keys of a node's branches together with the usual ones, sorted by code points. -/
def branchKeys (n : Node) : List String :=
  let others := (n.branches.map (·.1)).filter fun key => !usualKeys.contains key
  (usualKeys ++ others).mergeSort fun a b => decide (a ≤ b)

/-- The head of each branch by key, also of the usual ones that the node does not have. -/
def branchTable (n : Node) : List (String × Option String) :=
  n.branchKeys.map fun key => (key, n.branch? key)

/-- A slot in an outline: references are marked, other values are written out. -/
def slotText : Value → String
  | .ref block => (Value.ref block).plain
  | v => v.written

/-- The lines of a node. -/
def outline (n : Node) (isEntry : Bool) : List String :=
  let mark := if isEntry then " (entry)" else ""
  let next := n.next.getD "(none)"
  ("[" ++ n.id ++ "] " ++ n.type.plain ++ mark ++ "  next=" ++ next)
    :: n.branches.map (fun (key, head) => "  " ++ key ++ " -> " ++ head)
    ++ n.inputs.map fun (socket, value) => "  " ++ socket.plain ++ " = " ++ slotText value

end Node

namespace Program

/-- The outline of a program. -/
def outline (p : Program) : String :=
  joined "\n" (p.nodes.flatMap fun n => n.outline (p.entry == some n.id))

end Program

end BlockProgram
