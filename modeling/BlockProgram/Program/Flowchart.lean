import BlockProgram.Fault
import BlockProgram.Program.Basic

/-!
# Programs as flowcharts

A program as a flowchart in the Mermaid language: a line for every node, then the arrows of
every node to its successor, to the heads of its branches and from the reporters in its inputs,
and a style for the entry. Labels show the type and the literals of a node, cut off after forty
characters; quotes and angle brackets in them are escaped.
-/

namespace BlockProgram

namespace Flowchart

/-- The longest text of literals that a label shows in full. -/
def maxLabelLength : Nat := 40

/-- A character in a label. -/
def escapeChar (c : Char) : List Char :=
  if c == '"' then "#quot;".toList
  else if c == '<' then "#lt;".toList
  else if c == '>' then "#gt;".toList
  else [c]

/-- A text in a label. -/
def escape (s : String) : String := String.ofList (s.toList.flatMap escapeChar)

/-- Whether a character may stand in the name of a node. -/
def isNameChar (c : Char) : Bool :=
  ('A' ≤ c && c ≤ 'Z') || ('a' ≤ c && c ≤ 'z') || ('0' ≤ c && c ≤ '9') || c == '_'

/-- The name of the node of a block: other characters than letters, digits and the underscore
are replaced. -/
def nodeName (id : String) : String :=
  String.ofList (id.toList.map fun c => if isNameChar c then c else '_')

/-- A text cut off after the longest length. -/
def shortened (s : String) : String :=
  if maxLabelLength < s.length then String.ofList (s.toList.take maxLabelLength) ++ "..." else s

/-- The literals of a node in one line. -/
def literals (n : Node) : String :=
  joined ", " <| n.inputs.filterMap fun (socket, value) =>
    match value with
    | .ref _ => none
    | v => some (socket.plain ++ "=" ++ v.written)

/-- The label of a node of a type. -/
def label (type : String) (n : Node) : String :=
  let heading := "<b>" ++ escape type ++ "</b>"
  let shown := shortened (literals n)
  if shown.isEmpty then heading else heading ++ "<br/>" ++ escape shown

/-- The line that declares a node: a rhombus if it branches, a box otherwise. Only a text can be
shown as type. -/
def nodeLine (n : Node) : Except Fault String :=
  match n.type with
  | .str type =>
    let (opening, closing) := if n.branches.isEmpty then ("[", "]") else ("\x7b", "\x7d")
    .ok ("    " ++ nodeName n.id ++ opening ++ "\"" ++ label type n ++ "\"" ++ closing)
  | _ => .error .missingOperation

/-- How a branch is called on its arrow. -/
def branchLabel (key : String) : String :=
  if key == "true" then "T" else if key == "false" then "F" else key

/-- The arrow to the successor. -/
def nextArrows (n : Node) : List String :=
  match n.next with
  | some next => ["    " ++ nodeName n.id ++ " --> " ++ nodeName next]
  | none => []

/-- The arrows to the heads of the branches. -/
def branchArrows (n : Node) : List String :=
  n.branches.map fun (key, head) =>
    "    " ++ nodeName n.id ++ " -->|\"" ++ branchLabel key ++ "\"| " ++ nodeName head

/-- The arrows from the reporters in the inputs, as far as these are nodes. -/
def inputArrows (p : Program) (n : Node) : List String :=
  n.inputs.filterMap fun (socket, value) =>
    match value with
    | .ref block =>
      if (p.node? block).isSome then
        some ("    " ++ nodeName block ++ " -.->|\"" ++ socket.plain ++ "\"| " ++ nodeName n.id)
      else none
    | _ => none

/-- The style of the entry. -/
def entryStyle (p : Program) : List String :=
  match p.entry with
  | some id => ["    style " ++ nodeName id ++ " fill:#28a745,color:#fff"]
  | none => []

/-- The lines of the nodes of a program and of the arrows between them. -/
def drawnLines (p : Program) : Except Fault (List String) := do
  let nodes ← p.nodes.mapM nodeLine
  return nodes ++ p.nodes.flatMap fun n => nextArrows n ++ branchArrows n ++ inputArrows p n

/-- The lines of the flowchart of a program. -/
def lines (p : Program) : Except Fault (List String) := do
  return ["flowchart TD"] ++ (← drawnLines p) ++ entryStyle p

end Flowchart

/-- The flowchart of a program. -/
def Program.flowchart (p : Program) : Except Fault String :=
  (Flowchart.lines p).map (joined "\n")

end BlockProgram
