import BlockProgram.Machine.Basic
import BlockProgram.Number.Layout
import BlockProgram.Value.Coerce

/-!
# The statistics report

A report lists the stages of running a program in a table: a name to the left, a time in
milliseconds with one place, and what the stage gave, to the right. Figures may be any values;
times have to be numbers.
-/

namespace BlockProgram

/-- The figures of a report. Times are in seconds. -/
structure Figures where
  blockCount : Value := .int 0
  edgeCount : Value := .int 0
  snapshotTime : Value := .float 0
  buildTime : Value := .float 0
  executionTime : Value := .float 0
  totalTime : Value := .float 0
  nodeCount : Value := .int 0
  rootCount : Value := .int 0
  entry : Value := .str ""
  steps : Value := .int 0
  outputCount : Value := .int 0
  haltReason : Value := .str ""

namespace Figures

/-- Figures with one of them set by name. -/
def withFigure (f : Figures) (name : String) (v : Value) : Except Fault Figures :=
  if name == "block_count" then .ok { f with blockCount := v }
  else if name == "edge_count" then .ok { f with edgeCount := v }
  else if name == "snapshot_time" then .ok { f with snapshotTime := v }
  else if name == "build_time" then .ok { f with buildTime := v }
  else if name == "execution_time" then .ok { f with executionTime := v }
  else if name == "total_time" then .ok { f with totalTime := v }
  else if name == "ast_node_count" then .ok { f with nodeCount := v }
  else if name == "root_count" then .ok { f with rootCount := v }
  else if name == "entry" then .ok { f with entry := v }
  else if name == "execution_steps" then .ok { f with steps := v }
  else if name == "output_count" then .ok { f with outputCount := v }
  else if name == "halt_reason" then .ok { f with haltReason := v }
  else .error .wrongType

/-- The figures of a dictionary. -/
def ofRecord (record : Dict) : Except Fault Figures :=
  record.foldlM (fun f (name, v) => f.withFigure name.plain v) {}

/-- A text filled up with blanks on the left. -/
def toRight (width : Nat) (s : String) : String :=
  String.ofList (List.replicate (width - s.length) ' ') ++ s

/-- A text filled up with blanks on the right. -/
def toLeft (width : Nat) (s : String) : String :=
  s ++ String.ofList (List.replicate (width - s.length) ' ')

/-- A time in milliseconds. -/
def milliseconds (time : Value) : Except Fault String := do
  match time.number? with
  | some t =>
    let scaled ← Fault.inRange (t.mul? (.int 1000))
    let x ← Fault.inRange scaled.toFloat?
    return toRight 8 (Layout.onePlace x) ++ "ms"
  | none =>
    match time with
    | .str _ => throw .textAsNumber
    | _ => throw .wrongType

/-- A line of the table. -/
def row (name time result : String) : String :=
  "  " ++ toLeft 20 name ++ " " ++ toRight 10 time ++ "  " ++ toRight 30 result

/-- A rule of a given width. -/
def rule (width : Nat) : String := String.ofList (List.replicate width '─')

/-- The line of a stage. -/
def stage (name : String) (time : Value) (result : String) : Except Fault String :=
  (milliseconds time).map fun t => row name t result

/-- The lines of the report. -/
def lines (f : Figures) : Except Fault (List String) := do
  let rules := "  " ++ rule 20 ++ " " ++ rule 10 ++ "  " ++ rule 30
  let snapshot ← stage "Snapshot" f.snapshotTime ""
  let build ← stage "Build AST" f.buildTime
    (f.nodeCount.plain ++ " nodes, " ++ f.rootCount.plain ++ " roots")
  let execute ← stage "Execute" f.executionTime
    (f.steps.plain ++ " steps, " ++ f.outputCount.plain ++ " outputs")
  let total ← milliseconds f.totalTime
  let entry := if f.entry.truthy then f.entry.plain else "(none)"
  return [
    "═══ Pipeline Statistics ═══",
    "  Graph: " ++ f.blockCount.plain ++ " blocks, " ++ f.edgeCount.plain ++ " edges",
    "",
    row "Stage" "Time" "Output",
    rules,
    snapshot,
    build,
    execute,
    rules,
    "  " ++ toLeft 20 "Total" ++ " " ++ total,
    "",
    "  Entry: " ++ entry ++ ", halted by: " ++ f.haltReason.plain]

/-- The report. -/
def report (f : Figures) : Except Fault String := f.lines.map (joined "\n")

end Figures

end BlockProgram
