import BlockProgram.Machine.Step
import BlockProgram.Program.Build
import BlockProgram.Program.Flowchart
import BlockProgram.Program.Outline
import BlockProgram.Graph.Census
import BlockProgram.Run.Report
import BlockProgram.Workspace.Connect
import BlockProgram.Workspace.Palette

/-!
# Running a graph or a workspace

A run never reads its source directly but compiles a snapshot of it. A workspace is copied as it
is; a bare graph is first drawn anew in a workspace, so that its edges pass the rules of an
editor. The variables of a workspace seed its runs.
-/

namespace BlockProgram

/-- Where a program to run comes from. -/
inductive Source where
  | graph (g : ProgramGraph)
  | workspace (ws : Workspace)

namespace Source

/-- The graph to compile. -/
def snapshot : Source → Except Fault ProgramGraph
  | .graph g => g.repaired
  | .workspace ws => .ok ws.snapshot

/-- The compiled program. -/
def compile (source : Source) : Except Fault Program := do
  let g ← source.snapshot
  g.build

/-- The variables that a run starts with. -/
def initialVars : Source → Dict
  | .graph _ => []
  | .workspace ws => ws.initialVars

/-- The outline of the compiled program. -/
def outline (source : Source) : Except Fault String := source.compile.map Program.outline

/-- The flowchart of the compiled program. -/
def flowchart (source : Source) : Except Fault String := do
  let p ← source.compile
  p.flowchart

/-- How often block types and edge kinds occur. -/
def census (source : Source) : Except Fault Census := do
  let g ← source.snapshot
  g.census

/-- The workspace of a graph with variables added by name. -/
def withVariables (g : ProgramGraph) (named : List (String × Value)) : Except Fault Source :=
  (Workspace.ofGraph g).map fun ws =>
    .workspace (named.foldl (fun ws (name, v) => (ws.createVariable name v).2) ws)

end Source

/-- What can be chosen for a run; everything else has its usual value. -/
structure RunOptions where
  maxSteps : Option Int := none
  ticksPerSecond : Option Value := none
  verbose : Bool := false

namespace RunOptions

/-- The configuration of a run with these options. -/
def config (o : RunOptions) : Config :=
  let usual : Config := {}
  { usual with
    maxSteps := o.maxSteps.getD usual.maxSteps
    ticksPerSecond := o.ticksPerSecond.getD usual.ticksPerSecond
    verbose := o.verbose }

/-- Options with one setting by name; nothing stands for the usual value. -/
def withSetting (o : RunOptions) (name : String) (v : Value) : Except Fault RunOptions :=
  match name, v with
  | "max_steps", .null => .ok { o with maxSteps := none }
  | "max_steps", v => (Config.stepLimit v).map fun n => { o with maxSteps := some n }
  | "ticks_per_second", .null => .ok { o with ticksPerSecond := none }
  | "ticks_per_second", v => .ok { o with ticksPerSecond := some v }
  | "verbose", v => .ok { o with verbose := v.truthy }
  | _, _ => .error .wrongType

/-- The options of a dictionary of settings. -/
def ofSettings (settings : Dict) : Except Fault RunOptions :=
  settings.foldlM (fun o (name, v) => o.withSetting name.plain v) {}

/-- The options of a dictionary of settings for a trace, which is never verbose. -/
def ofTraceSettings (settings : Dict) : Except Fault RunOptions :=
  if Dict.contains settings (.str "verbose") then .error .wrongType else ofSettings settings

end RunOptions

/-- What came of a run: the events in order, those before a fault included, and the last
state. -/
structure Execution where
  events : List Event
  result : Except Fault State

namespace Execution

/-- The figures of a finished run; its stages take no measurable time. -/
def figures (g : ProgramGraph) (p : Program) (s : State) : Figures :=
  { blockCount := .int g.blocks.length
    edgeCount := .int g.edges.length
    nodeCount := .int p.nodes.length
    rootCount := .int p.roots.length
    entry := .str (p.entry.getD "")
    steps := .int s.steps
    outputCount := .int s.spoken.length
    haltReason := .str ((s.halt.map HaltReason.name).getD "") }

/-- The lines before a verbose run. -/
def openingLines (p : Program) : List Event :=
  [.line "═══ AST ═══", .line p.outline, .line ""]

/-- The lines after a verbose run. -/
def closingLines (g : ProgramGraph) (p : Program) (s : State) : Except Fault (List Event) :=
  (figures g p s).report.map fun report => [.line "", .line report]

/-- Runs the program of a graph to its end. -/
def ofProgram (g : ProgramGraph) (p : Program) (o : RunOptions) (vars : Dict) : Execution :=
  let opening := if o.verbose then openingLines p else []
  match p.run o.config none (Machine.start p o.config vars) with
  | (.error fault, m) => ⟨opening ++ m.log.reverse, .error fault⟩
  | (.ok (), m) =>
    if o.verbose then
      match closingLines g p m.state with
      | .ok closing => ⟨opening ++ m.log.reverse ++ closing, .ok m.state⟩
      | .error fault => ⟨opening ++ m.log.reverse, .error fault⟩
    else ⟨opening ++ m.log.reverse, .ok m.state⟩

end Execution

namespace Source

/-- Runs a source to its end. -/
def run (source : Source) (o : RunOptions) : Execution :=
  match source.snapshot with
  | .error fault => ⟨[], .error fault⟩
  | .ok g =>
    match g.build with
    | .error fault => ⟨[], .error fault⟩
    | .ok p => Execution.ofProgram g p o source.initialVars

/-- Runs a source to its end and records every step. -/
def trace (source : Source) (o : RunOptions) : Except Fault Trace := do
  let p ← source.compile
  let config := { o.config with verbose := false }
  (p.trace config none (Machine.start p config source.initialVars)).1

end Source

end BlockProgram
