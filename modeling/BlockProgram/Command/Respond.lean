import BlockProgram.Command.Demo
import BlockProgram.Command.Options
import BlockProgram.Graph.Document
import BlockProgram.Run.Execution

/-!
# The command line

What the program does with a command line: it loads a graph, or takes the demonstration, and
then prints one of its views or runs it and prints what is said and the state at the end. The
exit code is 0, or 1 if the run was cut off at the step limit, or 2 if the command line or the
file is no good.
-/

namespace BlockProgram.Command

/-- Why a file cannot be read: the number of the error and its words. -/
structure ReadFault where
  number : Nat
  reason : String
  deriving DecidableEq, Repr

/-- The words for a file that cannot be read. -/
def ReadFault.message (f : ReadFault) (path : String) : String :=
  "[Errno " ++ Nat.repr f.number ++ "] " ++ f.reason ++ ": " ++ Text.quote path

/-- There is no file of a name. -/
def ReadFault.missing : ReadFault := ⟨2, "No such file or directory"⟩

/-- The name is that of a directory. -/
def ReadFault.directory : ReadFault := ⟨21, "Is a directory"⟩

/-- What came of a command line: the text printed, and the exit code with the text of an error
if there is one. A fault ends the program without an exit code of its own. -/
structure Outcome where
  printed : String
  result : Except Fault (Nat × String)

/-- Lines as printed. -/
def linesText (lines : List String) : String := String.join (lines.map (· ++ "\n"))

/-- The number of issues of a document in words. -/
def issueCount (n : Nat) : String :=
  Nat.repr n ++ (if n = 1 then " validation error" else " validation errors") ++
    " for ProgramGraph"

/-- The error text for a program that could not be loaded. -/
def loadError (reason : String) : String := "error: could not load program: " ++ reason

/-- The graph of a document, drawn anew. The error is the reason why it cannot be loaded, or a
fault that is none of these. -/
def loadText (text : String) : Except (Fault ⊕ String) ProgramGraph :=
  match ProgramGraph.load Json.standard text with
  | .error issues => .error (.inr (issueCount issues.length))
  | .ok g =>
    match g.repaired with
    | .ok g => .ok g
    | .error (.duplicateBlock id) =>
      .error (.inr (((Fault.duplicateBlock id).message?).getD ""))
    | .error fault => .error (.inl fault)

/-- The state of a run as a JSON value, for a report. -/
def snapshotRecord (s : Snapshot) : Dict :=
  let outputs := s.outputs.map fun o => .dict [(.str "kind", .str o.kind), (.str "text", .str o.text)]
  [(.str "halted", .bool s.halted),
    (.str "halt_reason", Value.ofText? (s.halt.map HaltReason.name)),
    (.str "vars", .dict s.vars),
    (.str "sprite", .dict
      [(.str "x", .ofNumber s.sprite.x), (.str "y", .ofNumber s.sprite.y),
        (.str "heading", s.sprite.heading)]),
    (.str "outputs", .list outputs)]

/-- A control frame as a JSON value. -/
def frameRecord : Frame → Value
  | .branch resume =>
    .dict [(.str "type", .str "IfFrame"), (.str "ret_next", Value.ofText? resume)]
  | .times remaining body resume =>
    .dict
      [(.str "type", .str "RepeatTimesFrame"), (.str "ret_next", Value.ofText? resume),
        (.str "remaining", .int remaining), (.str "body", Value.ofText? body)]
  | .until _ body resume =>
    .dict
      [(.str "type", .str "RepeatUntilFrame"), (.str "ret_next", Value.ofText? resume),
        (.str "body", Value.ofText? body)]

/-- The full state of a run as a JSON value; frames are listed from the outermost inward. -/
def stateRecord (s : State) : Dict :=
  let waiting :=
    match s.waiting with
    | some w => .dict [(.str "node_id", .str w.node), (.str "ticks_remaining", .int w.ticks)]
    | none => .null
  snapshotRecord s.toSnapshot ++
    [(.str "current", Value.ofText? s.current),
      (.str "call_stack", .list (s.frames.reverse.map frameRecord)),
      (.str "waiting", waiting),
      (.str "steps", .int s.steps)]

/-- The lines at the end of a run. -/
def finalLines (record : Dict) : List String :=
  ["\n═══ Final State ═══", Json.document .report (some 2) (.dict record)]

/-- The line of an event on the command line. -/
def eventLine? : Event → Option String
  | .output kind text => some ("[" ++ kind ++ "] " ++ text)
  | .line text => some text
  | _ => none

/-- The line of a recorded step. -/
def traceLine (step : TraceStep) : String :=
  let type := ((step.type).getD .null).plain
  let node := (Value.ofText? step.node).plain
  "[" ++ Nat.repr step.index ++ "] " ++ type ++ "#" ++ node ++
    (if step.waiting then " (waiting)" else "")

/-- The exit code of a run that ended. -/
def exitCode (halt : Option HaltReason) : Nat := if halt == some .stepLimit then 1 else 0

/-- The census of a graph as a JSON value. -/
def censusRecord (c : Census) : Value :=
  let counts (entries : List (Value × Nat)) : Value :=
    .dict (entries.map fun (key, n) => (key, .int n))
  .dict [(.str "blocks", counts c.blocks), (.str "edges", counts c.edges)]

/-- An outcome that prints lines after those printed before, or ends with a fault. -/
def printing (before : List String) (lines : Except Fault (List String)) : Outcome :=
  match lines with
  | .ok lines => ⟨linesText (before ++ lines), .ok (0, "")⟩
  | .error fault => ⟨linesText before, .error fault⟩

/-- The options of the run that a command line asks for. -/
def Options.runOptions (o : Options) : RunOptions :=
  { maxSteps := o.maxSteps, ticksPerSecond := o.tps.map .float, verbose := o.verbose }

/-- Traces a graph and prints the steps. -/
def respondTrace (o : Options) (before : List String) (g : ProgramGraph) : Outcome :=
  match (Source.graph g).trace o.runOptions with
  | .error fault => ⟨linesText before, .error fault⟩
  | .ok t =>
    let lines := t.steps.map traceLine ++ finalLines (stateRecord t.final)
    ⟨linesText (before ++ lines), .ok (exitCode t.stats.halt, "")⟩

/-- Runs a graph and prints what is said. -/
def respondRun (o : Options) (before : List String) (g : ProgramGraph) : Outcome :=
  let run := (Source.graph g).run o.runOptions
  let lines := before ++ run.events.filterMap eventLine?
  match run.result with
  | .error fault => ⟨linesText lines, .error fault⟩
  | .ok s =>
    ⟨linesText (lines ++ finalLines (snapshotRecord s.toSnapshot)), .ok (exitCode s.halt, "")⟩

/-- What is done with a graph. The first view that is asked for wins. -/
def respondGraph (o : Options) (before : List String) (g : ProgramGraph) : Outcome :=
  let source := Source.graph g
  if o.astOnly then
    match source.outline with
    | .ok outline => printing before (.ok ["═══ AST ═══", outline])
    | .error fault => ⟨linesText (before ++ ["═══ AST ═══"]), .error fault⟩
  else if o.mermaid then printing before (source.flowchart.map fun chart => [chart])
  else if o.stats then
    printing before (source.census.map fun c => [Json.document .report (some 2) (censusRecord c)])
  else if o.trace then respondTrace o before g
  else respondRun o before g

/-- What is printed before the demonstration. -/
def demoNotice : String := "No file provided. Using built-in demo program.\n"

/-- The words of help. -/
def usage : String :=
  "usage: scribble [-h] [--max-steps MAX_STEPS] [--tps TPS] [--verbose] [--ast-only]\n" ++
    "                [--mermaid] [--stats] [--trace]\n" ++
    "                [file]"

/-- What is done for some options, given how files are read. -/
def respondOptions (o : Options) (read : String → Except ReadFault String) : Outcome :=
  let path := o.file.getD ""
  if o.help then ⟨linesText [usage], .ok (0, "")⟩
  else if path.isEmpty then
    match demo.repaired with
    | .ok g => respondGraph o [demoNotice] g
    | .error fault => ⟨linesText [demoNotice], .error fault⟩
  else
    match read path with
    | .error f => ⟨"", .ok (2, loadError (f.message path))⟩
    | .ok text =>
      match loadText text with
      | .ok g => respondGraph o [] g
      | .error (.inr reason) => ⟨"", .ok (2, loadError reason)⟩
      | .error (.inl fault) => ⟨"", .error fault⟩

/-- What is done for a command line, given how files are read. -/
def respond (arguments : List String) (read : String → Except ReadFault String) : Outcome :=
  match Options.parse arguments with
  | .ok o => respondOptions o read
  | .error e => ⟨"", .ok (2, usage ++ "\nscribble: error: " ++ e.message)⟩

end BlockProgram.Command
