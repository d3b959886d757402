import BlockProgram.Machine.Execute

/-!
# Stepping through a program

A step executes one node or one tick of a wait and returns control to the host. A step that
finds nothing to do, or the step limit used up, ends the run instead.

* `Program.step` is one step;
* `Program.run` steps until the run has ended or a budget is used up, and then ends it;
* `Program.trace` does the same and records the state after every step.
-/

namespace BlockProgram

/-- What a step tells the host. -/
structure StepResult where
  /-- whether the run has ended -/
  done : Bool
  /-- whether the node is still waiting -/
  waiting : Bool
  deriving DecidableEq, Repr

namespace Program

open Exec

/-- Whether the run has ended, ending it if there is no node to go on at. -/
def settle : Exec StepResult := do
  if (← getState).current.isNone then halt .endOfProgram
  return ⟨(← getState).halted, false⟩

/-- One tick of a wait; after the last one the run goes on behind the waiting node. -/
def tick (p : Program) (w : Waiting) : Exec StepResult := do
  highlight w.node
  modify fun m => { m with waitTicks := m.waitTicks + 1 }
  if 1 < w.ticks then
    modifyState fun s => { s with waiting := some { w with ticks := w.ticks - 1 } }
    return ⟨false, true⟩
  else
    modifyState fun s => { s with waiting := none }
    p.goOn ((p.node? w.node).bind (·.next))
    settle

/-- The line that is printed for a statement. -/
def stepLine (steps : Nat) (n : Node) : String :=
  "[step " ++ Nat.repr steps ++ "] " ++ n.type.plain ++ "#" ++ n.id

/-- Executes the current node. -/
def visit (p : Program) (config : Config) (n : Node) : Exec StepResult := do
  highlight n.id
  if config.verbose then emit (.line (stepLine (← getState).steps n))
  p.execute config n
  let s ← getState
  if s.waiting.isSome then return ⟨false, true⟩
  else settle

/-- The node that a run is at. A link that leads nowhere is no node. -/
def currentNode? (p : Program) (s : State) : Option Node := s.current.bind p.node?

/-- One step of a run. -/
def step (p : Program) (config : Config) : Exec StepResult := do
  modify fun m => { m with lastNode := none }
  let s ← getState
  if s.halted then return ⟨true, false⟩
  else if s.waiting.isNone && s.current.isNone then
    halt .endOfProgram
    return ⟨true, false⟩
  else if config.maxSteps ≤ s.steps then
    halt .stepLimit
    return ⟨true, false⟩
  else
    modifyState fun s => { s with steps := s.steps + 1 }
    match s.waiting, p.currentNode? s with
    | some w, _ => p.tick w
    | none, some n => p.visit config n
    | none, none =>
      halt .endOfProgram
      return ⟨true, false⟩

/-- Steps until the run has ended, at most a given number of times. -/
def runFor (p : Program) (config : Config) : Nat → Exec Unit
  | 0 => pure ()
  | budget + 1 => fun m =>
    if m.state.halted then (.ok (), m)
    else
      match p.step config m with
      | (.ok _, m) => runFor p config budget m
      | (.error fault, m) => (.error fault, m)

/-- The number of steps of a budget; without one it is the step limit. -/
def budgetSteps (config : Config) (budget : Option Int) : Nat :=
  (budget.getD config.maxSteps).toNat

/-- Steps until the run has ended; using up the budget ends it as well. -/
def run (p : Program) (config : Config) (budget : Option Int) : Exec Unit := do
  p.runFor config (budgetSteps config budget)
  halt .stepLimit

end Program

/-! ## Traces -/

/-- One step of a recorded run: the node it highlighted, whether that node is still waiting, and
the state after it. -/
structure TraceStep where
  index : Nat
  node : Option String
  type : Option Value
  waiting : Bool
  state : State

/-- A recorded run. -/
structure Trace where
  initial : State
  steps : List TraceStep
  stats : RunStats
  final : State

namespace Program

/-- The type of the node with an id; an empty id names none. -/
def highlightedType (p : Program) (id : Option String) : Option Value :=
  match id with
  | some id => if id.isEmpty then none else (p.node? id).map (·.type)
  | none => none

/-- The record of the last step of a run. -/
def record (p : Program) (index : Nat) (result : StepResult) (m : Machine) : TraceStep :=
  ⟨index, m.lastNode, p.highlightedType m.lastNode, result.waiting, m.state⟩

/-- Records steps until the run has ended, at most a given number, after those recorded so far
from the newest back. -/
def traceFor (p : Program) (config : Config) : Nat → Nat → List TraceStep → Exec (List TraceStep)
  | 0, _, sofar => pure sofar.reverse
  | budget + 1, index, sofar => fun m =>
    if m.state.halted then (.ok sofar.reverse, m)
    else
      match p.step config m with
      | (.ok result, m) =>
        traceFor p config budget (index + 1) (p.record index result m :: sofar) m
      | (.error fault, m) => (.error fault, m)

/-- Runs like `run` and records every step. -/
def trace (p : Program) (config : Config) (budget : Option Int) : Exec Trace := do
  let initial ← Exec.getState
  let steps ← p.traceFor config (budgetSteps config budget) 0 []
  Exec.halt .stepLimit
  let m ← get
  return ⟨initial, steps, m.stats, m.state⟩

end Program

end BlockProgram
