import BlockProgram.Fault
import BlockProgram.Program.Basic

/-!
# The state of a run

A run has variables, a sprite, outputs, and its place in the program: the current node, the
control frames around it, and a wait in progress.

* Frames are listed from the innermost outward, outputs from the newest back.
* A `Snapshot` is what a host is shown; the full `State` extends it.
* A `Machine` is a state together with what is counted and reported along the way.
-/

namespace BlockProgram

/-- Why a run has ended. -/
inductive HaltReason where
  | stopBlock
  | endOfProgram
  | stepLimit
  deriving DecidableEq, Repr

/-- The word for the end of a run. -/
def HaltReason.name : HaltReason → String
  | .stopBlock => "stop_block"
  | .endOfProgram => "end_of_program"
  | .stepLimit => "step_limit"

/-- The sprite on its stage: its position, with `y` growing downward, and its heading in
degrees. The heading a run starts with may be any value. -/
structure Sprite where
  x : Number := .float 0
  y : Number := .float 0
  heading : Value := .float 0

/-- Something said or thought, or the clearing of what was. -/
structure Output where
  kind : String
  text : String
  deriving DecidableEq, Repr

/-- The kind of an output that clears all earlier ones. -/
def clearKind : String := "clear"

/-- A construct that a run is inside of, with the node to go on at after it. -/
inductive Frame where
  /-- a branch of an `if_else` -/
  | branch (resume : Option String)
  /-- a loop with a number of rounds left -/
  | times (remaining : Nat) (body resume : Option String)
  /-- a loop that ends when a slot is true -/
  | until (condition : Value) (body resume : Option String)

/-- A wait in progress. -/
structure Waiting where
  node : String
  ticks : Nat
  deriving DecidableEq, Repr

/-- What a host is shown of a run. -/
structure Snapshot where
  halt : Option HaltReason := none
  vars : Dict := []
  sprite : Sprite := {}
  /-- the outputs from the newest back -/
  spoken : List Output := []

/-- The outputs in order. -/
def Snapshot.outputs (s : Snapshot) : List Output := s.spoken.reverse

/-- The outputs after the last clearing. -/
def visibleOutputs (outputs : List Output) : List Output :=
  (outputs.reverse.takeWhile (·.kind != clearKind)).reverse

/-- The state of a run. -/
structure State extends Snapshot where
  current : Option String := none
  /-- the constructs that the run is inside of, from the innermost outward -/
  frames : List Frame := []
  waiting : Option Waiting := none
  steps : Nat := 0

/-- Whether a run has ended. -/
def Snapshot.halted (s : Snapshot) : Bool := s.halt.isSome

/-- What is reported to a host. -/
inductive Event where
  /-- a node is about to be executed, or waits -/
  | highlight (id : String)
  /-- something is said or thought -/
  | output (kind text : String)
  /-- the variables or the sprite may have changed, or the run has ended -/
  | state (snapshot : Snapshot)
  /-- a line is printed -/
  | line (text : String)

/-- The ways in which a host can listen. -/
inductive Channel where
  | highlight
  | output
  | state
  deriving DecidableEq, Repr

/-- The way in which an event is heard; printed lines are not. -/
def Event.channel? : Event → Option Channel
  | .highlight _ => some .highlight
  | .output _ _ => some .output
  | .state _ => some .state
  | .line _ => none

/-- The line that an event prints. -/
def Event.line? : Event → Option String
  | .line text => some text
  | _ => none

/-- How a run is executed. -/
structure Config where
  maxSteps : Int := 10000
  /-- how many ticks a second of waiting has -/
  ticksPerSecond : Value := .int 60
  initialHeading : Value := .float 0
  /-- whether a line is printed for every statement -/
  verbose : Bool := false

namespace Config

/-- The step limit that a value stands for. -/
def stepLimit (v : Value) : Except Fault Int :=
  match v.number? with
  | some (.int n) => .ok n
  | _ => .error .wrongType

/-- A configuration with one setting by name. -/
def withSetting (c : Config) (name : String) (v : Value) : Except Fault Config :=
  if name == "max_steps" then (stepLimit v).map fun n => { c with maxSteps := n }
  else if name == "ticks_per_second" then .ok { c with ticksPerSecond := v }
  else if name == "initial_heading" then .ok { c with initialHeading := v }
  else if name == "verbose" then .ok { c with verbose := v.truthy }
  else .error .wrongType

/-- The configuration of a dictionary of settings. -/
def ofSettings (settings : Dict) : Except Fault Config :=
  settings.foldlM (fun c (name, v) => c.withSetting name.plain v) {}

end Config

/-- A run with what is counted and reported along the way. -/
structure Machine where
  state : State := {}
  /-- the ticks that waits have taken -/
  waitTicks : Nat := 0
  /-- the node highlighted by the last step -/
  lastNode : Option String := none
  /-- the events from the newest back -/
  log : List Event := []

/-- An action of a machine. A fault keeps what was done before it. -/
abbrev Exec (α : Type) := ExceptT Fault (StateM Machine) α

namespace Exec

/-- An action that changes nothing and may fail. -/
def lift {α : Type} (result : Except Fault α) : Exec α := fun m => (result, m)

/-- Changes the state of the run. -/
def modifyState (f : State → State) : Exec Unit := modify fun m => { m with state := f m.state }

/-- The state of the run. -/
def getState : Exec State := fun m => (.ok m.state, m)

/-- Reports an event. -/
def emit (e : Event) : Exec Unit := modify fun m => { m with log := e :: m.log }

/-- Reports the state. -/
def notify : Exec Unit := fun m =>
  (.ok (), { m with log := .state m.state.toSnapshot :: m.log })

/-- Highlights a node. -/
def highlight (id : String) : Exec Unit :=
  modify fun m => { m with lastNode := some id, log := .highlight id :: m.log }

/-- Ends the run and reports that; a run that has ended stays as it is. -/
def halt (reason : HaltReason) : Exec Unit := do
  if !(← getState).halted then
    modifyState fun s => { s with halt := some reason, current := none, waiting := none }
    notify

end Exec

namespace Machine

/-- A run of a program before its first step. -/
def start (p : Program) (config : Config) (vars : Dict) : Machine :=
  { state := { vars, sprite := { heading := config.initialHeading }, current := p.entry } }

end Machine

/-- The figures of a run. -/
structure RunStats where
  steps : Nat
  outputs : Nat
  waitTicks : Nat
  halt : Option HaltReason
  deriving DecidableEq, Repr

namespace RunStats

/-- Whether the run was cut off. -/
def stepLimitExceeded (s : RunStats) : Bool := s.halt == some .stepLimit

/-- The word for the end of the run, empty while it goes on. -/
def haltName (s : RunStats) : String := (s.halt.map HaltReason.name).getD ""

end RunStats

/-- The figures of a run so far. -/
def Machine.stats (m : Machine) : RunStats :=
  ⟨m.state.steps, m.state.spoken.length, m.waitTicks, m.state.halt⟩

end BlockProgram
