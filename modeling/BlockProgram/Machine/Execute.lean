import BlockProgram.Machine.Statement
import BlockProgram.Machine.Unwind

/-!
# Executing statements

What each statement does to a run. All of them but `stop`, `wait` and the control statements
have an effect and then go on at the next node. Slots are read as numbers or texts the way
reporters read them, so odd values count as zero or are written out; a fault remains only where
a whole number leaves the range of floats or the heading a run was given is unusable.
-/

namespace BlockProgram

namespace Program

open Exec

/-- The value in a slot of a node. -/
def slot (p : Program) (n : Node) (socket : String) : Exec Value := fun m =>
  (p.evaluate m.state.vars (n.input socket), m)

/-- The number in a slot of a node. -/
def numberAt (p : Program) (n : Node) (socket : String) : Exec Number := do
  return (← p.slot n socket).toNumber

/-- The text in a slot of a node. -/
def textAt (p : Program) (n : Node) (socket : String) : Exec String := do
  lift (← p.slot n socket).toText

/-! ## Effects -/

/-- Says or thinks the text of a node. -/
def speak (p : Program) (n : Node) (kind : String) : Exec Unit := do
  let text ← p.textAt n "text"
  modifyState fun s => { s with spoken := ⟨kind, text⟩ :: s.spoken }
  emit (.output kind text)

/-- Clears the outputs. -/
def clearOutputs : Exec Unit := do
  modifyState fun s => { s with spoken := ⟨clearKind, ""⟩ :: s.spoken }
  notify

/-- Changes the sprite. -/
def modifySprite (f : Sprite → Sprite) : Exec Unit :=
  modifyState fun s => { s with sprite := f s.sprite }

/-- An angle of degrees in radians. -/
def radians (degrees : Float) : Float := degrees * (3.141592653589793 / 180)

/-- A length along a direction, given by its cosine or sine. -/
def component (direction : Float) (length : Number) : Except Fault Number :=
  Fault.inRange ((Number.float direction).mul? length)

/-- Moves the sprite along its heading. -/
def moveSprite (p : Program) (n : Node) : Exec Unit := do
  let length ← p.numberAt n "steps"
  let heading ← lift (← getState).sprite.heading.needNumber
  let degrees ← lift (Fault.inRange heading.toFloat?)
  let angle := radians degrees
  if angle.isInf then throw .infiniteAngle
  let dx ← lift (component (Float.cos angle) length)
  let x ← lift (Fault.inRange ((← getState).sprite.x.add? dx))
  modifySprite fun sprite => { sprite with x }
  let dy ← lift (component (Float.sin angle) length)
  let y ← lift (Fault.inRange ((← getState).sprite.y.sub? dy))
  modifySprite fun sprite => { sprite with y }
  notify

/-- Puts the sprite at a position. -/
def placeSprite (p : Program) (n : Node) : Exec Unit := do
  let x ← p.numberAt n "x"
  modifySprite fun sprite => { sprite with x }
  let y ← p.numberAt n "y"
  modifySprite fun sprite => { sprite with y }
  notify

/-- Moves the sprite sideways. -/
def shiftX (p : Program) (n : Node) : Exec Unit := do
  let dx ← p.numberAt n "dx"
  let x ← lift (Fault.inRange ((← getState).sprite.x.add? dx))
  modifySprite fun sprite => { sprite with x }
  notify

/-- Moves the sprite up or down. -/
def shiftY (p : Program) (n : Node) : Exec Unit := do
  let dy ← p.numberAt n "dy"
  let y ← lift (Fault.inRange ((← getState).sprite.y.add? dy))
  modifySprite fun sprite => { sprite with y }
  notify

/-- The degrees of a full turn. -/
def fullTurn : Number := .float 360

/-- Turns the sprite to a heading, reduced to one turn. -/
def turnTo (heading : Number) : Exec Unit := do
  let reduced ← lift (Fault.inRange (heading.mod? fullTurn))
  modifySprite fun sprite => { sprite with heading := .ofNumber reduced }
  notify

/-- Turns the sprite by the degrees of a node, which are added to or taken from its heading. -/
def turnBy (p : Program) (n : Node) (combine : Number → Number → Option Number) : Exec Unit := do
  let degrees ← p.numberAt n "degrees"
  let heading ← lift (← getState).sprite.heading.needNumber
  let turned ← lift (Fault.inRange (combine heading degrees))
  turnTo turned

/-- Turns the sprite to the degrees of a node. -/
def pointIn (p : Program) (n : Node) : Exec Unit := do
  turnTo (← p.numberAt n "degrees")

/-- Stores a value in a variable. -/
def setVar (name : String) (value : Value) : Exec Unit := do
  modifyState fun s => { s with vars := Dict.setNamed s.vars name value }
  notify

/-- Sets a variable; nothing is stored as zero. -/
def assignVar (p : Program) (n : Node) : Exec Unit := do
  let name ← p.textAt n "name"
  let value ← p.slot n "value"
  setVar name (match value with | .null => .int 0 | v => v)

/-- Adds to a variable. -/
def changeVar (p : Program) (n : Node) : Exec Unit := do
  let name ← p.textAt n "name"
  let delta ← p.numberAt n "delta"
  let old := ((Dict.named? (← getState).vars name).getD (.int 0)).toNumber
  let sum ← lift (Value.ofResult (old.add? delta))
  setVar name sum

/-! ## Waiting -/

/-- The whole ticks of a duration in ticks: rounded half up, at least one, and cut off at the
step limit plus one, which also stands for a duration that is not finite. -/
def roundTicks (maxSteps : Int) (raw : Float) : Int :=
  let ceiling := maxSteps + 1
  match Binary.floor? raw with
  | none => ceiling
  | some _ =>
    if (Binary.compareInt? raw ceiling).any Ordering.isGE then ceiling
    else
      match Binary.floor? (raw + 0.5) with
      | some ticks => max 1 ticks
      | none => ceiling

/-- The ticks that a number of seconds takes. -/
def waitTicks (config : Config) (seconds : Float) : Except Fault Int := do
  let perSecond ← config.ticksPerSecond.needNumber
  let factor ← Fault.inRange perSecond.toFloat?
  return roundTicks config.maxSteps (seconds * factor)

/-- Begins a wait. Its first tick is the step that executes the node; a wait of one tick is over
with it. -/
def beginWait (p : Program) (config : Config) (n : Node) : Exec Unit := do
  let seconds ← p.numberAt n "seconds"
  let seconds ← lift (Fault.inRange seconds.toFloat?)
  let ticks ← lift (waitTicks config seconds)
  modify fun m => { m with waitTicks := m.waitTicks + 1 }
  if ticks = 1 then p.goOn n.next
  else modifyState fun s => { s with waiting := some ⟨n.id, (ticks - 1).toNat⟩ }

/-! ## Control -/

/-- Enters the branch that the condition of a node chooses. -/
def enterBranch (p : Program) (n : Node) : Exec Unit := do
  let condition ← p.slot n "condition"
  modifyState fun s => { s with frames := .branch n.next :: s.frames }
  p.goOn (n.branch? (if condition.truthy then "true" else "false"))

/-- The head of the body of a loop. -/
def loopBody (n : Node) : Option String := (n.branch? "body").or (n.branch? "true")

/-- Enters a loop that runs a number of times. -/
def enterTimes (p : Program) (n : Node) : Exec Unit := do
  let times ← p.numberAt n "times"
  p.enter (.times (times.floor?.getD 0).toNat (loopBody n) n.next)

/-- Enters a loop that runs until a slot is true. -/
def enterUntil (p : Program) (n : Node) : Exec Unit :=
  p.enter (.until (n.input "until") (loopBody n) n.next)

/-! ## Statements -/

/-- The effect of a statement that then goes on at the next node. -/
def effect (p : Program) (n : Node) : Statement → Exec Unit
  | .say => p.speak n "say"
  | .think => p.speak n "think"
  | .clear => clearOutputs
  | .move => p.moveSprite n
  | .goTo => p.placeSprite n
  | .changeXBy => p.shiftX n
  | .changeYBy => p.shiftY n
  | .turnClockwise => p.turnBy n Number.add?
  | .turnAnticlockwise => p.turnBy n Number.sub?
  | .pointIn => p.pointIn n
  | .setVariable => p.assignVar n
  | .changeVariable => p.changeVar n
  | _ => pure ()

/-- Executes a node: a statement, or a node that is passed through. -/
def execute (p : Program) (config : Config) (n : Node) : Exec Unit := do
  match ← lift (Statement.ofType? n.type) with
  | some .stop => halt .stopBlock
  | some .wait => p.beginWait config n
  | some .ifElse => p.enterBranch n
  | some .repeatTimes => p.enterTimes n
  | some .repeatUntil => p.enterUntil n
  | some s => do
    p.effect n s
    p.goOn n.next
  | none => p.goOn n.next

end Program

end BlockProgram
