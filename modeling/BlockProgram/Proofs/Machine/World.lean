import BlockProgram.Proofs.Machine.Advance

/-!
# What the effects do to the world

`Program.effectOn` runs the effect of a statement on a bare machine. Here it is written out as a
plain function on worlds, `Program.worldAfter`, which says for every statement which slots it reads
and what it changes; `Program.effectOn_eq` says that the two are the same. Facts about single
effects are proved of the written-out function.
-/

namespace BlockProgram

namespace Sprite

/-- The sprite a length further along its heading. -/
def moved (sprite : Sprite) (length : Number) : Except Fault Sprite := do
  let heading ← sprite.heading.needNumber
  let degrees ← Fault.inRange heading.toFloat?
  if (Program.radians degrees).isInf then .error .infiniteAngle
  else
    let dx ← Program.component (Float.cos (Program.radians degrees)) length
    let x ← Fault.inRange (sprite.x.add? dx)
    let dy ← Program.component (Float.sin (Program.radians degrees)) length
    let y ← Fault.inRange (sprite.y.sub? dy)
    return { sprite with x, y }

/-- The sprite turned to a heading. -/
def facing (sprite : Sprite) (heading : Number) : Except Fault Sprite :=
  (Fault.inRange (heading.mod? Program.fullTurn)).map fun reduced =>
    { sprite with heading := .ofNumber reduced }

/-- The sprite turned by some degrees, which are added to or taken from its heading. -/
def turned (sprite : Sprite) (combine : Number → Number → Option Number) (degrees : Number) :
    Except Fault Sprite := do
  let heading ← sprite.heading.needNumber
  let turned ← Fault.inRange (combine heading degrees)
  sprite.facing turned

end Sprite

namespace World

/-- The world with another sprite. -/
def showing (w : World) (sprite : Sprite) : World := { w with sprite }

/-- The world with one more output. -/
def saying (w : World) (kind text : String) : World := { w with spoken := ⟨kind, text⟩ :: w.spoken }

/-- The world with a value stored in a variable. -/
def storing (w : World) (name : String) (value : Value) : World :=
  { w with vars := Dict.setNamed w.vars name value }

end World

namespace Program

open Exec

variable (p : Program) (n : Node)

/-- The text in a slot of a node. -/
def textIn (n : Node) (w : World) (socket : String) : Except Fault String :=
  (p.evaluate w.vars (n.input socket)).bind Value.toText

/-- **The effects written out.** Statements that only steer a run leave the world as it is. -/
def worldAfter (w : World) : Statement → Except Fault World
  | .say => (p.textIn n w "text").map (w.saying "say")
  | .think => (p.textIn n w "text").map (w.saying "think")
  | .clear => .ok (w.saying clearKind "")
  | .move => do
    let length ← p.numberIn n w "steps"
    let sprite ← w.sprite.moved length
    return w.showing sprite
  | .goTo => do
    let x ← p.numberIn n w "x"
    let y ← p.numberIn n w "y"
    return w.showing { w.sprite with x, y }
  | .changeXBy => do
    let dx ← p.numberIn n w "dx"
    let x ← Fault.inRange (w.sprite.x.add? dx)
    return w.showing { w.sprite with x }
  | .changeYBy => do
    let dy ← p.numberIn n w "dy"
    let y ← Fault.inRange (w.sprite.y.add? dy)
    return w.showing { w.sprite with y }
  | .turnClockwise => do
    let degrees ← p.numberIn n w "degrees"
    let sprite ← w.sprite.turned Number.add? degrees
    return w.showing sprite
  | .turnAnticlockwise => do
    let degrees ← p.numberIn n w "degrees"
    let sprite ← w.sprite.turned Number.sub? degrees
    return w.showing sprite
  | .pointIn => do
    let degrees ← p.numberIn n w "degrees"
    let sprite ← w.sprite.facing degrees
    return w.showing sprite
  | .setVariable => do
    let name ← p.textIn n w "name"
    let value ← p.evaluate w.vars (n.input "value")
    return w.storing name (match value with | .null => .int 0 | v => v)
  | .changeVariable => do
    let name ← p.textIn n w "name"
    let delta ← p.numberIn n w "delta"
    let sum ← Value.ofResult (((Dict.named? w.vars name).getD (.int 0)).toNumber.add? delta)
    return w.storing name sum
  | _ => .ok w

/-! ## Running the effects -/

theorem textAt_apply (socket : String) (m : Machine) :
    p.textAt n socket m = (p.textIn n m.state.world socket, m) := by
  simp only [textAt, textIn]
  show _ = ((p.evaluate m.state.vars (n.input socket)).bind _, m)
  rcases h : p.evaluate m.state.vars (n.input socket) with fault | v
  · exact bind_error (by rw [slot_apply, h])
  · exact bind_ok (by rw [slot_apply, h])

variable {p n} {α β : Type} {x : Exec α} {f : α → Exec β} {m : Machine}

/-- Reading something first that an effect on worlds reads first as well. -/
theorem Does.readingFor {read : Except Fault α} {g : α → Except Fault World} {h : World → State}
    (hx : x m = (read, m)) (hf : ∀ a, Does (f a) m ((g a).map h)) :
    Does (x >>= f) m ((read >>= g).map h) := by
  rcases read with fault | a
  · exact ⟨m, bind_error hx⟩
  · exact Does.after hx (hf a)

/-- The same where the effect only puts to use what was read. -/
theorem Does.readingTo {read : Except Fault α} {g : α → World} {h : World → State}
    (hx : x m = (read, m)) (hf : ∀ a, Does (f a) m (.ok (h (g a)))) :
    Does (x >>= f) m ((read.map g).map h) := by
  rcases read with fault | a
  · exact ⟨m, bind_error hx⟩
  · exact Does.after hx (hf a)

theorem does_speak (kind : String) (m : Machine) : Does (p.speak n kind) m
    (((p.textIn n m.state.world "text").map (m.state.world.saying kind)).map m.state.within) := by
  refine Does.readingTo (p.textAt_apply n "text" m) fun text => ?_
  refine Does.after (modifyState_apply _ m) ?_
  exact ⟨_, _, rfl, rfl⟩

theorem does_moveSprite (m : Machine) : Does (p.moveSprite n) m
    ((p.worldAfter n m.state.world .move).map m.state.within) := by
  simp only [worldAfter, Sprite.moved]
  simp only [bind_assoc]
  refine Does.readingFor (p.numberAt_apply n "steps" m) fun length => ?_
  refine Does.after (getState_apply m) ?_
  refine Does.readingFor (lift_apply _ m) fun heading => ?_
  refine Does.readingFor (lift_apply _ m) fun degrees => ?_
  dsimp only
  by_cases hangle : (radians degrees).isInf
  · rw [if_pos hangle, if_pos hangle]
    exact ⟨m, rfl⟩
  rw [if_neg hangle, if_neg hangle]
  simp only [bind_assoc]
  refine Does.readingFor (lift_apply _ m) fun dx => ?_
  refine Does.after (getState_apply m) ?_
  refine Does.readingFor (lift_apply _ m) fun x => ?_
  -- the position across is stored before the position down is computed
  refine Does.after (modifyState_apply _ m) ?_
  refine Does.readingFor (lift_apply _ _) fun dy => ?_
  refine Does.after (getState_apply _) ?_
  refine Does.readingFor (lift_apply _ _) fun y => ?_
  refine Does.after (modifyState_apply _ _) ?_
  exact ⟨_, _, rfl, rfl⟩

theorem does_placeSprite (m : Machine) : Does (p.placeSprite n) m
    ((p.worldAfter n m.state.world .goTo).map m.state.within) := by
  refine Does.readingFor (p.numberAt_apply n "x" m) fun x => ?_
  refine Does.after (modifyState_apply _ m) ?_
  refine Does.readingFor (p.numberAt_apply n "y" _) fun y => ?_
  refine Does.after (modifyState_apply _ _) ?_
  exact ⟨_, _, rfl, rfl⟩

theorem does_shiftX (m : Machine) : Does (p.shiftX n) m
    ((p.worldAfter n m.state.world .changeXBy).map m.state.within) := by
  refine Does.readingFor (p.numberAt_apply n "dx" m) fun dx => ?_
  refine Does.after (getState_apply m) ?_
  refine Does.readingFor (lift_apply _ m) fun x => ?_
  refine Does.after (modifyState_apply _ m) ?_
  exact ⟨_, _, rfl, rfl⟩

theorem does_shiftY (m : Machine) : Does (p.shiftY n) m
    ((p.worldAfter n m.state.world .changeYBy).map m.state.within) := by
  refine Does.readingFor (p.numberAt_apply n "dy" m) fun dy => ?_
  refine Does.after (getState_apply m) ?_
  refine Does.readingFor (lift_apply _ m) fun y => ?_
  refine Does.after (modifyState_apply _ m) ?_
  exact ⟨_, _, rfl, rfl⟩

theorem does_turnTo (heading : Number) (m : Machine) : Does (turnTo heading) m
    ((m.state.world.sprite.facing heading >>= fun sprite =>
      .ok (m.state.world.showing sprite)).map m.state.within) := by
  simp only [turnTo, Sprite.facing]
  rcases hreduced : Fault.inRange (heading.mod? fullTurn) with fault | reduced
  · exact ⟨m, bind_error rfl⟩
  · refine Does.after (lift_apply _ m) (Does.after (modifyState_apply _ m) ?_)
    exact ⟨_, _, rfl, rfl⟩

theorem does_turnBy (combine : Number → Number → Option Number) (m : Machine) :
    Does (p.turnBy n combine) m
      ((p.numberIn n m.state.world "degrees" >>= fun degrees =>
        m.state.world.sprite.turned combine degrees >>= fun sprite =>
          .ok (m.state.world.showing sprite)).map m.state.within) := by
  simp only [Sprite.turned]
  simp only [bind_assoc]
  refine Does.readingFor (p.numberAt_apply n "degrees" m) fun degrees => ?_
  refine Does.after (getState_apply m) ?_
  refine Does.readingFor (lift_apply _ m) fun heading => ?_
  refine Does.readingFor (lift_apply _ m) fun turned => ?_
  exact does_turnTo turned m

theorem does_pointIn (m : Machine) : Does (p.pointIn n) m
    ((p.worldAfter n m.state.world .pointIn).map m.state.within) := by
  refine Does.readingFor (p.numberAt_apply n "degrees" m) fun degrees => ?_
  exact does_turnTo degrees m

theorem does_setVar (name : String) (value : Value) (m : Machine) : Does (setVar name value) m
    (.ok (m.state.within (m.state.world.storing name value))) := by
  refine Does.after (modifyState_apply _ m) ?_
  exact ⟨_, _, rfl, rfl⟩

theorem does_assignVar (m : Machine) : Does (p.assignVar n) m
    ((p.worldAfter n m.state.world .setVariable).map m.state.within) := by
  refine Does.readingFor (p.textAt_apply n "name" m) fun name => ?_
  refine Does.readingFor (p.slot_apply n "value" m) fun value => ?_
  exact does_setVar name _ m

theorem does_changeVar (m : Machine) : Does (p.changeVar n) m
    ((p.worldAfter n m.state.world .changeVariable).map m.state.within) := by
  refine Does.readingFor (p.textAt_apply n "name" m) fun name => ?_
  refine Does.readingFor (p.numberAt_apply n "delta" m) fun delta => ?_
  refine Does.after (getState_apply m) ?_
  refine Does.readingFor (lift_apply _ m) fun sum => ?_
  exact does_setVar name sum m

theorem does_worldAfter (s : Statement) (m : Machine) :
    Does (p.effect n s) m ((p.worldAfter n m.state.world s).map m.state.within) := by
  cases s with
  | say => exact does_speak "say" m
  | think => exact does_speak "think" m
  | clear => exact ⟨_, _, rfl, rfl⟩
  | move => exact does_moveSprite m
  | goTo => exact does_placeSprite m
  | changeXBy => exact does_shiftX m
  | changeYBy => exact does_shiftY m
  | turnClockwise => exact does_turnBy Number.add? m
  | turnAnticlockwise => exact does_turnBy Number.sub? m
  | pointIn => exact does_pointIn m
  | setVariable => exact does_assignVar m
  | changeVariable => exact does_changeVar m
  | start | stop | wait | ifElse | repeatTimes | repeatUntil | ifEnder | repeatEnder =>
    exact ⟨(), m, rfl, rfl⟩

/-- **The effect of a statement is the written-out one.** -/
theorem effectOn_eq (s : Statement) (w : World) : p.effectOn n s w = p.worldAfter n w s := by
  have hdoes := @does_worldAfter p n s (.of w)
  rw [Machine.world_of] at hdoes
  simp only [effectOn]
  rcases hafter : p.worldAfter n w s with fault | w' <;> rw [hafter] at hdoes
  · obtain ⟨m', hm⟩ := hdoes
    rw [hm]
  · obtain ⟨⟨⟩, m', hm, hs⟩ := hdoes
    rw [hm]
    show Except.ok m'.state.world = _
    rw [hs, State.world_within]

end Program

end BlockProgram
