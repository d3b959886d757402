import BlockProgram.Machine.Execute

/-!
# Effects act on the world alone

A run has a **world** (variables, sprite and outputs) and a place in the program. The effects of
statements read and change only the world, and report events:

* `Exec.Worldly` says this of an action: what it does to a machine is decided by the world, and
  everything else of the machine but its log stays as it is;
* it holds of the building blocks and is kept by sequencing, so it holds of every effect
  (`Program.worldly_effect`);
* hence the effect of a statement is a function on worlds, `Program.effectOn`, and running it on
  any machine is applying that function (`Program.effect_ok`, `Program.effect_error`).
-/

namespace BlockProgram

/-- What statements read and change: the variables, the sprite and the outputs from the newest
back. -/
structure World where
  vars : Dict
  sprite : Sprite
  spoken : List Output

/-- The world that a host is shown. -/
def Snapshot.world (s : Snapshot) : World := ⟨s.vars, s.sprite, s.spoken⟩

/-- The state with another world, at the same place. -/
def State.within (s : State) (w : World) : State :=
  { s with vars := w.vars, sprite := w.sprite, spoken := w.spoken }

@[simp] theorem State.world_within (s : State) (w : World) : (s.within w).world = w := rfl

/-- A machine at no place in any program, with a given world. -/
def Machine.of (w : World) : Machine := { state := ({} : State).within w }

@[simp] theorem Machine.world_of (w : World) : (Machine.of w).state.world = w := rfl

namespace Exec

variable {α β : Type}

/-! ## Running actions -/

theorem lift_apply (result : Except Fault α) (m : Machine) : lift result m = (result, m) := rfl

theorem getState_apply (m : Machine) : getState m = (.ok m.state, m) := rfl

theorem modify_apply (f : Machine → Machine) (m : Machine) :
    (modify f : Exec Unit) m = (.ok (), f m) := rfl

theorem modifyState_apply (f : State → State) (m : Machine) :
    modifyState f m = (.ok (), { m with state := f m.state }) := rfl

/-- A sequence stops at the first fault and keeps what was done before it. -/
theorem bind_apply (x : Exec α) (f : α → Exec β) (m : Machine) :
    (x >>= f) m = match x m with
      | (.ok a, m') => f a m'
      | (.error fault, m') => (.error fault, m') := by
  change (ExceptT.bind x f) m = _
  simp only [ExceptT.bind, ExceptT.mk, bind, StateT.bind, ExceptT.bindCont]
  rcases x m with ⟨_ | a, m'⟩ <;> rfl

/-- What follows an action that has succeeded starts from the machine that it has left. -/
theorem bind_ok {x : Exec α} {f : α → Exec β} {a : α} {m m' : Machine} (h : x m = (.ok a, m')) :
    (x >>= f) m = f a m' := by
  rw [bind_apply, h]

/-- Nothing follows an action that has failed. -/
theorem bind_error {x : Exec α} {f : α → Exec β} {fault : Fault} {m m' : Machine}
    (h : x m = (.error fault, m')) : (x >>= f) m = (.error fault, m') := by
  rw [bind_apply, h]

/-! ## Worldly actions -/

/-- An action that is decided by the world and leaves the place in the program alone: on any
machine it does what it does on the bare world, and reports. -/
def Worldly (x : Exec α) : Prop :=
  ∀ m : Machine, ∃ log, x m =
    ((x (.of m.state.world)).1,
      { m with state := m.state.within (x (.of m.state.world)).2.state.world, log })

theorem Worldly.pure (a : α) : Worldly (pure a : Exec α) := fun m => ⟨m.log, rfl⟩

/-- Failing at once leaves the machine as it is. -/
theorem Worldly.throw (fault : Fault) (f : α → Exec β) : Worldly (throw fault >>= f) :=
  fun m => ⟨m.log, rfl⟩

theorem Worldly.lift (result : Except Fault α) : Worldly (lift result) := fun m => ⟨m.log, rfl⟩

theorem Worldly.emit (e : Event) : Worldly (emit e) := fun m => ⟨e :: m.log, rfl⟩

/-- A report adds to the log, which is no part of the world. -/
theorem Worldly.notify : Worldly notify := fun m => ⟨.state m.state.toSnapshot :: m.log, rfl⟩

/-- A change of the state that only changes the world, and looks at nothing else for it. -/
theorem Worldly.modifyState {f : State → State} (g : World → World)
    (hf : ∀ s, f s = s.within (g s.world)) : Worldly (modifyState f) := by
  intro m
  refine ⟨m.log, ?_⟩
  simp only [modifyState_apply, hf, Machine.world_of, State.world_within]

/-- **Two actions in a row are worldly if each of them is.** The second may depend on the result of
the first, which both runs share. -/
theorem Worldly.bind {x : Exec α} {f : α → Exec β} (hx : Worldly x) (hf : ∀ a, Worldly (f a)) :
    Worldly (x >>= f) := by
  intro m
  obtain ⟨log, hm⟩ := hx m
  rcases hw : x (.of m.state.world) with ⟨fault | a, m₀⟩
  · rw [hw] at hm
    exact ⟨log, by rw [bind_error hm, bind_error hw]⟩
  · rw [hw] at hm
    obtain ⟨log', hm'⟩ := hf a { m with state := m.state.within m₀.state.world, log }
    obtain ⟨_, h₀⟩ := hf a m₀
    refine ⟨log', ?_⟩
    rw [bind_ok hm, bind_ok hw, hm', h₀]
    rfl

/-- Looking at the state is worldly as far as what follows depends on the world alone. -/
theorem Worldly.look {f : State → Exec α} (hf : ∀ s, Worldly (f s))
    (hw : ∀ (s : State) (w : World), f (s.within w) = f (({} : State).within w)) :
    Worldly (getState >>= f) := by
  intro m
  obtain ⟨log, hm⟩ := hf m.state m
  have h₀ : f m.state = f (.within {} m.state.world) := hw m.state m.state.world
  refine ⟨log, ?_⟩
  rw [bind_ok (getState_apply m), hm, h₀]
  rfl

end Exec

namespace Program

open Exec

variable (p : Program) (n : Node)

theorem worldly_slot (socket : String) : Worldly (p.slot n socket) := fun m => ⟨m.log, rfl⟩

theorem worldly_numberAt (socket : String) : Worldly (p.numberAt n socket) :=
  (p.worldly_slot n socket).bind fun v => .pure v.toNumber

theorem worldly_textAt (socket : String) : Worldly (p.textAt n socket) :=
  (p.worldly_slot n socket).bind fun v => .lift v.toText

theorem worldly_modifySprite (f : Sprite → Sprite) : Worldly (modifySprite f) :=
  .modifyState (fun w => { w with sprite := f w.sprite }) fun _ => rfl

theorem worldly_speak (kind : String) : Worldly (p.speak n kind) := by
  refine (p.worldly_textAt n "text").bind fun text => Worldly.bind ?_ fun _ => .emit _
  exact .modifyState (fun w => { w with spoken := ⟨kind, text⟩ :: w.spoken }) fun _ => rfl

theorem worldly_clearOutputs : Worldly clearOutputs := by
  refine Worldly.bind ?_ fun _ => .notify
  exact .modifyState (fun w => { w with spoken := ⟨clearKind, ""⟩ :: w.spoken }) fun _ => rfl

/-- A move reads the sprite and sets both of its coordinates, one after the other. -/
theorem worldly_moveSprite : Worldly (p.moveSprite n) := by
  refine (p.worldly_numberAt n "steps").bind fun length => .look (fun s => ?_) fun _ _ => rfl
  refine (Worldly.lift _).bind fun heading => (Worldly.lift _).bind fun degrees => ?_
  dsimp only
  split
  · exact .throw _ _
  · refine (Worldly.lift _).bind fun dx => .look (fun s => ?_) fun _ _ => rfl
    refine (Worldly.lift _).bind fun x => (worldly_modifySprite _).bind fun _ => ?_
    refine (Worldly.lift _).bind fun dy => .look (fun s => ?_) fun _ _ => rfl
    exact (Worldly.lift _).bind fun y => (worldly_modifySprite _).bind fun _ => .notify

theorem worldly_placeSprite : Worldly (p.placeSprite n) := by
  refine (p.worldly_numberAt n "x").bind fun x => (worldly_modifySprite _).bind fun _ => ?_
  exact (p.worldly_numberAt n "y").bind fun y => (worldly_modifySprite _).bind fun _ => .notify

theorem worldly_shiftX : Worldly (p.shiftX n) := by
  refine (p.worldly_numberAt n "dx").bind fun dx => .look (fun s => ?_) fun _ _ => rfl
  exact (Worldly.lift _).bind fun x => (worldly_modifySprite _).bind fun _ => .notify

theorem worldly_shiftY : Worldly (p.shiftY n) := by
  refine (p.worldly_numberAt n "dy").bind fun dy => .look (fun s => ?_) fun _ _ => rfl
  exact (Worldly.lift _).bind fun y => (worldly_modifySprite _).bind fun _ => .notify

/-- A turn reads no more than the number that it is given. -/
theorem worldly_turnTo (heading : Number) : Worldly (turnTo heading) :=
  (Worldly.lift _).bind fun _ => (worldly_modifySprite _).bind fun _ => .notify

theorem worldly_turnBy (combine : Number → Number → Option Number) :
    Worldly (p.turnBy n combine) := by
  refine (p.worldly_numberAt n "degrees").bind fun degrees => .look (fun s => ?_) fun _ _ => rfl
  exact (Worldly.lift _).bind fun heading => (Worldly.lift _).bind worldly_turnTo

theorem worldly_pointIn : Worldly (p.pointIn n) :=
  (p.worldly_numberAt n "degrees").bind worldly_turnTo

theorem worldly_setVar (name : String) (value : Value) : Worldly (setVar name value) := by
  refine Worldly.bind ?_ fun _ => .notify
  exact .modifyState (fun w => { w with vars := Dict.setNamed w.vars name value }) fun _ => rfl

theorem worldly_assignVar : Worldly (p.assignVar n) :=
  (p.worldly_textAt n "name").bind fun name =>
    (p.worldly_slot n "value").bind fun _ => worldly_setVar name _

theorem worldly_changeVar : Worldly (p.changeVar n) := by
  refine (p.worldly_textAt n "name").bind fun name =>
    (p.worldly_numberAt n "delta").bind fun d => ?_
  refine .look (fun s => ?_) fun _ _ => rfl
  exact (Worldly.lift _).bind fun sum => worldly_setVar name sum

/-- **Every effect is worldly.** -/
theorem worldly_effect (s : Statement) : Worldly (p.effect n s) := by
  cases s with
  | say => exact p.worldly_speak n "say"
  | think => exact p.worldly_speak n "think"
  | clear => exact worldly_clearOutputs
  | move => exact p.worldly_moveSprite n
  | goTo => exact p.worldly_placeSprite n
  | changeXBy => exact p.worldly_shiftX n
  | changeYBy => exact p.worldly_shiftY n
  | turnClockwise => exact p.worldly_turnBy n _
  | turnAnticlockwise => exact p.worldly_turnBy n _
  | pointIn => exact p.worldly_pointIn n
  | setVariable => exact p.worldly_assignVar n
  | changeVariable => exact p.worldly_changeVar n
  | start | stop | wait | ifElse | repeatTimes | repeatUntil | ifEnder | repeatEnder =>
    exact .pure ()

/-- The effect of a statement as a function on worlds. -/
def effectOn (s : Statement) (w : World) : Except Fault World :=
  match p.effect n s (.of w) with
  | (.ok (), m) => .ok m.state.world
  | (.error fault, _) => .error fault

/-- **An effect does to the machine what it does to the world**, and beyond that only adds to the
log. -/
theorem effect_ok {s : Statement} {m : Machine} {w : World}
    (h : p.effectOn n s m.state.world = .ok w) :
    ∃ log, p.effect n s m = (.ok (), { m with state := m.state.within w, log }) := by
  obtain ⟨log, hm⟩ := p.worldly_effect n s m
  simp only [effectOn] at h
  rcases hw : p.effect n s (.of m.state.world) with ⟨fault | ⟨⟩, m₀⟩ <;> simp only [hw] at h
  · cases h
  · cases h
    exact ⟨log, by rw [hm, hw]⟩

/-- Where it fails, it fails in the world as well, and may have changed a part of it before. -/
theorem effect_error {s : Statement} {m : Machine} {fault : Fault}
    (h : p.effectOn n s m.state.world = .error fault) :
    ∃ w log, p.effect n s m = (.error fault, { m with state := m.state.within w, log }) := by
  obtain ⟨log, hm⟩ := p.worldly_effect n s m
  simp only [effectOn] at h
  rcases hw : p.effect n s (.of m.state.world) with ⟨fault' | ⟨⟩, m₀⟩ <;> simp only [hw] at h
  · cases h
    exact ⟨m₀.state.world, log, by rw [hm, hw]⟩
  · cases h

end Program

end BlockProgram
