import BlockProgram.Proofs.Machine.Advance
import BlockProgram.Proofs.Program.Evaluate

/-!
# What outlives every step

A direction has to be a number, and one that is not infinite. A run starts with such a heading
where its configuration gives one, and every turn leaves one, since a remainder by a full turn is
never infinite. And where the values of the variables are of some kind, such as numbers that can be
written out, they stay so if the program stores no others (`Program.Storing`).

`Exec.Keeps` says of an action that an invariant of states outlives it, whatever comes of it: also
a fault leaves a state behind, and a host may go on from there. A step keeps the heading usable and
the variables of their kind (`Program.keeps_step`).
-/

namespace BlockProgram

namespace Exec

variable {α β : Type} {I : State → Prop}

/-- An action after which an invariant of states still holds, also where it fails. -/
def Keeps (I : State → Prop) (x : Exec α) : Prop := ∀ m : Machine, I m.state → I (x m).2.state

/-- An action that leaves the state alone keeps everything. -/
theorem Keeps.still {x : Exec α} (h : ∀ m, (x m).2.state = m.state) : Keeps I x := by
  intro m hm
  rw [h]
  exact hm

theorem Keeps.lift (result : Except Fault α) : Keeps I (lift result) := .still fun _ => rfl

theorem Keeps.pure (a : α) : Keeps I (pure a : Exec α) := .still fun _ => rfl

/-- What follows a failure is never reached. -/
theorem Keeps.throw (fault : Fault) (f : α → Exec β) : Keeps I (throw fault >>= f) :=
  .still fun _ => rfl

theorem Keeps.modifyState {f : State → State} (hf : ∀ s, I s → I (f s)) :
    Keeps I (modifyState f) := fun m hm => hf m.state hm

/-- What two actions keep, both in a row keep, also where the first one fails. -/
theorem Keeps.bind {x : Exec α} {f : α → Exec β} (hx : Keeps I x) (hf : ∀ a, Keeps I (f a)) :
    Keeps I (x >>= f) := by
  intro m hm
  have hfirst := hx m hm
  rw [bind_apply]
  rcases hrun : x m with ⟨fault | a, m'⟩ <;> rw [hrun] at hfirst
  · exact hfirst
  · exact hf a m' hfirst

/-- What follows an action may rely on a property that all its results have. -/
theorem Keeps.bindOf {Q : α → Prop} {x : Exec α} {f : α → Exec β} (hx : Keeps I x)
    (hQ : ∀ m : Machine, I m.state → ∀ a, (x m).1 = .ok a → Q a) (hf : ∀ a, Q a → Keeps I (f a)) :
    Keeps I (x >>= f) := by
  intro m hm
  have hfirst := hx m hm
  have hresult := hQ m hm
  rw [bind_apply]
  rcases hrun : x m with ⟨fault | a, m'⟩ <;> rw [hrun] at hfirst hresult
  · exact hfirst
  · exact hf a (hresult a rfl) m' hfirst

/-- What follows a computation may rely on where its result came from. -/
theorem Keeps.bindLift {result : Except Fault α} {f : α → Exec β}
    (hf : ∀ a, result = .ok a → Keeps I (f a)) : Keeps I (Exec.lift result >>= f) := by
  intro m hm
  rw [bind_apply, lift_apply]
  rcases h : result with fault | a
  · exact hm
  · exact hf a h m hm

theorem Keeps.ite {c : Prop} [Decidable c] {x y : Exec α} (hx : Keeps I x) (hy : Keeps I y) :
    Keeps I (if c then x else y) := by
  split
  · exact hx
  · exact hy

end Exec

/-- A heading that is a number and not infinite. -/
def Value.Aims (heading : Value) : Prop :=
  ∃ h, heading.number? = some h ∧ ∀ x, h = .float x → x.isInf = false

/-- A sprite with such a heading. -/
def Sprite.Aimed (sprite : Sprite) : Prop := sprite.heading.Aims

/-- A state with a heading and with values of variables of some kinds. -/
structure State.Sane (A P : Value → Prop) (s : State) : Prop where
  heading : A s.sprite.heading
  vars : ∀ entry ∈ s.vars, P entry.2

namespace Program

open Exec

/-- A program turns to headings of some kind and, from variables of some kind, stores values of that
kind. -/
structure Storing (p : Program) (A P : Value → Prop) : Prop where
  turn (x : Float) : A (.float (Binary.modulo x 360))
  zero : P (.int 0)
  slot {n : Node} {vars : Dict} {v : Value} : n ∈ p.nodes → (∀ entry ∈ vars, P entry.2) →
    p.evaluate vars (n.input "value") = .ok v → P v
  sum {old delta v : Value} : Value.ofResult (old.toNumber.add? delta.toNumber) = .ok v → P v

/-- **Every program turns to usable headings**, since a full turn is a float. -/
theorem storing_aims (p : Program) : p.Storing Value.Aims fun _ => True where
  turn x := by
    refine ⟨.float (Binary.modulo x 360), rfl, ?_⟩
    rintro _ ⟨⟩
    exact Binary.isInf_modulo x
  zero := trivial
  slot _ _ _ := trivial
  sum _ := trivial

/-- **Where no number in the nodes is too long for its text, none is stored.** -/
theorem storing_writable {p : Program} (htyped : ∀ n ∈ p.nodes, n.Typed)
    (hnodes : ∀ n ∈ p.nodes, n.Writable) : p.Storing (fun _ => True) Value.Writable where
  turn _ := trivial
  zero := Value.writable_int 1 (by decide) (by decide)
  slot {n vars v} hn hvars hv := by
    have hslot := unlessLong_evaluate htyped vars (n.input "value")
    rw [hv] at hslot
    exact hslot.of_ok ⟨hvars, hnodes⟩ ((hnodes n hn).input "value")
  sum {old delta v} hv := by
    have hsum : ∃ v, Value.ofResult (old.toNumber.add? delta.toNumber) = .ok v ∧ v.Writable :=
      Value.exists_combine? (fun _ _ _ => natAbs_add_lt) old.inRange_toNumber delta.inRange_toNumber
    obtain ⟨v', hv', hwritable⟩ := hsum
    rw [hv'] at hv
    cases hv
    exact hwritable

variable {p : Program} {config : Config} {n : Node} {A P : Value → Prop} {I : State → Prop}

theorem keeps_slot (socket : String) : Keeps I (p.slot n socket) := .still fun _ => rfl

theorem keeps_numberAt (socket : String) : Keeps I (p.numberAt n socket) :=
  (keeps_slot socket).bind fun _ => .pure _

theorem keeps_textAt (socket : String) : Keeps I (p.textAt n socket) :=
  (keeps_slot socket).bind fun _ => .lift _

theorem keeps_getState : Keeps I getState := .still fun _ => rfl

theorem keeps_notify : Keeps I notify := .still fun _ => rfl

/-- A change of the state that neither turns the sprite nor stores anything. -/
theorem keeps_modifyState {f : State → State}
    (hf : ∀ s, (f s).sprite.heading = s.sprite.heading ∧ (f s).vars = s.vars) :
    Keeps (State.Sane A P) (modifyState f) := by
  refine .modifyState fun s hs => ?_
  obtain ⟨hheading, hvars⟩ := hf s
  exact ⟨hheading ▸ hs.heading, hvars ▸ hs.vars⟩

/-! ## Effects -/

/-- Saying and thinking add to the outputs. -/
theorem keeps_speak (kind : String) : Keeps (State.Sane A P) (p.speak n kind) := by
  refine (keeps_textAt "text").bind fun text => Keeps.bind ?_ fun _ => .still fun _ => rfl
  exact keeps_modifyState fun _ => ⟨rfl, rfl⟩

/-- A move changes the coordinates, one after the other, and only reads the heading. -/
theorem keeps_moveSprite : Keeps (State.Sane A P) (p.moveSprite n) := by
  refine (keeps_numberAt "steps").bind fun length => keeps_getState.bind fun s => ?_
  refine (Keeps.lift _).bind fun heading => (Keeps.lift _).bind fun degrees => ?_
  refine Keeps.ite (.throw _ _) ?_
  refine (Keeps.lift _).bind fun dx => keeps_getState.bind fun s => ?_
  refine (Keeps.lift _).bind fun x => Keeps.bind (keeps_modifyState fun _ => ⟨rfl, rfl⟩) fun _ => ?_
  refine (Keeps.lift _).bind fun dy => keeps_getState.bind fun s => ?_
  exact (Keeps.lift _).bind fun y =>
    Keeps.bind (keeps_modifyState fun _ => ⟨rfl, rfl⟩) fun _ => keeps_notify

theorem keeps_placeSprite : Keeps (State.Sane A P) (p.placeSprite n) := by
  refine (keeps_numberAt "x").bind fun x => Keeps.bind (keeps_modifyState fun _ => ⟨rfl, rfl⟩) fun _ => ?_
  refine (keeps_numberAt "y").bind fun y => Keeps.bind (keeps_modifyState fun _ => ⟨rfl, rfl⟩) fun _ => ?_
  exact keeps_notify

theorem keeps_shiftX : Keeps (State.Sane A P) (p.shiftX n) := by
  refine (keeps_numberAt "dx").bind fun dx => keeps_getState.bind fun s => ?_
  exact (Keeps.lift _).bind fun x =>
    Keeps.bind (keeps_modifyState fun _ => ⟨rfl, rfl⟩) fun _ => keeps_notify

theorem keeps_shiftY : Keeps (State.Sane A P) (p.shiftY n) := by
  refine (keeps_numberAt "dy").bind fun dy => keeps_getState.bind fun s => ?_
  exact (Keeps.lift _).bind fun y =>
    Keeps.bind (keeps_modifyState fun _ => ⟨rfl, rfl⟩) fun _ => keeps_notify

/-- Setting a variable is the one way in which the variables change. -/
theorem keeps_setVar (name : String) {value : Value} (hvalue : P value) :
    Keeps (State.Sane A P) (setVar name value) := by
  refine Keeps.bind (.modifyState fun s hs => ⟨hs.heading, ?_⟩) fun _ => keeps_notify
  exact Dict.forall_insert hs.vars hvalue

section

variable (hp : p.Storing A P)
include hp

/-- Whatever the sprite turns to is reduced to one turn. -/
theorem keeps_turnTo (heading : Number) : Keeps (State.Sane A P) (turnTo heading) := by
  refine Keeps.bindLift fun reduced hreduced => Keeps.bind ?_ fun _ => keeps_notify
  refine .modifyState fun s hs => ⟨?_, hs.vars⟩
  -- a full turn is a float, so the remainder is one whatever the heading was
  obtain ⟨x, hx⟩ : ∃ x, reduced = .float (Binary.modulo x 360) := by
    simp only [Number.mod?, fullTurn] at hreduced
    rw [Number.combine?_float] at hreduced
    rcases hfloat : heading.toFloat? with _ | x <;> rw [hfloat] at hreduced
    · cases hreduced
    · cases hreduced
      exact ⟨x, rfl⟩
  rw [hx]
  exact hp.turn x

/-- Turning by some degrees is turning to their sum with the heading. -/
theorem keeps_turnBy (combine : Number → Number → Option Number) :
    Keeps (State.Sane A P) (p.turnBy n combine) := by
  refine (keeps_numberAt "degrees").bind fun degrees => keeps_getState.bind fun s => ?_
  exact (Keeps.lift _).bind fun heading => (Keeps.lift _).bind (keeps_turnTo hp)

/-- What is assigned is a value of a slot, or zero in the place of nothing. -/
theorem keeps_assignVar (hn : n ∈ p.nodes) : Keeps (State.Sane A P) (p.assignVar n) := by
  refine (keeps_textAt "name").bind fun name => ?_
  refine (keeps_slot "value").bindOf (fun m hm v hv => hp.slot hn hm.vars hv) fun value hvalue => ?_
  refine keeps_setVar name ?_
  -- nothing is stored as zero
  split
  · exact hp.zero
  · exact hvalue

/-- What a variable is changed to is a sum of two numbers, whatever it was before. -/
theorem keeps_changeVar : Keeps (State.Sane A P) (p.changeVar n) := by
  refine (keeps_textAt "name").bind fun name => ?_
  have hnumber (m : Machine) (_ : State.Sane A P m.state) (a : Number)
      (ha : (p.numberAt n "delta" m).1 = .ok a) : ∃ v : Value, v.toNumber = a := by
    rw [numberAt_apply] at ha
    obtain ⟨v, -, hv⟩ := Fault.map_ok ha
    exact ⟨v, hv⟩
  refine (keeps_numberAt "delta").bindOf hnumber ?_
  rintro delta ⟨v, rfl⟩
  exact keeps_getState.bind fun s => .bindLift fun sum hsum => keeps_setVar name (hp.sum hsum)

/-- **Every effect keeps the heading usable and the variables of their kind.** -/
theorem keeps_effect (hn : n ∈ p.nodes) (s : Statement) :
    Keeps (State.Sane A P) (p.effect n s) := by
  cases s with
  | say => exact keeps_speak "say"
  | think => exact keeps_speak "think"
  | clear => exact Keeps.bind (keeps_modifyState fun _ => ⟨rfl, rfl⟩) fun _ => keeps_notify
  | move => exact keeps_moveSprite
  | goTo => exact keeps_placeSprite
  | changeXBy => exact keeps_shiftX
  | changeYBy => exact keeps_shiftY
  | turnClockwise => exact keeps_turnBy hp Number.add?
  | turnAnticlockwise => exact keeps_turnBy hp Number.sub?
  | pointIn => exact (keeps_numberAt "degrees").bind (keeps_turnTo hp)
  | setVariable => exact keeps_assignVar hp hn
  | changeVariable => exact keeps_changeVar hp
  | start | stop | wait | ifElse | repeatTimes | repeatUntil | ifEnder | repeatEnder =>
    exact .pure ()

end

/-! ## Steps -/

theorem keeps_halt (reason : HaltReason) : Keeps (State.Sane A P) (halt reason) := by
  refine keeps_getState.bind fun s => Keeps.ite ?_ (.pure ())
  exact Keeps.bind (keeps_modifyState fun _ => ⟨rfl, rfl⟩) fun _ => keeps_notify

/-- Unwinding looks at the variables and changes none. -/
theorem keeps_goOn (next : Option String) : Keeps (State.Sane A P) (p.goOn next) := by
  rcases next with _ | id
  · intro m hm
    show State.Sane A P (p.resume m).2.state
    simp only [resume]
    rcases unwind (p.isTrue m.state.vars) m.state.frames with ⟨_ | _, _⟩ <;> exact ⟨hm.heading, hm.vars⟩
  · exact keeps_modifyState fun _ => ⟨rfl, rfl⟩

theorem keeps_enter (frame : Frame) : Keeps (State.Sane A P) (p.enter frame) :=
  Keeps.bind (keeps_modifyState fun _ => ⟨rfl, rfl⟩) fun _ => keeps_goOn none

theorem keeps_beginWait : Keeps (State.Sane A P) (p.beginWait config n) := by
  refine (keeps_numberAt "seconds").bind fun seconds => (Keeps.lift _).bind fun seconds => ?_
  refine (Keeps.lift _).bind fun ticks => Keeps.bind (.still fun _ => rfl) fun _ => ?_
  exact Keeps.ite (keeps_goOn n.next) (keeps_modifyState fun _ => ⟨rfl, rfl⟩)

/-- Control only changes frames and the place of the run, so the effects decide. -/
theorem keeps_execute (hp : p.Storing A P) (hn : n ∈ p.nodes) :
    Keeps (State.Sane A P) (p.execute config n) := by
  refine (Keeps.lift _).bind fun s => ?_
  rcases s with _ | s
  · exact keeps_goOn n.next
  cases s with
  | stop => exact keeps_halt _
  | wait => exact keeps_beginWait
  | ifElse =>
    refine (keeps_slot "condition").bind fun condition => ?_
    exact Keeps.bind (keeps_modifyState fun _ => ⟨rfl, rfl⟩) fun _ => keeps_goOn _
  | repeatTimes => exact (keeps_numberAt "times").bind fun times => keeps_enter _
  | repeatUntil => exact keeps_enter _
  | _ => exact (keeps_effect hp hn _).bind fun _ => keeps_goOn n.next

theorem keeps_settle : Keeps (State.Sane A P) settle := by
  refine keeps_getState.bind fun s => Keeps.ite ?_ ?_
  · exact (keeps_halt _).bind fun _ => .still fun _ => rfl
  · exact .still fun _ => rfl

theorem keeps_visit (hp : p.Storing A P) (hn : n ∈ p.nodes) :
    Keeps (State.Sane A P) (p.visit config n) := by
  -- whatever is printed in front does not matter
  have hrest : Keeps (State.Sane A P) (do
      p.execute config n
      let s ← getState
      if s.waiting.isSome then return ⟨false, true⟩ else settle) :=
    (keeps_execute hp hn).bind fun _ => keeps_getState.bind fun s => Keeps.ite (.pure _) keeps_settle
  refine Keeps.bind (.still fun _ => rfl) fun _ => Keeps.ite ?_ hrest
  exact keeps_getState.bind fun s => Keeps.bind (.still fun _ => rfl) fun _ => hrest

theorem keeps_tick (w : Waiting) : Keeps (State.Sane A P) (p.tick w) := by
  refine Keeps.bind (.still fun _ => rfl) fun _ => Keeps.bind (.still fun _ => rfl) fun _ => ?_
  refine Keeps.ite ?_ ?_
  · exact Keeps.bind (keeps_modifyState fun _ => ⟨rfl, rfl⟩) fun _ => .pure _
  · exact Keeps.bind (keeps_modifyState fun _ => ⟨rfl, rfl⟩) fun _ =>
      (keeps_goOn _).bind fun _ => keeps_settle

/-- **A step keeps the heading usable and the variables of their kind**, also one that fails. -/
theorem keeps_step (hp : p.Storing A P) : Keeps (State.Sane A P) (p.step config) := by
  have hhalt (reason : HaltReason) (r : StepResult) :
      Keeps (State.Sane A P) (do halt reason; return r) := (keeps_halt reason).bind fun _ => .pure r
  refine Keeps.bind (.still fun _ => rfl) fun _ => keeps_getState.bind fun s => ?_
  refine Keeps.ite (.pure _) (Keeps.ite (hhalt _ _) (Keeps.ite (hhalt _ _) ?_))
  refine Keeps.bind (keeps_modifyState fun _ => ⟨rfl, rfl⟩) fun _ => ?_
  rcases s.waiting with _ | w
  · rcases hn : p.currentNode? s with _ | n
    · exact hhalt _ _
    · obtain ⟨id, -, hnode⟩ := Option.bind_eq_some_iff.1 hn
      exact keeps_visit hp (mem_of_findNode? hnode)
  · exact keeps_tick w

end Program

end BlockProgram
