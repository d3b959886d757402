import BlockProgram.Machine.Step
import BlockProgram.Proofs.Machine.Effect

/-!
# A step as a function on states

A step of a machine reports events and counts ticks along the way; what it does to the state
depends on the state alone. Here a step is put together from three pure parts:

* `Program.plan` is what a node does to the world and what it asks of the run afterwards: to stop,
  to rest for some ticks, or to go on somewhere, perhaps inside a construct it enters;
* `Program.arrive` goes on at a node or, where there is none, unwinds the control frames;
* `Program.advance` is the whole step.

`step_of_advance`, `advance_of_step` and `step_error_iff` say that `Program.step` does to the state
exactly what `Program.advance` says, so that facts about runs can be proved of `advance`.
-/

namespace BlockProgram

/-- What a node asks of the run once its effect is done. -/
inductive Plan where
  /-- to end the program -/
  | stop
  /-- to stay at the node for some more ticks -/
  | rest (ticks : Nat)
  /-- to enter constructs and go on at a node or, without one, in the innermost construct -/
  | goOn (next : Option String) (entered : List Frame)

namespace State

/-- The state of a run that has ended. -/
def ended (s : State) (reason : HaltReason) : State :=
  { s with halt := some reason, current := none, waiting := none }

/-- The state after a step: with no wait in progress and no node to go on at, the run has
ended. -/
def settled (s : State) : State :=
  if s.waiting.isNone && s.current.isNone && !s.halted then s.ended .endOfProgram else s

@[simp] theorem settled_ended (s : State) (reason : HaltReason) :
    (s.ended reason).settled = s.ended reason := rfl

/-- A run that waits has something to do. -/
theorem settled_of_waiting {s : State} {w : Waiting} (h : s.waiting = some w) : s.settled = s := by
  simp [settled, h]

/-- So has a run that is at a node. -/
theorem settled_of_current {s : State} {id : String} (h : s.current = some id) :
    s.settled = s := by
  simp [settled, h]

end State

namespace Program

variable (p : Program) (config : Config)

/-- The number in a slot of a node. -/
def numberIn (n : Node) (w : World) (socket : String) : Except Fault Number :=
  (p.evaluate w.vars (n.input socket)).map Value.toNumber

/-- The ticks that a wait at a node takes. -/
def duration (n : Node) (w : World) : Except Fault Int := do
  let seconds ← p.numberIn n w "seconds"
  let seconds ← Fault.inRange seconds.toFloat?
  waitTicks config seconds

/-- What a statement does to the world and asks of the run; a node that is no statement is passed
through. -/
def planOf (n : Node) (w : World) : Option Statement → Except Fault (World × Plan)
  | some .stop => .ok (w, .stop)
  | some .wait => (p.duration config n w).map fun ticks =>
    (w, if ticks = 1 then .goOn n.next [] else .rest (ticks - 1).toNat)
  | some .ifElse => (p.evaluate w.vars (n.input "condition")).map fun condition =>
    (w, .goOn (n.branch? (if condition.truthy then "true" else "false")) [.branch n.next])
  | some .repeatTimes => (p.numberIn n w "times").map fun times =>
    (w, .goOn none [.times (times.floor?.getD 0).toNat (loopBody n) n.next])
  | some .repeatUntil => .ok (w, .goOn none [.until (n.input "until") (loopBody n) n.next])
  | some s => (p.effectOn n s w).map fun w => (w, .goOn n.next [])
  | none => .ok (w, .goOn n.next [])

/-- What a node does to the world and asks of the run. -/
def plan (n : Node) (w : World) : Except Fault (World × Plan) := do
  p.planOf config n w (← Statement.ofType? n.type)

/-- Goes on at a node or, where there is none, in the construct around. -/
def arrive (next : Option String) (s : State) : Except Fault State :=
  match next with
  | some _ => .ok { s with current := next }
  | none =>
    match unwind (p.isTrue s.vars) s.frames with
    | (.ok current, frames) => .ok { s with current, frames }
    | (.error fault, _) => .error fault

/-- Does what a node asks for. -/
def follow (n : Node) (plan : Plan) (s : State) : Except Fault State :=
  match plan with
  | .stop => .ok (s.ended .stopBlock)
  | .rest ticks => .ok { s with waiting := some ⟨n.id, ticks⟩ }
  | .goOn next entered => p.arrive next { s with frames := entered ++ s.frames }

/-- Executes a node. -/
def executed (n : Node) (s : State) : Except Fault State := do
  let (w, plan) ← p.plan config n s.world
  p.follow n plan (s.within w)

/-- One tick of a wait. -/
def ticked (w : Waiting) (s : State) : Except Fault State :=
  if 1 < w.ticks then .ok { s with waiting := some { w with ticks := w.ticks - 1 } }
  else p.arrive ((p.node? w.node).bind (·.next)) { s with waiting := none }

/-- What a step does that has been counted: a tick of a wait, or the current node. -/
def act (s : State) : Except Fault State :=
  match s.waiting, p.currentNode? s with
  | some w, _ => p.ticked w s
  | none, some n => p.executed config n s
  | none, none => .ok (s.ended .endOfProgram)

/-- A step as a function on states. -/
def advance (s : State) : Except Fault State :=
  if s.halted then .ok s
  else if s.waiting.isNone && s.current.isNone then .ok (s.ended .endOfProgram)
  else if config.maxSteps ≤ s.steps then .ok (s.ended .stepLimit)
  else (p.act config { s with steps := s.steps + 1 }).map State.settled

/-! ## Actions that do what a function says -/

open Exec

/-- An action does to the state of a machine what a function on states says, and fails where the
function does, with the same fault. -/
def Does {α : Type} (x : Exec α) (m : Machine) (result : Except Fault State) : Prop :=
  match result with
  | .ok s => ∃ a m', x m = (.ok a, m') ∧ m'.state = s
  | .error fault => ∃ m', x m = (.error fault, m')

/-- What is done in front without changing the state does not matter. -/
theorem Does.after {α β : Type} {x : Exec α} {f : α → Exec β} {a : α} {m m' : Machine}
    {result : Except Fault State} (hx : x m = (.ok a, m')) (h : Does (f a) m' result) :
    Does (x >>= f) m result := by
  simp only [Does] at h ⊢
  rw [bind_ok hx]
  exact h

/-- A sequence does what the functions in a row say. -/
theorem Does.andThen {α β : Type} {x : Exec α} {f : α → Exec β} {m : Machine}
    {result : Except Fault State} {g : State → State} (hx : Does x m result)
    (hf : ∀ a m', result = .ok m'.state → Does (f a) m' (.ok (g m'.state))) :
    Does (x >>= f) m (result.map g) := by
  rcases result with fault | s
  · obtain ⟨m', hm⟩ := hx
    exact ⟨m', bind_error hm⟩
  · obtain ⟨a, m', hm, rfl⟩ := hx
    exact Does.after hm (hf a m' rfl)

/-- Reading something first that leaves the machine alone. -/
theorem Does.reading {α β : Type} {x : Exec α} {f : α → Exec β} {m : Machine}
    {read : Except Fault α} {g : α → Except Fault State} (hx : x m = (read, m))
    (hf : ∀ a, Does (f a) m (g a)) : Does (x >>= f) m (read >>= g) := by
  rcases read with fault | a
  · exact ⟨m, bind_error hx⟩
  · exact Does.after hx (hf a)

/-- Ending a run that goes on records the reason and leaves it nowhere. -/
theorem does_halt (reason : HaltReason) {m : Machine} (h : m.state.halted = false) :
    Does (halt reason) m (.ok (m.state.ended reason)) := by
  simp only [halt]
  refine Does.after (getState_apply m) ?_
  rw [h]
  exact ⟨_, _, rfl, rfl⟩

/-- Ending the run instead of a step. -/
theorem does_haltStep {reason : HaltReason} {r : StepResult} {m : Machine}
    (h : m.state.halted = false) :
    Does (do halt reason; return r) m (.ok (m.state.ended reason)) := by
  obtain ⟨_, m', hm, hs⟩ := does_halt reason h
  exact Does.after hm ⟨r, m', rfl, hs⟩

/-- A run ends only once: the first reason stays. -/
theorem halt_apply_of_halted {reason : HaltReason} {m : Machine} (h : m.state.halted = true) :
    halt reason m = (.ok (), m) := by
  simp only [halt]
  rw [bind_ok (getState_apply m), h]
  rfl

/-- Settling a run that does not wait. -/
theorem does_settle {m : Machine} (h : m.state.waiting = none) :
    Does settle m (.ok m.state.settled) := by
  simp only [settle]
  refine Does.after (getState_apply m) ?_
  rcases hc : m.state.current with _ | id
  · simp only [Option.isNone_none, if_true]
    by_cases hh : m.state.halted
    · refine Does.after (halt_apply_of_halted hh) ⟨_, m, rfl, ?_⟩
      simp [State.settled, hh]
    · have hlive : m.state.halted = false := by simpa using hh
      obtain ⟨a, m', hm, hs⟩ := does_halt .endOfProgram hlive
      refine Does.after hm ⟨_, m', rfl, ?_⟩
      simp [State.settled, h, hc, hlive, hs]
  · rw [State.settled_of_current hc]
    exact ⟨_, m, rfl, rfl⟩

/-- Going on is arriving at the next node or, without one, in the construct around. -/
theorem does_goOn (next : Option String) (m : Machine) :
    Does (p.goOn next) m (p.arrive next m.state) := by
  rcases next with _ | id
  · show Does p.resume m _
    simp only [arrive]
    rcases hu : unwind (p.isTrue m.state.vars) m.state.frames with ⟨_ | current, frames⟩
    · exact ⟨_, by simp only [resume, hu]; rfl⟩
    · exact ⟨(), _, by simp only [resume, hu]; rfl, rfl⟩
  · exact ⟨(), _, rfl, rfl⟩

theorem does_enter (frame : Frame) (m : Machine) :
    Does (p.enter frame) m (p.arrive none { m.state with frames := frame :: m.state.frames }) :=
  Does.after (modifyState_apply _ m) (p.does_goOn none _)

theorem slot_apply (n : Node) (socket : String) (m : Machine) :
    p.slot n socket m = (p.evaluate m.state.vars (n.input socket), m) := rfl

theorem numberAt_apply (n : Node) (socket : String) (m : Machine) :
    p.numberAt n socket m = (p.numberIn n m.state.world socket, m) := by
  simp only [numberAt, numberIn]
  show _ = (Except.map _ (p.evaluate m.state.vars (n.input socket)), m)
  rcases h : p.evaluate m.state.vars (n.input socket) with fault | v
  · exact bind_error (by rw [slot_apply, h])
  · exact bind_ok (by rw [slot_apply, h])

/-- Executing a node, given what it does to the world and asks of the run. -/
def carryOut (n : Node) (s : State) (planned : Except Fault (World × Plan)) :
    Except Fault State := do
  let (w, plan) ← planned
  p.follow n plan (s.within w)

/-- What is read first decides the plan, and a fault in it leaves the state alone. -/
theorem carryOut_map {α : Type} (n : Node) (s : State) (read : Except Fault α)
    (f : α → World × Plan) : p.carryOut n s (read.map f) =
      read >>= fun a => p.follow n (f a).2 (s.within (f a).1) := by
  cases read <;> rfl

/-- An effect and going on after it is carrying out the plan to go on in the world after it. -/
theorem does_effect (n : Node) (s : Statement) (m : Machine) :
    Does (do p.effect n s; p.goOn n.next) m (p.carryOut n m.state
      ((p.effectOn n s m.state.world).map fun w => (w, .goOn n.next []))) := by
  rcases h : p.effectOn n s m.state.world with fault | w
  · obtain ⟨w, log, hm⟩ := p.effect_error n h
    exact ⟨_, bind_error hm⟩
  · obtain ⟨log, hm⟩ := p.effect_ok n h
    exact Does.after hm (p.does_goOn n.next _)

/-- Beginning a wait is carrying out its plan. A wait of one tick is over at once. -/
theorem does_beginWait (n : Node) (m : Machine) :
    Does (p.beginWait config n) m (p.carryOut n m.state
      (p.planOf config n m.state.world (some .wait))) := by
  show Does _ m (p.carryOut n m.state (Except.map _ _))
  rw [carryOut_map]
  simp only [beginWait, duration]
  simp only [bind_assoc]
  refine Does.reading (p.numberAt_apply n "seconds" m) fun seconds => ?_
  refine Does.reading (lift_apply _ m) fun seconds => ?_
  refine Does.reading (lift_apply _ m) fun ticks => ?_
  refine Does.after (modify_apply _ m) ?_
  by_cases h : ticks = 1
  · simp only [h, if_true]
    exact p.does_goOn n.next _
  · simp only [h, if_false]
    exact ⟨(), _, rfl, rfl⟩

/-- Entering a branch is going on at its head with one frame more. -/
theorem does_enterBranch (n : Node) (m : Machine) :
    Does (p.enterBranch n) m (p.carryOut n m.state
      (p.planOf config n m.state.world (some .ifElse))) := by
  show Does _ m (p.carryOut n m.state (Except.map _ _))
  rw [carryOut_map]
  refine Does.reading (p.slot_apply n "condition" m) fun condition => ?_
  exact Does.after (modifyState_apply _ m) (p.does_goOn _ _)

theorem does_enterTimes (n : Node) (m : Machine) :
    Does (p.enterTimes n) m (p.carryOut n m.state
      (p.planOf config n m.state.world (some .repeatTimes))) := by
  show Does _ m (p.carryOut n m.state (Except.map _ _))
  rw [carryOut_map]
  exact Does.reading (p.numberAt_apply n "times" m) fun times => p.does_enter _ m

/-- **Executing a node does what its plan says.** -/
theorem does_execute (n : Node) {m : Machine} (hm : m.state.halted = false) :
    Does (p.execute config n) m (p.executed config n m.state) := by
  simp only [execute, executed, plan]
  rcases ht : Statement.ofType? n.type with fault | _ | s
  · exact ⟨m, rfl⟩
  · exact Does.after (lift_apply _ m) (p.does_goOn n.next m)
  · refine Does.after (lift_apply _ m) ?_
    have heffect := p.does_effect n s m
    cases s with
    | stop => exact does_halt _ hm
    | wait => exact p.does_beginWait config n m
    | ifElse => exact p.does_enterBranch config n m
    | repeatTimes => exact p.does_enterTimes config n m
    | repeatUntil => exact p.does_enter _ m
    | _ => exact heffect

/-! ## The whole step -/

/-- Arriving changes where the run is and which frames it has, and nothing else. -/
theorem arrive_ok {next : Option String} {s s' : State} (h : p.arrive next s = .ok s') :
    ∃ current frames, s' = { s with current, frames } := by
  rcases next with _ | id
  · simp only [arrive] at h
    split at h
    · cases h
      exact ⟨_, _, rfl⟩
    · cases h
  · cases h
    exact ⟨some id, s.frames, rfl⟩

/-- Visiting a node is executing it and settling. What is printed and reported is no part of the
state. -/
theorem does_visit (n : Node) {m : Machine} (hm : m.state.halted = false) :
    Does (p.visit config n) m ((p.executed config n m.state).map State.settled) := by
  -- whatever is printed and reported in front, the node is executed in the same state
  have hrest : ∀ m₀ : Machine, m₀.state = m.state → Does (do
      p.execute config n
      let s ← getState
      if s.waiting.isSome then return ⟨false, true⟩ else settle)
      m₀ ((p.executed config n m.state).map State.settled) := by
    intro m₀ h₀
    rw [← h₀] at hm ⊢
    refine Does.andThen (p.does_execute config n hm) fun _ m' _ => ?_
    refine Does.after (getState_apply m') ?_
    rcases hw : m'.state.waiting with _ | w
    · exact does_settle hw
    · rw [State.settled_of_waiting hw]
      exact ⟨_, m', rfl, rfl⟩
  simp only [visit]
  refine Does.after (modify_apply _ m) ?_
  by_cases hv : config.verbose
  · simp only [hv, if_true]
    exact Does.after (getState_apply _) (Does.after (modify_apply _ _) (hrest _ rfl))
  · simp only [hv]
    exact hrest _ rfl

/-- A tick of a wait does what the state of the wait says, and settles. -/
theorem does_tick (w : Waiting) (m : Machine) :
    Does (p.tick w) m ((p.ticked w m.state).map State.settled) := by
  simp only [tick, ticked]
  refine Does.after (modify_apply _ m) (Does.after (modify_apply _ _) ?_)
  by_cases h : 1 < w.ticks
  · simp only [h, if_true]
    exact ⟨_, _, rfl, rfl⟩
  · simp only [h, if_false]
    refine Does.after (modifyState_apply _ _) ?_
    refine Does.andThen (p.does_goOn _ _) fun _ m' hm' => does_settle ?_
    obtain ⟨current, frames, hs⟩ := p.arrive_ok hm'
    rw [hs]

/-- **A step does to the state what `advance` says.** -/
theorem does_step (m : Machine) : Does (p.step config) m (p.advance config m.state) := by
  simp only [step, advance]
  refine Does.after (modify_apply _ m) (Does.after (getState_apply _) ?_)
  by_cases hh : m.state.halted
  · simp only [hh, if_true]
    exact ⟨_, _, rfl, rfl⟩
  have hlive : m.state.halted = false := by simpa using hh
  by_cases hend : m.state.waiting.isNone && m.state.current.isNone
  · simp only [hlive, hend, if_true]
    exact does_haltStep hlive
  by_cases hlimit : config.maxSteps ≤ m.state.steps
  · simp only [hlive, hend, hlimit, if_true]
    exact does_haltStep hlive
  simp only [hlive, hend, hlimit, if_false, act, currentNode?]
  refine Does.after (modifyState_apply _ _) ?_
  rcases m.state.waiting with _ | w
  · rcases m.state.current.bind p.node? with _ | n
    · exact does_haltStep hlive
    · exact p.does_visit config n hlive
  · exact p.does_tick w _

variable {p config}

/-- Where the state can advance, the step succeeds and leaves that state. -/
theorem step_of_advance {m : Machine} {s : State} (h : p.advance config m.state = .ok s) :
    ∃ r m', p.step config m = (.ok r, m') ∧ m'.state = s := by
  have hstep := p.does_step config m
  rw [h] at hstep
  exact hstep

/-- Conversely, a step that succeeds has advanced the state. -/
theorem advance_of_step {m m' : Machine} {r : StepResult}
    (h : p.step config m = (.ok r, m')) : p.advance config m.state = .ok m'.state := by
  have hstep := p.does_step config m
  rcases ha : p.advance config m.state with fault | s <;> rw [ha] at hstep
  · obtain ⟨m₀, h₀⟩ := hstep
    rw [h] at h₀
    cases h₀
  · obtain ⟨a, m₀, h₀, rfl⟩ := hstep
    rw [h] at h₀
    cases h₀
    rfl

/-- A step fails exactly where `advance` does, with the same fault. -/
theorem step_error_iff {m : Machine} {fault : Fault} :
    (p.step config m).1 = .error fault ↔ p.advance config m.state = .error fault := by
  have hstep := p.does_step config m
  rcases ha : p.advance config m.state with fault' | s <;> rw [ha] at hstep
  · obtain ⟨m₀, h₀⟩ := hstep
    rw [h₀]
    constructor <;> (intro h; cases h; rfl)
  · obtain ⟨a, m₀, h₀, -⟩ := hstep
    rw [h₀]
    constructor <;> (intro h; cases h)

end Program

end BlockProgram
