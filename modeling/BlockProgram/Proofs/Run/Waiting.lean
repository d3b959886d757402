import BlockProgram.Proofs.Machine.Relinked
import BlockProgram.Proofs.Run.Tracing

/-!
# A wait is a pause and nothing else

A wait takes its ticks, and then the run is where it would be had it passed through the node at once
(`Program.wait_passes`). The first tick is taken by the step that executes the node, all others by
steps that find the wait in progress, and either of them may be the last one. What the last one does
is the same in both: it goes on behind the node, or in the construct around, and settles the run.

* `Program.depart` is this last part. What it answers and the state it leaves do not depend on what
  is counted and reported along the way (`Program.departed_at`).
* The steps of a wait come down to it, and so does a step at a node that is passed through
  (`Program.step_beginning`, `Program.step_ticking`, `Program.step_passing`).
* In between the wait only counts down (`Program.ToWait.after_waiting`, by induction on the ticks).

The node that is passed through is the one that waits, with another type (`Program.retyped`).
-/

namespace BlockProgram

open Exec Machine

/-- A state with another number of steps. -/
def State.at (s : State) (steps : Nat) : State := { s with steps }

theorem State.settled_at (s : State) (steps : Nat) : (s.at steps).settled = s.settled.at steps := by
  have hwaiting : (s.at steps).waiting = s.waiting := rfl
  have hcurrent : (s.at steps).current = s.current := rfl
  have hhalted : (s.at steps).halted = s.halted := rfl
  simp only [settled, hwaiting, hcurrent, hhalted]
  split <;> rfl

namespace Program

variable {p q : Program} {config : Config} {n : Node} {m m' : Machine} {next : Option String}
  {s : State}

/-- The machine after a number of steps, whatever came of them. -/
def after (p : Program) (config : Config) (m : Machine) : Nat → Machine
  | 0 => m
  | k + 1 => (p.step config (p.after config m k)).2

/-! ## Departing -/

/-- Where a run goes on, also where it fails to find out. -/
def arrival (p : Program) (next : Option String) (s : State) : Except Fault Unit × State :=
  match next with
  | some _ => (.ok (), { s with current := next })
  | none =>
    match unwind (p.isTrue s.vars) s.frames with
    | (.ok current, frames) => (.ok (), { s with current, frames })
    | (.error fault, frames) => (.error fault, { s with frames })

theorem goOn_apply (next : Option String) (m : Machine) : p.goOn next m =
    ((p.arrival next m.state).1, { m with state := (p.arrival next m.state).2 }) := by
  cases next with
  | some id => rfl
  | none =>
    show p.resume m = _
    rcases hu : unwind (p.isTrue m.state.vars) m.state.frames with ⟨fault | current, frames⟩ <;>
      simp only [resume, arrival, hu]

/-- Going on does not make a run wait. -/
theorem waiting_arrival (p : Program) (next : Option String) (s : State) :
    (p.arrival next s).2.waiting = s.waiting := by
  cases next with
  | some id => rfl
  | none =>
    simp only [arrival]
    rcases unwind (p.isTrue s.vars) s.frames with ⟨fault | current, frames⟩ <;> rfl

/-- Where a run goes on does not depend on the steps that it has taken. -/
theorem arrival_at (hvalues : ∀ vars slot, q.evaluate vars slot = p.evaluate vars slot)
    (next : Option String) (s : State) (steps : Nat) :
    q.arrival next (s.at steps) = ((p.arrival next s).1, (p.arrival next s).2.at steps) := by
  cases next with
  | some id => rfl
  | none =>
    have htrue : q.isTrue (s.at steps).vars = p.isTrue s.vars := by
      funext slot
      rw [isTrue, hvalues]
      rfl
    have hframes : (s.at steps).frames = s.frames := rfl
    simp only [arrival, htrue, hframes]
    rcases unwind (p.isTrue s.vars) s.frames with ⟨fault | current, frames⟩ <;> rfl

/-- Goes on at a node, or in the construct around, and settles the run. -/
def depart (p : Program) (next : Option String) : Exec StepResult := do
  p.goOn next
  settle

theorem halt_apply_of_live {reason : HaltReason} (h : m.state.halted = false) :
    halt reason m = (.ok (), { m with
      state := m.state.ended reason
      log := .state (m.state.ended reason).toSnapshot :: m.log }) := by
  simp only [halt]
  rw [bind_ok (getState_apply m), h]
  rfl

theorem settle_apply (h : m.state.waiting = none) :
    ∃ m', settle m = (.ok ⟨m'.state.halted, false⟩, m') ∧ m'.state = m.state.settled ∧
      m'.waitTicks = m.waitTicks := by
  simp only [settle]
  rw [bind_ok (getState_apply m)]
  rcases hcurrent : m.state.current with _ | id
  · have hended {m' : Machine} (hm : halt .endOfProgram m = (.ok (), m')) : (do
        halt .endOfProgram
        let s ← getState
        return ⟨s.halted, false⟩ : Exec StepResult) m = (.ok ⟨m'.state.halted, false⟩, m') := by
      rw [bind_ok hm]
      rfl
    by_cases hhalted : m.state.halted = true
    · refine ⟨m, hended (halt_apply_of_halted hhalted), ?_, rfl⟩
      simp [State.settled, hhalted]
    · have hlive : m.state.halted = false := by simpa using hhalted
      refine ⟨_, hended (halt_apply_of_live hlive), ?_, rfl⟩
      simp [State.settled, h, hcurrent, hlive]
  · exact ⟨m, rfl, (State.settled_of_current hcurrent).symm, rfl⟩

/-- The state that departing leaves. -/
def departed (p : Program) (next : Option String) (s : State) : Except Fault StepResult × State :=
  match p.arrival next s with
  | (.ok (), s) => (.ok ⟨s.settled.halted, false⟩, s.settled)
  | (.error fault, s) => (.error fault, s)

theorem depart_apply (p : Program) (next : Option String) (hidle : m.state.waiting = none) :
    ∃ m', p.depart next m = ((p.departed next m.state).1, m') ∧
      m'.state = (p.departed next m.state).2 ∧ m'.waitTicks = m.waitTicks := by
  have hwaiting := (p.waiting_arrival next m.state).trans hidle
  have hgo := goOn_apply (p := p) next m
  simp only [depart, departed]
  rcases hfound : p.arrival next m.state with ⟨fault | ⟨⟩, s⟩ <;> rw [hfound] at hgo hwaiting
  · rw [bind_error hgo]
    exact ⟨_, rfl, rfl, rfl⟩
  · rw [bind_ok hgo]
    obtain ⟨m', hsettle, hstate, hticks⟩ := settle_apply (m := { m with state := s }) hwaiting
    rw [hsettle]
    exact ⟨m', by rw [hstate], hstate, hticks⟩

/-- Departing does not depend on the steps that a run has taken. -/
theorem departed_at (hvalues : ∀ vars slot, q.evaluate vars slot = p.evaluate vars slot)
    (next : Option String) (s : State) (steps : Nat) :
    q.departed next (s.at steps) = ((p.departed next s).1, (p.departed next s).2.at steps) := by
  simp only [departed, arrival_at hvalues next s steps]
  rcases p.arrival next s with ⟨fault | ⟨⟩, s'⟩
  · rfl
  · simp only [State.settled_at]
    rfl

/-! ## Steps -/

theorem currentNode?_iff :
    p.currentNode? s = some n ↔ s.current = some n.id ∧ p.node? n.id = some n := by
  rw [currentNode?, Option.bind_eq_some_iff]
  constructor
  · rintro ⟨id, hcurrent, hn⟩
    obtain rfl : n.id = id := findNode?_id hn
    exact ⟨hcurrent, hn⟩
  · rintro ⟨hcurrent, hn⟩
    exact ⟨n.id, hcurrent, hn⟩

/-- A step that is not the end of the run is counted, and then takes a tick or visits a node. -/
theorem step_of_room (hlive : m.state.halted = false)
    (hplace : (m.state.waiting.isNone && m.state.current.isNone) = false)
    (hroom : (m.state.steps : Int) < config.maxSteps) :
    p.step config m = (match m.state.waiting, p.currentNode? m.state with
      | some w, _ => p.tick w
      | none, some n => p.visit config n
      | none, none => do
        halt .endOfProgram
        return ⟨true, false⟩) { m.withoutLast with state := counted m.state } := by
  rw [step, bind_ok (modify_apply _ m), bind_ok (getState_apply _), if_neg (by simp [hlive]),
    if_neg (by simp [hplace]), if_neg (Int.not_le.2 hroom), bind_ok (modifyState_apply _ _)]
  rfl

/-- A step at a node visits it. -/
theorem step_of_node (hlive : m.state.halted = false) (hidle : m.state.waiting = none)
    (hnode : p.currentNode? m.state = some n) (hroom : (m.state.steps : Int) < config.maxSteps) :
    p.step config m = p.visit config n { m.withoutLast with state := counted m.state } := by
  have hplace : (m.state.waiting.isNone && m.state.current.isNone) = false := by
    rw [(currentNode?_iff.1 hnode).1]
    exact Bool.and_false _
  rw [step_of_room hlive hplace hroom, hidle, hnode]

/-- A step of a run that waits takes a tick. -/
theorem step_of_waiting {w : Waiting} (hlive : m.state.halted = false)
    (hw : m.state.waiting = some w) (hroom : (m.state.steps : Int) < config.maxSteps) :
    p.step config m = p.tick w { m.withoutLast with state := counted m.state } := by
  have hplace : (m.state.waiting.isNone && m.state.current.isNone) = false := by
    rw [hw]
    rfl
  rw [step_of_room hlive hplace hroom, hw]

/-- What a visit does after it has highlighted the node, and perhaps printed a line. -/
theorem visit_apply (p : Program) (config : Config) (n : Node) (m : Machine) :
    ∃ m₀ : Machine, m₀.state = m.state ∧ m₀.waitTicks = m.waitTicks ∧ p.visit config n m = (do
      p.execute config n
      let s ← getState
      if s.waiting.isSome then return ⟨false, true⟩ else settle : Exec StepResult) m₀ := by
  simp only [visit]
  by_cases hverbose : config.verbose = true
  · refine ⟨{ m with
      lastNode := some n.id
      log := .line (stepLine m.state.steps n) :: .highlight n.id :: m.log }, rfl, rfl, ?_⟩
    simp only [hverbose]
    rfl
  · refine ⟨{ m with lastNode := some n.id, log := .highlight n.id :: m.log }, rfl, rfl, ?_⟩
    simp only [hverbose]
    rfl

/-- After executing a node without waiting there, the run is settled. -/
theorem andThen_settle (hidle : m.state.waiting = none) : (do
      p.goOn next
      let s ← getState
      if s.waiting.isSome then return ⟨false, true⟩ else settle : Exec StepResult) m =
    p.depart next m := by
  have hwaiting := (p.waiting_arrival next m.state).trans hidle
  have hgo := goOn_apply (p := p) next m
  simp only [depart]
  rcases hfound : p.arrival next m.state with ⟨fault | ⟨⟩, s⟩ <;> rw [hfound] at hgo hwaiting
  · rw [bind_error hgo, bind_error hgo]
  · have hidle : s.waiting = none := hwaiting
    rw [bind_ok hgo, bind_ok hgo, bind_ok (getState_apply _), hidle]
    rfl

/-! ## A node that is passed through -/

/-- Executing a node that is passed through is going on behind it. -/
theorem execute_passes (hpasses : n.Passes) (m : Machine) :
    p.execute config n m = p.goOn n.next m := by
  have hidle {s : Statement} (hs : Statement.ofType? n.type = .ok (some s))
      (hpure : s = .start ∨ s = .ifEnder ∨ s = .repeatEnder) :
      p.execute config n m = p.goOn n.next m := by
    rw [execute, bind_ok (by rw [hs]; exact lift_apply _ m)]
    rcases hpure with rfl | rfl | rfl <;> rfl
  rcases hpasses with hcloses | hstart | hnone
  · obtain ⟨type, htype, hender⟩ := Node.exists_of_closes hcloses
    rcases Statement.named?_ender hender with hnamed | hnamed
    · exact hidle (by rw [htype, ← hnamed]; rfl) (.inr (.inl rfl))
    · exact hidle (by rw [htype, ← hnamed]; rfl) (.inr (.inr rfl))
  · exact hidle ((Node.ofType?_eq_some (by decide)).2 hstart) (.inl rfl)
  · rw [execute, bind_ok (by rw [hnone]; exact lift_apply _ m)]

/-- A step at a node that is passed through departs from it. -/
theorem step_passing (hlive : m.state.halted = false) (hidle : m.state.waiting = none)
    (hnode : p.currentNode? m.state = some n) (hroom : (m.state.steps : Int) < config.maxSteps)
    (hpasses : n.Passes) : ∃ m₀ : Machine, m₀.state = counted m.state ∧
      p.step config m = p.depart n.next m₀ := by
  rw [step_of_node hlive hidle hnode hroom]
  obtain ⟨m₀, hstate, -, hvisit⟩ := visit_apply p config n
    { m.withoutLast with state := counted m.state }
  refine ⟨m₀, hstate, ?_⟩
  rw [hvisit, ← andThen_settle (by rw [hstate]; exact hidle), bind_apply, bind_apply,
    execute_passes hpasses]

/-- A program with another type for one of its nodes. -/
def retyped (p : Program) (id : String) (type : Value) : Program :=
  { p with nodes := p.nodes.map fun n => if n.id = id then { n with type } else n }

theorem node?_retyped {a id : String} {type : Value} : (p.retyped a type).node? id =
    (p.node? id).map fun n => if id = a then { n with type } else n := by
  have hids : ((fun n : Node => n.id == id) ∘
      fun n : Node => if n.id = a then { n with type } else n) = fun n => n.id == id := by
    funext n
    rw [Function.comp]
    split <;> rfl
  rw [node?, findNode?, retyped, List.find?_map, hids]
  refine Option.map_congr fun n hn => ?_
  rw [findNode?_id hn]

/-- A type that is no reporter in place of one that is none leaves the values of slots alone. -/
theorem evaluate_retyped {type : Value} (hn : p.node? n.id = some n)
    (hsilent : Reporter.ofType? n.type = .ok none) (hsilent' : Reporter.ofType? type = .ok none)
    (vars : Dict) (slot : Value) :
    (p.retyped n.id type).evaluate vars slot = p.evaluate vars slot := by
  have hsame : SameReporters (fun _ => False) p.nodes (p.retyped n.id type).nodes := by
    refine ⟨fun _ hgone => hgone.elim, fun id => ?_⟩
    change (Silent (p.node? id) ∧ Silent ((p.retyped n.id type).node? id)) ∨
      ∃ a a', p.node? id = some a ∧ (p.retyped n.id type).node? id = some a' ∧ _
    rw [node?_retyped]
    by_cases hid : id = n.id
    · left
      subst hid
      rw [hn, Option.map_some, if_pos rfl]
      constructor
      · rintro _ ⟨⟩
        exact hsilent
      · rintro _ ⟨⟩
        exact hsilent'
    · rcases ha : p.node? id with _ | a
      · exact .inl ⟨silent_none, silent_none⟩
      · right
        refine ⟨a, a, rfl, ?_, rfl, fun _ => .inl rfl⟩
        rw [Option.map_some, if_neg hid]
  exact (evaluate_eq hsame vars slot).symm

/-- A node that waits is no reporter. -/
theorem silent_of_wait (h : n.is .wait = true) : Reporter.ofType? n.type = .ok none := by
  have htype : n.type.isStr Statement.wait.typeName = true := h
  cases hn : n.type with
  | str type =>
    rw [hn] at htype
    obtain rfl := beq_iff_eq.1 htype
    have hnamed : Reporter.named? Statement.wait.typeName = none := by decide +kernel
    exact congrArg Except.ok hnamed
  | _ =>
    rw [hn] at htype
    cases htype

/-! ## A node that waits -/

/-- The parts of a duration: the seconds in the slot, as a float, and their ticks. -/
theorem duration_ok {w : World} {ticks : Int} (h : p.duration config n w = .ok ticks) :
    ∃ seconds raw, p.numberIn n w "seconds" = .ok seconds ∧
      Fault.inRange seconds.toFloat? = .ok raw ∧ waitTicks config raw = .ok ticks := by
  simp only [duration] at h
  rcases hseconds : p.numberIn n w "seconds" with fault | seconds <;> rw [hseconds] at h
  · cases h
  change (Fault.inRange seconds.toFloat? >>= waitTicks config) = .ok ticks at h
  rcases hraw : Fault.inRange seconds.toFloat? with fault | raw <;> rw [hraw] at h
  · cases h
  exact ⟨seconds, raw, rfl, hraw, h⟩

/-- Beginning a wait takes a tick. If that is all, the run goes on, and otherwise it stays. -/
theorem beginWait_apply {ticks : Int} (hticks : p.duration config n m.state.world = .ok ticks) :
    p.beginWait config n m = (if ticks = 1 then p.goOn n.next
      else modifyState fun s => { s with waiting := some ⟨n.id, (ticks - 1).toNat⟩ } : Exec Unit)
        { m with waitTicks := m.waitTicks + 1 } := by
  obtain ⟨seconds, raw, hseconds, hraw, hticks⟩ := duration_ok hticks
  have hread : p.numberAt n "seconds" m = (.ok seconds, m) := by rw [numberAt_apply, hseconds]
  rw [beginWait, bind_ok hread, bind_ok (by rw [hraw]; exact lift_apply _ m),
    bind_ok (by rw [hticks]; exact lift_apply _ m), bind_ok (modify_apply _ m)]

/-- **The first step of a wait** takes a tick. It is the last one as well if the wait has no other,
and leaves the others to be taken if it has. -/
theorem step_beginning {ticks : Int} (hlive : m.state.halted = false)
    (hidle : m.state.waiting = none) (hnode : p.currentNode? m.state = some n)
    (hroom : (m.state.steps : Int) < config.maxSteps) (hwait : n.is .wait = true)
    (hticks : p.duration config n m.state.world = .ok ticks) :
    ∃ m₀ : Machine, m₀.state = counted m.state ∧ m₀.waitTicks = m.waitTicks + 1 ∧
      p.step config m = if ticks = 1 then p.depart n.next m₀ else
        (.ok ⟨false, true⟩, { m₀ with
          state := { counted m.state with waiting := some ⟨n.id, (ticks - 1).toNat⟩ } }) := by
  rw [step_of_node hlive hidle hnode hroom]
  obtain ⟨m₀, hstate, hcount, hvisit⟩ := visit_apply p config n
    { m.withoutLast with state := counted m.state }
  have hexecute : p.execute config n m₀ = p.beginWait config n m₀ := by
    have hs : Statement.ofType? n.type = .ok (some .wait) :=
      (Node.ofType?_eq_some (by decide)).2 hwait
    rw [execute, bind_ok (by rw [hs]; exact lift_apply _ m₀)]
  have hticks₀ : p.duration config n m₀.state.world = .ok ticks := by rwa [hstate]
  have hbegin := beginWait_apply hticks₀
  refine ⟨{ m₀ with waitTicks := m₀.waitTicks + 1 }, hstate, congrArg (· + 1) hcount, ?_⟩
  rw [hvisit]
  split
  · rename_i hone
    rw [if_pos hone] at hbegin
    rw [← andThen_settle (by show m₀.state.waiting = none; rw [hstate]; exact hidle), bind_apply,
      bind_apply, hexecute, hbegin]
  · rename_i hmore
    rw [if_neg hmore] at hbegin
    rw [bind_ok (hexecute.trans hbegin), bind_ok (getState_apply _)]
    simp only [hstate]
    rfl

/-- **A later step of a wait** takes a tick, which is the last one or leaves others to be taken. -/
theorem step_ticking {w : Waiting} (hlive : m.state.halted = false)
    (hw : m.state.waiting = some w) (hroom : (m.state.steps : Int) < config.maxSteps) :
    ∃ m₀ : Machine, m₀.state = { counted m.state with waiting := none } ∧
      m₀.waitTicks = m.waitTicks + 1 ∧
      p.step config m = if 1 < w.ticks then
        (.ok ⟨false, true⟩, { m₀ with
          state := { counted m.state with waiting := some { w with ticks := w.ticks - 1 } } })
        else p.depart ((p.node? w.node).bind (·.next)) m₀ := by
  rw [step_of_waiting hlive hw hroom]
  refine ⟨{ m with
    state := { counted m.state with waiting := none }
    waitTicks := m.waitTicks + 1
    lastNode := some w.node
    log := .highlight w.node :: m.log }, rfl, rfl, ?_⟩
  simp only [tick]
  by_cases hmore : 1 < w.ticks
  · simp only [if_pos hmore]
    rfl
  · simp only [if_neg hmore]
    rfl

/-! ## The whole wait -/

/-- A step of a wait: its node is highlighted, and a step and a tick are counted. -/
structure Ticked (id : String) (m m' : Machine) : Prop where
  lit : Lit [id] m m'
  steps : m'.state.steps = m.state.steps + 1
  ticks : m'.waitTicks = m.waitTicks + 1

/-- A run at a node that is to wait for some ticks, all of which are within the step limit. -/
structure ToWait (p : Program) (config : Config) (n : Node) (ticks : Int) (m : Machine) : Prop where
  live : m.state.halted = false
  idle : m.state.waiting = none
  node : p.currentNode? m.state = some n
  wait : n.is .wait = true
  duration : p.duration config n m.state.world = .ok ticks
  room : (m.state.steps : Int) + ticks ≤ config.maxSteps

/-- The state of a wait with some ticks behind it and some left. -/
def waitingAt (s : State) (id : String) (taken left : Nat) : State :=
  { s.at (s.steps + taken) with waiting := some ⟨id, left⟩ }

theorem lit_of_node (hlive : m.state.halted = false) (hidle : m.state.waiting = none)
    (hnode : p.currentNode? m.state = some n) (hroom : (m.state.steps : Int) < config.maxSteps) :
    Lit [n.id] m (p.step config m).2 := by
  rw [step_of_node hlive hidle hnode hroom]
  exact (marks_visit n _).1

theorem lit_of_waiting {w : Waiting} (hlive : m.state.halted = false)
    (hw : m.state.waiting = some w) (hroom : (m.state.steps : Int) < config.maxSteps) :
    Lit [w.node] m (p.step config m).2 := by
  rw [step_of_waiting hlive hw hroom]
  exact (marks_tick w _).1

/-- The ticks of a wait are at least one, unless they are more than any run may take. -/
theorem lt_or_one_le_roundTicks (maxSteps : Int) (raw : Float) :
    maxSteps < roundTicks maxSteps raw ∨ 1 ≤ roundTicks maxSteps raw := by
  simp only [roundTicks]
  split
  · omega
  · split
    · omega
    · split <;> omega

theorem one_le_duration {w : World} {ticks : Int} (h : p.duration config n w = .ok ticks)
    (hroom : ticks ≤ config.maxSteps) : 1 ≤ ticks := by
  obtain ⟨-, raw, -, -, hticks⟩ := duration_ok h
  simp only [waitTicks] at hticks
  rcases hper : config.ticksPerSecond.needNumber with fault | perSecond <;> rw [hper] at hticks
  · cases hticks
  change (Fault.inRange perSecond.toFloat? >>= _) = _ at hticks
  rcases hfactor : Fault.inRange perSecond.toFloat? with fault | factor <;> rw [hfactor] at hticks
  · cases hticks
  · obtain rfl := Except.ok.inj hticks
    exact (lt_or_one_le_roundTicks config.maxSteps _).resolve_left (Int.not_lt.2 hroom)

/-- A wait that has room below the step limit takes a first tick and perhaps some more. -/
theorem ToWait.exists_rest {ticks : Int} (h : p.ToWait config n ticks m) :
    ∃ rest : Nat, ticks = rest + 1 := by
  have hroom := h.room
  have hpositive : 1 ≤ ticks := one_le_duration h.duration (by omega)
  exact ⟨(ticks - 1).toNat, by omega⟩

section Wait

variable {rest : Nat} (h : p.ToWait config n (rest + 1) m)
include h

/-- A step in the middle of the wait. -/
theorem ToWait.step_middle {k : Nat} {m₁ : Machine} (hk : k < rest)
    (hstate : m₁.state = waitingAt m.state n.id (k + 1) (rest - k)) :
    ∃ m₀ : Machine, m₀.state = m.state.at (m.state.steps + (k + 1 + 1)) ∧
      m₀.waitTicks = m₁.waitTicks + 1 ∧ Lit [n.id] m₁ (p.step config m₁).2 ∧
      p.step config m₁ = if 1 < rest - k then
        (.ok ⟨false, true⟩, { m₀ with state := waitingAt m.state n.id (k + 1 + 1) (rest - k - 1) })
        else p.depart n.next m₀ := by
  have hw : m₁.state.waiting = some ⟨n.id, rest - k⟩ := by
    rw [hstate]
    rfl
  have hlive : m₁.state.halted = false := by
    rw [hstate]
    exact h.live
  have hroom : (m₁.state.steps : Int) < config.maxSteps := by
    have hroom := h.room
    rw [hstate]
    show ((m.state.steps + (k + 1) : Nat) : Int) < config.maxSteps
    omega
  obtain ⟨m₀, hstate₀, hcount, hstep⟩ := step_ticking (p := p) hlive hw hroom
  refine ⟨m₀, ?_, hcount, lit_of_waiting hlive hw hroom, ?_⟩
  · have hidle : { m.state with waiting := none } = m.state := by rw [← h.idle]
    rw [hstate₀, hstate]
    show { m.state with waiting := none }.at (m.state.steps + (k + 1 + 1)) = _
    rw [hidle]
  · rw [hstep, hstate, (currentNode?_iff.1 h.node).2]
    rfl

/-- **A wait counts down.** Before its last tick the run stays at the node, and all that changes is
what is counted. -/
theorem ToWait.after_waiting {k : Nat} (hk : k < rest) :
    (p.step config (p.after config m k)).1 = .ok ⟨false, true⟩ ∧
      Ticked n.id (p.after config m k) (p.after config m (k + 1)) ∧
      (p.after config m (k + 1)).state = waitingAt m.state n.id (k + 1) (rest - k) := by
  have hroom := h.room
  induction k with
  | zero =>
    have hfirst : (m.state.steps : Int) < config.maxSteps := by omega
    obtain ⟨m₀, -, hcount, hstep⟩ :=
      step_beginning h.live h.idle h.node hfirst h.wait h.duration
    have hlit := lit_of_node h.live h.idle h.node hfirst
    have hleft : ((rest : Int) + 1 - 1).toNat = rest := by omega
    rw [if_neg (by omega), hleft] at hstep
    simp only [after]
    rw [hstep] at hlit ⊢
    exact ⟨rfl, ⟨hlit, rfl, hcount⟩, rfl⟩
  | succ k ih =>
    obtain ⟨-, -, hstate⟩ := ih (Nat.lt_of_succ_lt hk)
    obtain ⟨m₀, -, hcount, hlit, hstep⟩ := h.step_middle (Nat.lt_of_succ_lt hk) hstate
    rw [if_pos (show 1 < rest - k by omega)] at hstep
    have hnext : p.after config m (k + 1 + 1) = _ := congrArg Prod.snd hstep
    rw [hstep] at hlit
    rw [hnext, hstep]
    refine ⟨rfl, ⟨hlit, ?_, hcount⟩, rfl⟩
    rw [hstate]
    rfl

/-- The last step of a wait departs from the node, whether it is the first one as well or not. -/
theorem ToWait.departs : ∃ m₀ : Machine,
    m₀.state = m.state.at (m.state.steps + (rest + 1)) ∧
      m₀.waitTicks = (p.after config m rest).waitTicks + 1 ∧
      Lit [n.id] (p.after config m rest) (p.after config m (rest + 1)) ∧
      p.step config (p.after config m rest) = p.depart n.next m₀ := by
  cases rest with
  | zero =>
    have hroom := h.room
    have hfirst : (m.state.steps : Int) < config.maxSteps := by omega
    obtain ⟨m₀, hstate, hcount, hstep⟩ :=
      step_beginning h.live h.idle h.node hfirst h.wait h.duration
    exact ⟨m₀, hstate, hcount, lit_of_node h.live h.idle h.node hfirst, hstep⟩
  | succ k =>
    obtain ⟨-, -, hstate⟩ := h.after_waiting (Nat.lt_succ_self k)
    obtain ⟨m₀, hstate₀, hcount, hlit, hstep⟩ := h.step_middle (Nat.lt_succ_self k) hstate
    rw [if_neg (by omega)] at hstep
    exact ⟨m₀, hstate₀, hcount, hlit, hstep⟩

/-- **The last tick of a wait** leaves the state of a departure, but for the number of steps. -/
theorem ToWait.last_tick :
    Ticked n.id (p.after config m rest) (p.after config m (rest + 1)) ∧
      (p.step config (p.after config m rest)).1 = (p.departed n.next m.state).1 ∧
      (p.after config m (rest + 1)).state =
        (p.departed n.next m.state).2.at (m.state.steps + (rest + 1)) := by
  obtain ⟨m₀, hstate, hcount, hlit, hlast⟩ := h.departs
  have hidle : m₀.state.waiting = none := by
    rw [hstate]
    exact h.idle
  obtain ⟨m', hdepart, hstate', hcount'⟩ := depart_apply p n.next hidle
  have hafter : p.after config m (rest + 1) = m' := by rw [after, hlast, hdepart]
  have hsame := departed_at (fun vars slot => Eq.refl (p.evaluate vars slot)) n.next m.state
    (m.state.steps + (rest + 1))
  rw [← hstate] at hsame
  rw [hsame] at hdepart hstate'
  refine ⟨⟨hlit, ?_, ?_⟩, ?_, ?_⟩
  · rw [hafter, hstate']
    cases rest with
    | zero => rfl
    | succ k =>
      rw [(h.after_waiting (Nat.lt_succ_self k)).2.2]
      rfl
  · rw [hafter, hcount', hcount]
  · rw [hlast, hdepart]
  · rw [hafter, hstate']

/-- A step that passes through the node, having another type, leaves the state of a departure. -/
theorem ToWait.passed {type : Value} (hpasses : Node.Passes { n with type })
    (hsilent : Reporter.ofType? type = .ok none) :
    ((p.retyped n.id type).step config m).1 = (p.departed n.next m.state).1 ∧
      ((p.retyped n.id type).step config m).2.state =
        (p.departed n.next m.state).2.at (m.state.steps + 1) := by
  have hnode : (p.retyped n.id type).currentNode? m.state = some { n with type } := by
    obtain ⟨hcurrent, hn⟩ := currentNode?_iff.1 h.node
    refine currentNode?_iff.2 ⟨hcurrent, ?_⟩
    rw [node?_retyped, hn, Option.map_some, if_pos rfl]
  have hroom : (m.state.steps : Int) < config.maxSteps := by
    have hroom := h.room
    omega
  obtain ⟨m₁, hstate, hstep⟩ := step_passing h.live h.idle hnode hroom hpasses
  have hidle : m₁.state.waiting = none := by
    rw [hstate]
    exact h.idle
  obtain ⟨m', hdepart, hstate', -⟩ := depart_apply (p.retyped n.id type) n.next hidle
  have hvalues := evaluate_retyped (currentNode?_iff.1 h.node).2 (silent_of_wait h.wait) hsilent
  have hsame := departed_at hvalues n.next m.state (m.state.steps + 1)
  rw [show m.state.at (m.state.steps + 1) = m₁.state from hstate.symm] at hsame
  rw [hstep, hdepart, hstate', hsame]
  exact ⟨rfl, rfl⟩

end Wait

/-- **A wait is a pause and nothing else.** For every program and every run at a node that waits,
whatever constructs the run is inside of: if the ticks of the wait are within the step limit, the
next steps are as many as these, and each highlights the node and counts a step and a tick. All but
the last answer that the run waits and leave everything else as it is. The last one answers what a
step answers that passes through the node, of whichever type that is no reporter, and leaves the
state that such a step leaves, but for the number of steps; if unwinding fails there, it fails
alike. -/
theorem wait_passes {ticks : Int} (h : p.ToWait config n ticks m) {type : Value}
    (hpasses : Node.Passes { n with type }) (hsilent : Reporter.ofType? type = .ok none) :
    ∃ rest : Nat, ticks = rest + 1 ∧
      (∀ k ≤ rest, Ticked n.id (p.after config m k) (p.after config m (k + 1))) ∧
      (∀ k < rest, (p.step config (p.after config m k)).1 = .ok ⟨false, true⟩ ∧
        (p.after config m (k + 1)).state = waitingAt m.state n.id (k + 1) (rest - k)) ∧
      (p.step config (p.after config m rest)).1 = ((p.retyped n.id type).step config m).1 ∧
      (p.after config m (rest + 1)).state =
        ((p.retyped n.id type).step config m).2.state.at (m.state.steps + (rest + 1)) := by
  obtain ⟨rest, rfl⟩ := h.exists_rest
  obtain ⟨hticked, hanswer, hstate⟩ := h.last_tick
  obtain ⟨hanswer', hstate'⟩ := h.passed hpasses hsilent
  refine ⟨rest, rfl, fun k hk => ?_, fun k hk => ?_, ?_, ?_⟩
  · rcases Nat.lt_or_eq_of_le hk with hlt | rfl
    · exact (h.after_waiting hlt).2.1
    · exact hticked
  · exact ⟨(h.after_waiting hk).1, (h.after_waiting hk).2.2⟩
  · rw [hanswer, hanswer']
  · rw [hstate, hstate']
    rfl

/-- A loop with two rounds, each of which is a wait. -/
def restingBlocks : List Block := [
  { id := "r", type := .str "repeat_times", inputs := .dict [(.str "times", .int 2)] },
  { id := "w", type := .str "wait", inputs := .dict [(.str "seconds", .int 2)] }]

/-- The node that waits in it. -/
def restingNode : Node :=
  { id := "w", type := .str "wait", inputs := [(.str "seconds", .int 2)] }

/-- What the loop is compiled to. -/
def resting : Program where
  nodes := [
    { id := "r", type := .str "repeat_times", inputs := [(.str "times", .int 2)],
      branches := [("body", "w")] }, restingNode]
  roots := ["r", "w"]
  entry := some "r"

/-- A run of it that has come to the wait for the first time. -/
def restingInside : Machine := resting.after slowTicks (.start resting slowTicks []) 1

/-- The wait of the first round is two ticks, and then the loop goes into its second round, as it
does after passing through a start there. -/
theorem wait_passes_resting : build restingBlocks [.toBranch "r" (some "body") "w"] = .ok resting ∧
    (∃ rest : Nat, (2 : Int) = rest + 1 ∧
      (resting.after slowTicks restingInside (rest + 1)).state =
        ((resting.retyped "w" (.str startType)).step slowTicks restingInside).2.state.at
          (restingInside.state.steps + (rest + 1))) ∧
    (resting.after slowTicks restingInside 1).state.waiting = some ⟨"w", 1⟩ ∧
    (resting.after slowTicks restingInside 2).state.current = some "w" ∧
    (resting.after slowTicks restingInside 2).state.steps = 3 ∧
    (resting.after slowTicks restingInside 2).highlighted = ["w", "w", "r"] ∧
    (resting.after slowTicks restingInside 4).state.halt = some .endOfProgram := by
  have hticks : (resting.duration slowTicks restingNode restingInside.state.world).toOption =
      some 2 := by decide +kernel
  have hduration : resting.duration slowTicks restingNode restingInside.state.world = .ok 2 := by
    rcases hread : resting.duration slowTicks restingNode restingInside.state.world with
      fault | ticks <;> rw [hread] at hticks
    · cases hticks
    · rw [Option.some.inj hticks]
  have hcurrent : restingInside.state.current = some "w" := by decide +kernel
  have hnode : resting.currentNode? restingInside.state = some restingNode := by
    rw [currentNode?, hcurrent]
    rfl
  have hwait : resting.ToWait slowTicks restingNode 2 restingInside :=
    ⟨by decide +kernel, by decide +kernel, hnode, by decide +kernel, hduration, by decide +kernel⟩
  have hpasses : Node.Passes { restingNode with type := .str startType } :=
    .inr (.inl (by decide +kernel))
  obtain ⟨rest, htwo, -, -, -, hstate⟩ := wait_passes hwait hpasses rfl
  exact ⟨rfl, ⟨rest, htwo, hstate⟩, by decide +kernel, by decide +kernel, by decide +kernel,
    by decide +kernel, by decide +kernel⟩

end Program

end BlockProgram
