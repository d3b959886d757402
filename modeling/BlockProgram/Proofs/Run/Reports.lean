import BlockProgram.Proofs.Program.Links
import BlockProgram.Proofs.Run.Between

/-!
# What is reported mirrors the state

A host that listens to a run hears of every step, of everything that is said and of every state worth
showing. What it has heard after any calls, as long as none of them failed, agrees with the state
(`Program.Mirrors`), although the events of a step come at different points: a node is highlighted
after its step has been counted and before its tick is, an output is reported after it is kept, and a
state after it has changed.

So within a step the events lag behind. `Program.Telling` is what holds there, with the steps and
ticks that events and counters still owe each other; effects leave it as it is
(`Program.gives_effect`), and after the step nothing is owed (`Program.Told`, `Program.gives_step`).
-/

namespace BlockProgram

open Relation

/-- The id that an event highlights. -/
def Event.highlighted? : Event → Option String
  | .highlight id => some id
  | _ => none

/-- What an event says or thinks. -/
def Event.output? : Event → Option Output
  | .output kind text => some ⟨kind, text⟩
  | _ => none

/-- The ids that were highlighted, from the newest back. -/
def Machine.highlighted (m : Machine) : List String := m.log.filterMap Event.highlighted?

/-- What was reported as said or thought, from the newest back. -/
def Machine.reported (m : Machine) : List Output := m.log.filterMap Event.output?

namespace Exec

variable {α β : Type} {P Q : Machine → Prop} {m m' : Machine}

/-- What holds of the machine that an action leaves, if the action succeeds. -/
def Gives (Q : Machine → Prop) (x : Exec α) (m : Machine) : Prop := ∀ a m', x m = (.ok a, m') → Q m'

theorem Gives.pure {a : α} (h : Q m) : Gives Q (pure a : Exec α) m := by
  rintro _ _ ⟨⟩
  exact h

/-- Nothing is asked of the machine that a failure leaves. -/
theorem Gives.throw {fault : Fault} {f : β → Exec α} : Gives Q (throw fault >>= f) m := by
  rintro _ _ ⟨⟩

theorem Gives.after {x : Exec α} {f : α → Exec β} {a : α} (hx : x m = (.ok a, m'))
    (h : Gives Q (f a) m') : Gives Q (x >>= f) m := by
  intro b m'' hrun
  rw [bind_ok hx] at hrun
  exact h b m'' hrun

/-- An action gives what another one does that comes to the same. -/
theorem Gives.of_eq {x y : Exec α} (hx : x m = y m') (h : Gives Q y m') : Gives Q x m := by
  intro a m'' hrun
  rw [hx] at hrun
  exact h a m'' hrun

/-- Reading something first that leaves the machine alone. -/
theorem Gives.reading {x : Exec α} {f : α → Exec β} {read : Except Fault α} (hx : x m = (read, m))
    (h : ∀ a, read = .ok a → Gives Q (f a) m) : Gives Q (x >>= f) m := by
  rcases read with fault | a
  · intro b m' hrun
    rw [bind_error hx] at hrun
    cases hrun
  · exact .after hx (h a rfl)

/-- What the first of two actions gives, the second may rely on. -/
theorem Gives.andThen {x : Exec α} {f : α → Exec β} (hx : Gives P x m)
    (h : ∀ a m', P m' → Gives Q (f a) m') : Gives Q (x >>= f) m := by
  rcases hrun : x m with ⟨fault | a, m'⟩
  · intro b m'' hall
    rw [bind_error hrun] at hall
    cases hall
  · exact .after hrun (h a m' (hx a m' hrun))

end Exec

namespace Program

open Exec

variable {p : Program} {config : Config} {n : Node} {m m' : Machine} {ahead late : Nat}

/-- Whether an id is that of a node that waits. -/
def isWait (p : Program) (id : String) : Bool := (p.node? id).any (·.is .wait)

/-! ## What a host has heard -/

/-- What was reported after some calls agrees with the state. -/
structure Mirrors (p : Program) (m : Machine) : Prop where
  /-- every step has highlighted one node -/
  steps : m.highlighted.length = m.state.steps
  /-- everything said or thought was reported, in the order in which it came -/
  outputs : m.reported.reverse = m.state.outputs.filter (·.kind != clearKind)
  /-- the ticks of waits are the times that a node that waits was highlighted -/
  ticks : m.waitTicks = (m.highlighted.filter p.isWait).length
  /-- every state that was shown had the outputs that the state now begins with -/
  states : ∀ snapshot, .state snapshot ∈ m.log → snapshot.outputs <+: m.state.outputs
  /-- a run is over if its last event has shown that, and no event before -/
  halted_iff : m.state.halted = true ↔ ∃ snapshot earlier, m.log = .state snapshot :: earlier ∧
    snapshot.halted = true ∧ ∀ before, .state before ∈ earlier → before.halted = false

/-- The events agree with the state but for some steps not yet highlighted and some ticks not yet
counted. -/
structure Balanced (p : Program) (ahead late : Nat) (m : Machine) : Prop where
  steps : m.highlighted.length + ahead = m.state.steps
  ticks : m.waitTicks + late = (m.highlighted.filter p.isWait).length
  outputs : m.reported = m.state.spoken.filter (·.kind != clearKind)
  states : ∀ snapshot, .state snapshot ∈ m.log → snapshot.spoken <:+ m.state.spoken
  waits : ∀ w, m.state.waiting = some w → p.isWait w.node = true

/-- A run that goes on, and no state was shown to be the last one. -/
structure Quiet (m : Machine) : Prop where
  live : m.state.halted = false
  unannounced : ∀ snapshot, .state snapshot ∈ m.log → snapshot.halted = false

/-- A run that is over, as its last event has shown. -/
structure Announced (m : Machine) : Prop where
  halted : m.state.halted = true
  last : ∃ snapshot earlier, m.log = .state snapshot :: earlier ∧ snapshot.halted = true ∧
    ∀ before, .state before ∈ earlier → before.halted = false

/-- A run in the middle of a step. -/
structure Telling (p : Program) (ahead late : Nat) (m : Machine) : Prop
    extends p.Balanced ahead late m, Quiet m

/-- A run between two steps. -/
structure Told (p : Program) (m : Machine) : Prop extends p.Balanced 0 0 m where
  ending : Quiet m ∨ Announced m

/-- With nothing ahead and nothing late all is told. -/
theorem Telling.told (h : p.Telling 0 0 m) : p.Told m := ⟨h.toBalanced, .inl h.toQuiet⟩

/-- As long as a run is not over, all that it has told is in balance. -/
theorem Told.telling (h : p.Told m) (hlive : m.state.halted = false) : p.Telling 0 0 m := by
  rcases h.ending with hquiet | hover
  · exact ⟨h.toBalanced, hquiet⟩
  · rw [hover.halted] at hlive
    cases hlive

/-- **When all is told, the log mirrors the run.** -/
theorem Told.mirrors (h : p.Told m) : p.Mirrors m where
  steps := h.steps
  outputs := by rw [h.outputs, ← List.filter_reverse, Snapshot.outputs]
  ticks := h.ticks
  states snapshot hmem := List.reverse_prefix.2 (h.states snapshot hmem)
  halted_iff := by
    rcases h.ending with hquiet | hover
    · constructor
      · intro hhalted
        rw [hquiet.live] at hhalted
        cases hhalted
      · rintro ⟨snapshot, earlier, hlog, hlast, -⟩
        have hmem : Event.state snapshot ∈ m.log := hlog ▸ List.mem_cons_self
        rw [hquiet.unannounced snapshot hmem] at hlast
        cases hlast
    · exact ⟨fun _ => hover.last, fun _ => hover.halted⟩

/-! ## Changes and events -/

/-- A change of the state that no event has to tell of. -/
theorem Telling.modify (h : p.Telling ahead late m) {s : State} (hhalt : s.halt = m.state.halt)
    (hspoken : s.spoken = m.state.spoken) (hsteps : s.steps = m.state.steps)
    (hwaits : ∀ w, s.waiting = some w → p.isWait w.node = true) :
    p.Telling ahead late { m with state := s } := by
  refine ⟨⟨h.steps.trans hsteps.symm, h.ticks, ?_, ?_, hwaits⟩, ?_, h.unannounced⟩
  · rw [hspoken]
    exact h.outputs
  · rw [hspoken]
    exact h.states
  · rw [Snapshot.halted, hhalt]
    exact h.live

/-- An event that tells of nothing new. -/
theorem Telling.event (h : p.Telling ahead late m) {e : Event} (hid : e.highlighted? = none)
    (houtput : e.output? = none)
    (hstate : ∀ snapshot, e = .state snapshot → snapshot = m.state.toSnapshot) :
    p.Telling ahead late { m with log := e :: m.log } := by
  have hhighlighted : (e :: m.log).filterMap Event.highlighted? = m.highlighted :=
    List.filterMap_cons_none hid
  have hreported : (e :: m.log).filterMap Event.output? = m.reported :=
    List.filterMap_cons_none houtput
  refine ⟨⟨?_, ?_, hreported.trans h.outputs, fun snapshot hmem => ?_, h.waits⟩, h.live,
    fun snapshot hmem => ?_⟩
  · rw [Machine.highlighted, hhighlighted]
    exact h.steps
  · rw [Machine.highlighted, hhighlighted]
    exact h.ticks
  · rcases List.mem_cons.1 hmem with hnew | hold
    · rw [hstate snapshot hnew.symm]
    · exact h.states snapshot hold
  · rcases List.mem_cons.1 hmem with hnew | hold
    · rw [hstate snapshot hnew.symm]
      exact h.live
    · exact h.unannounced snapshot hold

/-- A report of the state is told as it is, and changes neither count. -/
theorem gives_notify (h : p.Telling ahead late m) : Gives (p.Telling ahead late) notify m := by
  rintro _ _ ⟨⟩
  exact h.event rfl rfl fun _ heq => (Event.state.inj heq).symm

/-- A node is highlighted that the step has been counted for; where it waits, its tick is due. -/
theorem Telling.highlight (h : p.Telling (ahead + 1) 0 m) (hn : p.node? n.id = some n) :
    p.Telling ahead (if n.is .wait then 1 else 0)
      { m with lastNode := some n.id, log := .highlight n.id :: m.log } := by
  have hwait : p.isWait n.id = n.is .wait := by
    rw [isWait, hn]
    rfl
  refine ⟨⟨?_, ?_, h.outputs, fun snapshot hmem => ?_, h.waits⟩, h.live, fun snapshot hmem => ?_⟩
  · have hsteps := h.steps
    show (n.id :: m.highlighted).length + ahead = m.state.steps
    rw [List.length_cons]
    omega
  · have hticks := h.ticks
    show m.waitTicks + _ = ((n.id :: m.highlighted).filter p.isWait).length
    rw [List.filter_cons, hwait]
    split
    · rw [List.length_cons, ← hticks]
    · rw [← hticks]
  · exact h.states snapshot (List.mem_of_ne_of_mem (by rintro ⟨⟩) hmem)
  · exact h.unannounced snapshot (List.mem_of_ne_of_mem (by rintro ⟨⟩) hmem)

/-- The tick that is due is counted. -/
theorem Telling.tick (h : p.Telling ahead (late + 1) m) :
    p.Telling ahead late { m with waitTicks := m.waitTicks + 1 } := by
  refine ⟨⟨h.steps, ?_, h.outputs, h.states, h.waits⟩, h.live, h.unannounced⟩
  have hticks := h.ticks
  show m.waitTicks + 1 + late = (m.highlighted.filter p.isWait).length
  omega

/-- Something is said or thought, and reported. -/
theorem Telling.speak (h : p.Telling ahead late m) {kind : String} (hkind : kind ≠ clearKind)
    (text : String) : p.Telling ahead late
      { m with
        state := { m.state with spoken := ⟨kind, text⟩ :: m.state.spoken }
        log := .output kind text :: m.log } := by
  refine ⟨⟨h.steps, h.ticks, ?_, fun snapshot hmem => ?_, h.waits⟩, h.live, fun snapshot hmem => ?_⟩
  · show (⟨kind, text⟩ :: m.reported : List Output) = _
    rw [List.filter_cons_of_pos (by simpa using hkind), h.outputs]
  · have hold := h.states snapshot (List.mem_of_ne_of_mem (by rintro ⟨⟩) hmem)
    exact hold.trans (List.suffix_cons _ _)
  · exact h.unannounced snapshot (List.mem_of_ne_of_mem (by rintro ⟨⟩) hmem)

/-- The outputs are cleared, which is kept but not reported as an output. -/
theorem Telling.clear (h : p.Telling ahead late m) (text : String) : p.Telling ahead late
    { m with state := { m.state with spoken := ⟨clearKind, text⟩ :: m.state.spoken } } := by
  refine ⟨⟨h.steps, h.ticks, ?_, fun snapshot hmem => ?_, h.waits⟩, h.live, h.unannounced⟩
  · rw [List.filter_cons_of_neg (by simp)]
    exact h.outputs
  · exact (h.states snapshot hmem).trans (List.suffix_cons _ _)

/-! ## Effects -/

section Effects

variable (h : p.Telling ahead late m)
include h

/-- A change of the variables or the sprite is followed by the state that it leaves. -/
theorem gives_shown {f : State → State} (hf : ∀ s, ∃ vars sprite, f s = { s with vars, sprite }) :
    Gives (p.Telling ahead late) (do modifyState f; notify) m := by
  obtain ⟨vars, sprite, hchange⟩ := hf m.state
  refine .after (modifyState_apply f m) (gives_notify ?_)
  rw [hchange]
  exact h.modify rfl rfl rfl h.waits

/-- Saying and thinking add one output and report it. -/
theorem gives_speak {kind : String} (hkind : kind ≠ clearKind) :
    Gives (p.Telling ahead late) (p.speak n kind) m := by
  refine .reading (p.textAt_apply n "text" m) fun text _ => .after (modifyState_apply _ m) ?_
  rintro _ _ ⟨⟩
  exact h.speak hkind text

/-- A move reports the state once both coordinates are set. -/
theorem gives_moveSprite : Gives (p.Telling ahead late) (p.moveSprite n) m := by
  refine .reading (p.numberAt_apply n "steps" m) fun length _ => .after (getState_apply m) ?_
  refine .reading (lift_apply _ m) fun heading _ => .reading (lift_apply _ m) fun degrees _ => ?_
  dsimp only
  split
  · exact .throw
  refine .reading (lift_apply _ m) fun dx _ => .after (getState_apply m) ?_
  refine .reading (lift_apply _ m) fun x _ => .after (modifyState_apply _ m) ?_
  -- the position across is changed before the position down is computed
  have hacross := h.modify (s := { m.state with sprite := { m.state.sprite with x } }) rfl rfl rfl
    h.waits
  refine .reading (lift_apply _ _) fun dy _ => .after (getState_apply _) ?_
  refine .reading (lift_apply _ _) fun y _ => ?_
  exact gives_shown hacross fun s => ⟨_, _, rfl⟩

theorem gives_placeSprite : Gives (p.Telling ahead late) (p.placeSprite n) m := by
  refine .reading (p.numberAt_apply n "x" m) fun x _ => .after (modifyState_apply _ m) ?_
  have hacross := h.modify (s := { m.state with sprite := { m.state.sprite with x } }) rfl rfl rfl
    h.waits
  refine .reading (p.numberAt_apply n "y" _) fun y _ => ?_
  exact gives_shown hacross fun s => ⟨_, _, rfl⟩

theorem gives_shiftX : Gives (p.Telling ahead late) (p.shiftX n) m := by
  refine .reading (p.numberAt_apply n "dx" m) fun dx _ => .after (getState_apply m) ?_
  exact .reading (lift_apply _ m) fun x _ => gives_shown h fun s => ⟨_, _, rfl⟩

theorem gives_shiftY : Gives (p.Telling ahead late) (p.shiftY n) m := by
  refine .reading (p.numberAt_apply n "dy" m) fun dy _ => .after (getState_apply m) ?_
  exact .reading (lift_apply _ m) fun y _ => gives_shown h fun s => ⟨_, _, rfl⟩

theorem gives_turnTo (heading : Number) : Gives (p.Telling ahead late) (turnTo heading) m :=
  .reading (lift_apply _ m) fun _ _ => gives_shown h fun _ => ⟨_, _, rfl⟩

theorem gives_turnBy (combine : Number → Number → Option Number) :
    Gives (p.Telling ahead late) (p.turnBy n combine) m := by
  refine .reading (p.numberAt_apply n "degrees" m) fun degrees _ => .after (getState_apply m) ?_
  refine .reading (lift_apply _ m) fun heading _ => .reading (lift_apply _ m) fun turned _ => ?_
  exact gives_turnTo h turned

/-- Setting a variable reports the state that it leaves. -/
theorem gives_setVar (name : String) (value : Value) :
    Gives (p.Telling ahead late) (setVar name value) m :=
  gives_shown h fun _ => ⟨_, _, rfl⟩

theorem gives_changeVar : Gives (p.Telling ahead late) (p.changeVar n) m := by
  refine .reading (p.textAt_apply n "name" m) fun name _ => ?_
  refine .reading (p.numberAt_apply n "delta" m) fun delta _ => .after (getState_apply m) ?_
  exact .reading (lift_apply _ m) fun sum _ => gives_setVar h name sum

/-- **Effects are told of.** -/
theorem gives_effect (s : Statement) : Gives (p.Telling ahead late) (p.effect n s) m := by
  cases s with
  | say => exact gives_speak h (by decide)
  | think => exact gives_speak h (by decide)
  | clear => exact .after (modifyState_apply _ m) (gives_notify (h.clear ""))
  | move => exact gives_moveSprite h
  | goTo => exact gives_placeSprite h
  | changeXBy => exact gives_shiftX h
  | changeYBy => exact gives_shiftY h
  | turnClockwise => exact gives_turnBy h Number.add?
  | turnAnticlockwise => exact gives_turnBy h Number.sub?
  | pointIn => exact .reading (p.numberAt_apply n "degrees" m) fun degrees _ => gives_turnTo h degrees
  | setVariable =>
    exact .reading (p.textAt_apply n "name" m) fun name _ =>
      .reading (p.slot_apply n "value" m) fun value _ => gives_setVar h name _
  | changeVariable => exact gives_changeVar h
  | start | stop | wait | ifElse | repeatTimes | repeatUntil | ifEnder | repeatEnder => exact .pure h

/-! ## Going on -/

/-- Unwinding reports nothing. -/
theorem gives_goOn (next : Option String) : Gives (p.Telling ahead late) (p.goOn next) m := by
  rcases next with _ | id
  · intro a m' hrun
    change p.resume m = _ at hrun
    rcases hu : unwind (p.isTrue m.state.vars) m.state.frames with ⟨fault | current, frames⟩ <;>
      simp only [resume, hu] at hrun
    · cases hrun
    · cases hrun
      exact h.modify rfl rfl rfl h.waits
  · rintro _ _ ⟨⟩
    exact h.modify rfl rfl rfl h.waits

theorem gives_enter (frame : Frame) : Gives (p.Telling ahead late) (p.enter frame) m :=
  .after (modifyState_apply _ m)
    (gives_goOn (h.modify (s := { m.state with frames := frame :: m.state.frames }) rfl rfl rfl
      h.waits) none)

end Effects

/-- Ending a run is told of, and nothing after that. -/
theorem gives_halt (h : p.Told m) (reason : HaltReason) : Gives p.Told (halt reason) m := by
  rcases hhalted : m.state.halted with _ | _
  · have hlive := h.telling hhalted
    intro _ m' hrun
    simp only [halt] at hrun
    rw [bind_ok (getState_apply m), hhalted] at hrun
    cases hrun
    have hstates (snapshot : Snapshot) (hmem : Event.state snapshot ∈ m.log) :=
      h.states snapshot hmem
    refine ⟨⟨h.steps, h.ticks, h.outputs, fun snapshot hmem => ?_, fun w hw => (by cases hw)⟩,
      .inr ⟨rfl, _, m.log, rfl, rfl, hlive.unannounced⟩⟩
    rcases List.mem_cons.1 hmem with hnew | hold
    · cases hnew
      exact List.suffix_refl _
    · exact h.states snapshot hold
  · intro _ m' hrun
    rw [halt_apply_of_halted hhalted] at hrun
    cases hrun
    exact h

/-- Ending a run is reported as well, so all is told again after it. -/
theorem gives_settle (h : p.Told m) : Gives p.Told settle m := by
  refine .after (getState_apply m) ?_
  split
  · refine .andThen (gives_halt h .endOfProgram) fun _ m' hm' => ?_
    exact .after (getState_apply m') (.pure hm')
  · exact .after (getState_apply m) (.pure h)

/-! ## Executing a node -/

/-- Beginning a wait counts its first tick, which is late until then. -/
theorem gives_beginWait (hn : p.isWait n.id = true) (h : p.Telling ahead (late + 1) m) :
    Gives (p.Telling ahead late) (p.beginWait config n) m := by
  refine .reading (p.numberAt_apply n "seconds" m) fun seconds _ => ?_
  refine .reading (lift_apply _ m) fun seconds _ => .reading (lift_apply _ m) fun ticks _ => ?_
  refine .after (modify_apply _ m) ?_
  split
  · exact gives_goOn h.tick n.next
  · rintro _ _ ⟨⟩
    exact h.tick.modify rfl rfl rfl fun w hw => Option.some.inj hw ▸ hn

/-- Executing a node counts the tick of one that waits, and leaves nothing to be told of. -/
theorem gives_execute (hn : p.node? n.id = some n)
    (h : p.Telling 0 (if n.is .wait then 1 else 0) m) : Gives p.Told (p.execute config n) m := by
  have htelling (hother : n.is .wait = false) : p.Telling 0 0 m := by
    rw [hother] at h
    exact h
  have htold {x : Exec Unit} (hx : Gives (p.Telling 0 0) x m) : Gives p.Told x m :=
    fun a m' hrun => (hx a m' hrun).told
  refine .reading (lift_apply _ m) fun s hs => ?_
  by_cases hwait : n.is .wait = true
  · rw [(Node.ofType?_eq_some (by decide)).2 hwait] at hs
    cases hs
    rw [hwait] at h
    refine htold (gives_beginWait ?_ h)
    rw [isWait, hn]
    exact hwait
  have hlive := htelling (Bool.eq_false_iff.2 hwait)
  rcases s with _ | s
  · exact htold (gives_goOn hlive n.next)
  have heffect : Gives p.Told (do p.effect n s; p.goOn n.next) m :=
    htold (.andThen (gives_effect hlive s) fun _ _ hm' => gives_goOn hm' n.next)
  cases s with
  | stop => exact gives_halt hlive.told .stopBlock
  | wait => exact absurd ((Node.ofType?_eq_some (by decide)).1 hs) hwait
  | ifElse =>
    refine htold (.reading (p.slot_apply n "condition" m) fun condition _ => ?_)
    have hentered := hlive.modify (s := { m.state with frames := .branch n.next :: m.state.frames })
      rfl rfl rfl hlive.waits
    exact .after (modifyState_apply _ m) (gives_goOn hentered _)
  | repeatTimes =>
    exact htold (.reading (p.numberAt_apply n "times" m) fun times _ => gives_enter hlive _)
  | repeatUntil => exact htold (gives_enter hlive _)
  | _ => exact heffect

/-! ## Steps -/

/-- **A visit tells all that it does.** It highlights its node first, which makes up for the step that
is counted already. -/
theorem gives_visit (hn : p.node? n.id = some n) (h : p.Telling 1 0 m) :
    Gives p.Told (p.visit config n) m := by
  -- whatever is printed in front does not count
  have hrest {m₀ : Machine} (h₀ : p.Telling 0 (if n.is .wait then 1 else 0) m₀) :
      Gives p.Told (do
        p.execute config n
        let s ← getState
        if s.waiting.isSome then return ⟨false, true⟩ else settle) m₀ := by
    refine .andThen (gives_execute hn h₀) fun _ m' hm' => .after (getState_apply m') ?_
    split
    · exact .pure hm'
    · exact gives_settle hm'
  refine .after (modify_apply _ m) ?_
  split
  · refine .after (getState_apply _) (.after (modify_apply _ _) (hrest ?_))
    exact (h.highlight hn).event rfl rfl nofun
  · exact hrest (h.highlight hn)

/-- **So does a tick of a wait**, which highlights the node that waits once more. -/
theorem gives_tick {w : Waiting} (hn : p.node? n.id = some n) (hw : w.node = n.id)
    (hwait : p.isWait w.node = true) (h : p.Telling 1 0 m) : Gives p.Told (p.tick w) m := by
  have hticked : p.Telling 0 0 { m with
      lastNode := some w.node, log := .highlight w.node :: m.log, waitTicks := m.waitTicks + 1 } := by
    have hhighlighted := h.highlight hn
    rw [isWait, hw, hn] at hwait
    rw [show n.is .wait = true from hwait, ← hw] at hhighlighted
    exact hhighlighted.tick
  refine .after (modify_apply _ m) (.after (modify_apply _ _) ?_)
  split
  · refine .after (modifyState_apply _ _) (.pure (Telling.told ?_))
    exact hticked.modify rfl rfl rfl fun w' hw' => Option.some.inj hw' ▸ hwait
  · have hgoing := hticked.modify (s := { m.state with waiting := none }) rfl rfl rfl
      fun _ hnone => nomatch hnone
    refine .after (modifyState_apply _ _) (.andThen (gives_goOn hgoing _) fun _ m' hm' => ?_)
    exact gives_settle hm'.told

/-- **After a step everything has been told.** -/
theorem gives_step (hplace : p.Lasting config m.state) (h : p.Told m) :
    Gives p.Told (p.step config) m := by
  have hforgot : p.Told m.withoutLast := ⟨⟨h.steps, h.ticks, h.outputs, h.states,
    h.waits⟩, h.ending.imp (fun hquiet => ⟨hquiet.live, hquiet.unannounced⟩)
      fun hover => ⟨hover.halted, hover.last⟩⟩
  have hcounted (hlive : m.state.halted = false) :
      p.Telling 1 0 { m.withoutLast with state := counted m.state } := by
    have htelling := hforgot.telling hlive
    exact ⟨⟨congrArg (· + 1) htelling.steps, htelling.ticks, htelling.outputs, htelling.states,
      htelling.waits⟩, htelling.live, htelling.unannounced⟩
  obtain ⟨-, hstep⟩ | ⟨-, reason, -, hstep⟩ |
    ⟨hlive, n, hn, ⟨-, hstep⟩ | ⟨w, hw, hwait, hstep⟩⟩ := step_cases hplace
  · exact .of_eq hstep (.pure hforgot)
  · exact .of_eq hstep (.andThen (gives_halt hforgot reason) fun _ _ hm' => .pure hm')
  · exact .of_eq hstep (gives_visit hn.node (hcounted hlive))
  · exact .of_eq hstep (gives_tick hn.node hwait (h.waits w hw) (hcounted hlive))

/-! ## Calls -/

/-- What a run leaves of its steps has been told, and its end. -/
theorem told_of_run (hp : p.Closed) {budget : Option Int} (hplace : p.Lasting config m.state)
    (h : p.Told m) (hrun : p.run config budget m = (.ok (), m')) : p.Told m' := by
  -- along the steps, each of which leaves a place to go on from
  have hsteps {m₀ m₁ : Machine} (hplace : p.Lasting config m₀.state) (h : p.Told m₀)
      (hsteps : ReflTransGen (p.Steps config) m₀ m₁) : p.Told m₁ ∧ p.Lasting config m₁.state := by
    induction hsteps with
    | refl => exact ⟨h, hplace⟩
    | @tail m₁ m₂ _ hstep ih =>
      obtain ⟨r, hstep⟩ := hstep
      have hlasting := keeps_lasting_step hp m₁ ih.2
      rw [hstep] at hlasting
      exact ⟨gives_step ih.2 ih.1 r m₂ hstep, hlasting⟩
  rcases hfor : p.runFor config (budgetSteps config budget) m with ⟨fault | ⟨⟩, m₁⟩
  · rw [run, bind_error hfor] at hrun
    cases hrun
  · rw [run, bind_ok hfor] at hrun
    exact gives_halt (hsteps hplace h (steps_of_runFor hfor)).1 .stepLimit () m' hrun

/-- **A call that does not fail leaves all told**, however many steps it takes. -/
theorem told_of_call (hp : p.Closed) {c : Call} (hplace : p.Lasting config m.state) (h : p.Told m)
    (hcall : p.call config c m = (.ok (), m')) : p.Told m' := by
  cases c with
  | step =>
    have hgives : Gives p.Told (p.call config .step) m :=
      .andThen (gives_step hplace h) fun _ _ hm' => .pure hm'
    exact hgives () m' hcall
  | run budget => exact told_of_run hp hplace h hcall
  | trace budget =>
    rw [call_trace] at hcall
    exact told_of_run hp hplace h hcall

variable (p config) in
/-- A machine that calls have led to from the start of a run, none of which has failed. -/
def LedTo (vars : Dict) : Machine → Prop :=
  ReflTransGen (fun m m' => ∃ c, p.call config c m = (.ok (), m')) (.start p config vars)

/-- Before the first step there is nothing to tell. -/
theorem told_start (p : Program) (config : Config) (vars : Dict) :
    p.Told (.start p config vars) :=
  ⟨⟨rfl, rfl, rfl, nofun, nofun⟩, .inl ⟨rfl, nofun⟩⟩

/-- **What is reported mirrors the state.** For every program whose links lead to nodes, so for every
built one, for every configuration and after any calls from any variables, in whatever order and none
of which has failed: every step has highlighted one node, what was said and thought was reported in
order, the ticks of waits are the times a waiting node was highlighted, every state that was shown
has outputs that the last ones begin with, and the run is over if and only if the last of all events
has shown so, and only that one. -/
theorem mirrors_of_ledTo (hp : p.Closed) {vars : Dict} (h : p.LedTo config vars m) :
    p.Mirrors m := by
  suffices p.Told m ∧ p.Lasting config m.state from this.1.mirrors
  induction h with
  | refl => exact ⟨told_start p config vars, lasting_start hp config vars⟩
  | @tail m m' _ hcall ih =>
    obtain ⟨c, hcall⟩ := hcall
    have hlasting := keeps_call (keeps_lasting_step hp) keeps_lasting_halt c m ih.2
    rw [hcall] at hlasting
    exact ⟨told_of_call hp ih.2 ih.1 hcall, hlasting⟩

/-- A wait, something said, and the clearing of it. -/
def noticeBlocks : List Block := [
  { id := "w", type := .str "wait", inputs := .dict [(.str "seconds", .int 2)] },
  { id := "s", type := .str "say", inputs := .dict [(.str "text", .str "hi")] },
  { id := "c", type := .str "clear" }]

/-- The links between them. -/
def noticeEdges : List Edge := [.stack "w" "s", .stack "s" "c"]

/-- What they are compiled to. -/
def notice : Program where
  nodes := [
    { id := "w", type := .str "wait", inputs := [(.str "seconds", .int 2)], next := some "s" },
    { id := "s", type := .str "say", inputs := [(.str "text", .str "hi")], next := some "c" },
    { id := "c", type := .str "clear" }]
  roots := ["w"]
  entry := some "w"

/-- A second has one tick. -/
def slowTicks : Config := { ticksPerSecond := .int 1 }

/-- One step into it. -/
def noticeWaiting : Machine := (notice.call slowTicks .step (.start notice slowTicks [])).2

/-- The end of it. -/
def noticeOver : Machine := (notice.call slowTicks (.trace none) noticeWaiting).2

/-- After one step the wait has one tick behind it; at the end two ticks were counted for the node
that waits, and the one output that was reported is the one that is not the clearing. -/
theorem mirrors_notice : notice.Mirrors noticeWaiting ∧ notice.Mirrors noticeOver ∧
    noticeWaiting.waitTicks = 1 ∧ noticeOver.highlighted = ["c", "s", "w", "w"] ∧
    noticeOver.waitTicks = 2 ∧ noticeOver.reported = [⟨"say", "hi"⟩] ∧
    noticeOver.state.outputs = [⟨"say", "hi"⟩, ⟨clearKind, ""⟩] ∧
    noticeOver.state.halt = some .endOfProgram := by
  have hbuild : build noticeBlocks noticeEdges = .ok notice := rfl
  have hclosed := closed_build hbuild
  have hcall {c : Call} {m : Machine} (h : (notice.call slowTicks c m).1.isOk = true) :
      notice.call slowTicks c m = (.ok (), (notice.call slowTicks c m).2) := by
    rcases hrun : notice.call slowTicks c m with ⟨fault | ⟨⟩, m'⟩
    · rw [hrun] at h
      cases h
    · rfl
  have hwaiting : notice.LedTo slowTicks [] noticeWaiting :=
    .tail .refl ⟨.step, hcall (by decide +kernel)⟩
  have hover : notice.LedTo slowTicks [] noticeOver :=
    .tail hwaiting ⟨.trace none, hcall (by decide +kernel)⟩
  exact ⟨mirrors_of_ledTo hclosed hwaiting, mirrors_of_ledTo hclosed hover, by decide +kernel,
    by decide +kernel, by decide +kernel, by decide +kernel, by decide +kernel, by decide +kernel⟩

end Program

end BlockProgram
