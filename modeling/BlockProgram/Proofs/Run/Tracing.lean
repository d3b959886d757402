import BlockProgram.Proofs.Run.Reports

/-!
# What a recorded run tells

A recorded run looks at the machine between two steps: at the state that the step has left and at
the node that the machine remembers as highlighted last. That this is the node of the step, and not
one of an earlier step or of a part of it, is proved here.

* Nothing but the first act of a tick or of a node that is executed highlights
  (`Program.unlit_execute`), so a step highlights what it remembers and nothing else
  (`Program.lit_step`).
* Steps and entries go side by side (`Program.Transcript`), so each entry records its own step
  (`Program.records_of_trace`).

The type in an entry is looked up afterwards by that id, and there the empty id is taken for no node
at all (`Program.trace_nameless`).
-/

namespace BlockProgram

/-- What was highlighted between two points of a run, from the newest back. -/
def Machine.Lit (ids : List String) (m m' : Machine) : Prop :=
  ∃ events, m'.log = events ++ m.log ∧ events.filterMap Event.highlighted? = ids

theorem Machine.Lit.of_log {m m' : Machine} (h : m'.log = m.log) : Lit [] m m' := ⟨[], h, rfl⟩

theorem Machine.Lit.event {m m' : Machine} {e : Event} (h : m'.log = e :: m.log) :
    Lit e.highlighted?.toList m m' := by
  refine ⟨[e], h, ?_⟩
  cases he : e.highlighted? with
  | none => rw [List.filterMap_cons_none he]; rfl
  | some id => rw [List.filterMap_cons_some he]; rfl

/-- What two actions in a row have highlighted is what either of them has. -/
theorem Machine.Lit.trans {ids ids' : List String} {m m' m'' : Machine} (h : Lit ids m m')
    (h' : Lit ids' m' m'') : Lit (ids' ++ ids) m m'' := by
  obtain ⟨events, hlog, rfl⟩ := h
  obtain ⟨events', hlog', rfl⟩ := h'
  refine ⟨events' ++ events, ?_, List.filterMap_append⟩
  rw [hlog', hlog, List.append_assoc]

namespace Exec

open Machine

variable {α β : Type}

/-! ## Actions that highlight nothing -/

/-- An action that highlights nothing and leaves it remembered what was highlighted last. -/
def Unlit (x : Exec α) : Prop := ∀ m, Lit [] m (x m).2 ∧ (x m).2.lastNode = m.lastNode

/-- An action that reports nothing highlights nothing. -/
theorem Unlit.of_log {x : Exec α} (hlog : ∀ m, (x m).2.log = m.log)
    (hlast : ∀ m, (x m).2.lastNode = m.lastNode) : Unlit x := by
  intro m
  exact ⟨.of_log (hlog m), hlast m⟩

theorem Unlit.pure (a : α) : Unlit (pure a : Exec α) := .of_log (fun _ => rfl) fun _ => rfl

theorem Unlit.throw (fault : Fault) (f : α → Exec β) : Unlit (throw fault >>= f) :=
  .of_log (fun _ => rfl) fun _ => rfl

theorem Unlit.lift (result : Except Fault α) : Unlit (lift result) :=
  .of_log (fun _ => rfl) fun _ => rfl

theorem Unlit.getState : Unlit getState := .of_log (fun _ => rfl) fun _ => rfl

theorem Unlit.modifyState (f : State → State) : Unlit (modifyState f) :=
  .of_log (fun _ => rfl) fun _ => rfl

theorem Unlit.countTick : Unlit (modify fun m => { m with waitTicks := m.waitTicks + 1 }) :=
  .of_log (fun _ => rfl) fun _ => rfl

/-- Reporting something else than a highlight highlights nothing. -/
theorem Unlit.emit {e : Event} (he : e.highlighted? = none) : Unlit (emit e) := by
  intro m
  have hlit : Lit e.highlighted?.toList m (Exec.emit e m).2 := .event rfl
  rw [he] at hlit
  exact ⟨hlit, rfl⟩

theorem Unlit.notify : Unlit notify := by
  intro m
  exact ⟨.event (e := .state m.state.toSnapshot) rfl, rfl⟩

/-- Two actions in a row highlight nothing if neither of them does. -/
theorem Unlit.bind {x : Exec α} {f : α → Exec β} (hx : Unlit x) (hf : ∀ a, Unlit (f a)) :
    Unlit (x >>= f) := by
  intro m
  have hfirst := hx m
  rcases hrun : x m with ⟨fault | a, m'⟩ <;> rw [hrun] at hfirst
  · rw [bind_error hrun]
    exact hfirst
  · rw [bind_ok hrun]
    obtain ⟨hlit, hlast⟩ := hf a m'
    exact ⟨hfirst.1.trans hlit, hlast.trans hfirst.2⟩

/-- An action that highlights one node, which is then remembered. -/
def Marks (id : String) (x : Exec α) : Prop :=
  ∀ m, Lit [id] m (x m).2 ∧ (x m).2.lastNode = some id

/-- An action that highlights what it remembers, if nothing was remembered before it. -/
def Remembers (x : Exec α) : Prop :=
  ∀ m, m.lastNode = none → Lit (x m).2.lastNode.toList m (x m).2

/-- After a node was highlighted, an action that highlights nothing leaves it at that. -/
theorem Unlit.marks {x : Exec α} (hx : Unlit x) (id : String) :
    Marks id (do highlight id; x) := by
  intro m
  obtain ⟨hlit, hlast⟩ := hx { m with lastNode := some id, log := .highlight id :: m.log }
  have hfirst : Lit [id] m { m with lastNode := some id, log := .highlight id :: m.log } :=
    .event (e := .highlight id) rfl
  exact ⟨hfirst.trans hlit, hlast⟩

/-- An action that highlights one node remembers it. -/
theorem Marks.remembers {x : Exec α} {id : String} (hx : Marks id x) : Remembers x := by
  intro m _
  obtain ⟨hlit, hlast⟩ := hx m
  rw [hlast]
  exact hlit

/-- So does one that highlights nothing, since it leaves the last node alone. -/
theorem Unlit.remembers {x : Exec α} (hx : Unlit x) : Remembers x := by
  intro m hnone
  obtain ⟨hlit, hlast⟩ := hx m
  rw [hlast, hnone]
  exact hlit

/-- What happens before without a highlight does not matter for what is remembered. -/
theorem Unlit.andThen {x : Exec α} {f : α → Exec β} (hx : Unlit x) (hf : ∀ a, Remembers (f a)) :
    Remembers (x >>= f) := by
  intro m hnone
  have hfirst := hx m
  rcases hrun : x m with ⟨fault | a, m'⟩ <;> rw [hrun] at hfirst
  · rw [bind_error hrun]
    show Lit m'.lastNode.toList m m'
    rw [hfirst.2, hnone]
    exact hfirst.1
  · rw [bind_ok hrun]
    have hrest := hfirst.1.trans (hf a m' (hfirst.2.trans hnone))
    rwa [List.append_nil] at hrest

/-- Ending a run reports its state, which is no highlight. -/
theorem unlit_halt (reason : HaltReason) : Unlit (halt reason) := by
  refine Unlit.getState.bind fun s => ?_
  split
  · exact (Unlit.modifyState _).bind fun _ => .notify
  · exact .pure ()

/-- Ending the run instead of a step. -/
theorem unlit_haltStep (reason : HaltReason) (r : StepResult) :
    Unlit (do halt reason; return r) :=
  (unlit_halt reason).bind fun _ => .pure r

end Exec

namespace Program

open Exec Machine Relation

variable {p : Program} {config : Config} {n : Node} {m m' : Machine}

/-! ## Executing a node -/

section Execute

variable (p n)

theorem unlit_slot (socket : String) : Unlit (p.slot n socket) :=
  .of_log (fun _ => rfl) fun _ => rfl

theorem unlit_numberAt (socket : String) : Unlit (p.numberAt n socket) :=
  (p.unlit_slot n socket).bind fun v => .pure v.toNumber

theorem unlit_textAt (socket : String) : Unlit (p.textAt n socket) :=
  (p.unlit_slot n socket).bind fun v => .pure v.toText

/-- A change that is shown. -/
theorem unlit_shown (f : State → State) : Unlit (do modifyState f; notify) :=
  (Unlit.modifyState f).bind fun _ => .notify

theorem unlit_speak (kind : String) : Unlit (p.speak n kind) := by
  refine (p.unlit_textAt n "text").bind fun text => ?_
  exact (Unlit.modifyState _).bind fun _ => .emit rfl

theorem unlit_moveSprite : Unlit (p.moveSprite n) := by
  refine (p.unlit_numberAt n "steps").bind fun length => Unlit.getState.bind fun s => ?_
  refine (Unlit.lift _).bind fun heading => (Unlit.lift _).bind fun degrees => ?_
  dsimp only
  split
  · exact .throw _ _
  refine (Unlit.lift _).bind fun dx => Unlit.getState.bind fun s => ?_
  refine (Unlit.lift _).bind fun x => (Unlit.modifyState _).bind fun _ => ?_
  refine (Unlit.lift _).bind fun dy => Unlit.getState.bind fun s => ?_
  exact (Unlit.lift _).bind fun y => unlit_shown _

theorem unlit_placeSprite : Unlit (p.placeSprite n) := by
  refine (p.unlit_numberAt n "x").bind fun x => (Unlit.modifyState _).bind fun _ => ?_
  exact (p.unlit_numberAt n "y").bind fun y => unlit_shown _

theorem unlit_shiftX : Unlit (p.shiftX n) := by
  refine (p.unlit_numberAt n "dx").bind fun dx => Unlit.getState.bind fun s => ?_
  exact (Unlit.lift _).bind fun x => unlit_shown _

theorem unlit_shiftY : Unlit (p.shiftY n) := by
  refine (p.unlit_numberAt n "dy").bind fun dy => Unlit.getState.bind fun s => ?_
  exact (Unlit.lift _).bind fun y => unlit_shown _

theorem unlit_turnTo (heading : Number) : Unlit (turnTo heading) :=
  (Unlit.lift _).bind fun _ => unlit_shown _

theorem unlit_turnBy (combine : Number → Number → Option Number) :
    Unlit (p.turnBy n combine) := by
  refine (p.unlit_numberAt n "degrees").bind fun degrees => Unlit.getState.bind fun s => ?_
  exact (Unlit.lift _).bind fun heading => (Unlit.lift _).bind unlit_turnTo

theorem unlit_changeVar : Unlit (p.changeVar n) := by
  refine (p.unlit_textAt n "name").bind fun name => ?_
  refine (p.unlit_numberAt n "delta").bind fun delta => Unlit.getState.bind fun s => ?_
  exact (Unlit.lift _).bind fun sum => unlit_shown _

/-- **No effect highlights a node.** -/
theorem unlit_effect (s : Statement) : Unlit (p.effect n s) := by
  cases s with
  | say => exact p.unlit_speak n "say"
  | think => exact p.unlit_speak n "think"
  | clear => exact unlit_shown _
  | move => exact p.unlit_moveSprite n
  | goTo => exact p.unlit_placeSprite n
  | changeXBy => exact p.unlit_shiftX n
  | changeYBy => exact p.unlit_shiftY n
  | turnClockwise => exact p.unlit_turnBy n Number.add?
  | turnAnticlockwise => exact p.unlit_turnBy n Number.sub?
  | pointIn => exact (p.unlit_numberAt n "degrees").bind unlit_turnTo
  | setVariable =>
    refine (p.unlit_textAt n "name").bind fun name => ?_
    exact (p.unlit_slot n "value").bind fun value => unlit_shown _
  | changeVariable => exact p.unlit_changeVar n
  | start | stop | wait | ifElse | repeatTimes | repeatUntil | ifEnder | repeatEnder =>
    exact .pure ()

/-- Unwinding evaluates conditions and changes frames, and reports nothing. -/
theorem unlit_resume : Unlit p.resume := by
  refine .of_log (fun m => ?_) fun m => ?_ <;>
  · simp only [resume]
    split <;> rfl

theorem unlit_goOn (next : Option String) : Unlit (p.goOn next) := by
  cases next with
  | none => exact p.unlit_resume
  | some id => exact .modifyState _

theorem unlit_enter (frame : Frame) : Unlit (p.enter frame) :=
  (Unlit.modifyState _).bind fun _ => p.unlit_resume

theorem unlit_beginWait (config : Config) : Unlit (p.beginWait config n) := by
  refine (p.unlit_numberAt n "seconds").bind fun seconds => ?_
  refine (Unlit.lift _).bind fun seconds => (Unlit.lift _).bind fun ticks => ?_
  refine Unlit.countTick.bind fun _ => ?_
  split
  · exact p.unlit_goOn _
  · exact .modifyState _

/-- **Executing a node highlights nothing**; the step that executes it does. -/
theorem unlit_execute (config : Config) : Unlit (p.execute config n) := by
  refine (Unlit.lift _).bind fun s => ?_
  rcases s with _ | s
  · exact p.unlit_goOn n.next
  have heffect : Unlit (do p.effect n s; p.goOn n.next) :=
    (p.unlit_effect n s).bind fun _ => p.unlit_goOn n.next
  cases s with
  | stop => exact unlit_halt _
  | wait => exact p.unlit_beginWait n config
  | ifElse =>
    refine (p.unlit_slot n "condition").bind fun condition => ?_
    exact (Unlit.modifyState _).bind fun _ => p.unlit_goOn _
  | repeatTimes => exact (p.unlit_numberAt n "times").bind fun times => p.unlit_enter _
  | repeatUntil => exact p.unlit_enter _
  | _ => exact heffect

end Execute

/-! ## Steps -/

theorem unlit_settle : Unlit settle := by
  refine Unlit.getState.bind fun s => ?_
  split
  · exact (unlit_halt _).bind fun _ => Unlit.getState.bind fun _ => .pure _
  · exact Unlit.getState.bind fun _ => .pure _

/-- A tick highlights the node that waits, before anything else can fail. -/
theorem marks_tick (w : Waiting) : Marks w.node (p.tick w) := by
  refine Unlit.marks ?_ w.node
  refine Unlit.countTick.bind fun _ => ?_
  split
  · exact (Unlit.modifyState _).bind fun _ => .pure _
  · exact (Unlit.modifyState _).bind fun _ => (p.unlit_goOn _).bind fun _ => unlit_settle

/-- A visit highlights its node, before anything else can fail. -/
theorem marks_visit (n : Node) : Marks n.id (p.visit config n) := by
  refine Unlit.marks ?_ n.id
  have hrest : Unlit (do
      p.execute config n
      let s ← getState
      if s.waiting.isSome then return ⟨false, true⟩ else settle) := by
    refine (p.unlit_execute n config).bind fun _ => Unlit.getState.bind fun s => ?_
    split
    · exact .pure _
    · exact unlit_settle
  split
  · exact Unlit.getState.bind fun s => (Unlit.emit rfl).bind fun _ => hrest
  · exact hrest

/-- **A step highlights what it remembers as highlighted**, once, and nothing else. -/
theorem lit_step (p : Program) (config : Config) (m : Machine) :
    Lit (p.step config m).2.lastNode.toList m (p.step config m).2 := by
  -- the first thing that a step does is to forget the last one
  rw [step, bind_ok (modify_apply _ m)]
  refine (show Remembers _ from ?_) m.withoutLast rfl
  refine Unlit.getState.andThen fun s => ?_
  split
  · exact (Unlit.pure _).remembers
  split
  · exact (unlit_haltStep _ _).remembers
  split
  · exact (unlit_haltStep _ _).remembers
  refine (Unlit.modifyState _).andThen fun _ => ?_
  split
  · exact (marks_tick _).remembers
  · exact (marks_visit _).remembers
  · exact (unlit_haltStep _ _).remembers

/-- The node that a step has highlighted is one of the program. -/
theorem known_of_step {id : String} (hplace : p.Lasting config m.state)
    (hid : (p.step config m).2.lastNode = some id) : ∃ n, p.node? id = some n := by
  obtain ⟨-, hstep⟩ | ⟨-, reason, -, hstep⟩ |
    ⟨-, n, hn, ⟨-, hstep⟩ | ⟨w, -, hwait, hstep⟩⟩ := step_cases hplace
  · rw [hstep] at hid
    cases hid
  · rw [hstep, (unlit_haltStep _ _ _).2] at hid
    cases hid
  · rw [hstep, ((marks_visit n) _).2] at hid
    cases hid
    exact ⟨n, hn.node⟩
  · rw [hstep, ((marks_tick w) _).2] at hid
    cases hid
    exact ⟨n, hwait ▸ hn.node⟩

/-! ## Recorded runs -/

variable (p config) in
/-- Steps taken one after the other, with the entries that they are recorded by. -/
inductive Transcript : Nat → Machine → List TraceStep → Machine → Prop
  | nil {index : Nat} {m : Machine} : Transcript index m [] m
  | cons {index : Nat} {r : StepResult} {m m₁ m' : Machine} {entries : List TraceStep} :
    p.step config m = (.ok r, m₁) → Transcript (index + 1) m₁ entries m' →
    Transcript index m (p.record index r m₁ :: entries) m'

/-- Recording the steps of a run adds what they are recorded by to what was recorded before. -/
theorem transcript_of_traceFor {budget index : Nat} {sofar entries : List TraceStep}
    (h : p.traceFor config budget index sofar m = (.ok entries, m')) :
    ∃ new, entries = sofar.reverse ++ new ∧ p.Transcript config index m new m' ∧
      (m'.state.halted = true ∨ new.length = budget) := by
  induction budget generalizing index sofar m with
  | zero =>
    cases h
    exact ⟨[], (List.append_nil _).symm, .nil, .inr rfl⟩
  | succ budget ih =>
    simp only [traceFor] at h
    split at h
    · rename_i hhalted
      cases h
      exact ⟨[], (List.append_nil _).symm, .nil, .inl hhalted⟩
    · rcases hstep : p.step config m with ⟨fault | r, m₁⟩ <;> simp only [hstep] at h
      · cases h
      · obtain ⟨new, hentries, hnew, hend⟩ := ih h
        refine ⟨p.record index r m₁ :: new, ?_, .cons hstep hnew, ?_⟩
        · rw [hentries, List.reverse_cons, List.append_assoc]
          rfl
        · exact hend.imp id fun hlength => congrArg (· + 1) hlength

namespace Transcript

variable {index k : Nat} {entry : TraceStep} {entries : List TraceStep}

/-- There is one entry for every step. -/
theorem stepsIn (h : p.Transcript config index m entries m') :
    p.StepsIn config entries.length m m' := by
  induction h with
  | nil => exact .none
  | cons hstep _ ih => exact .more ⟨_, hstep⟩ ih

/-- An entry is the record of its step. -/
theorem entry_eq (h : p.Transcript config index m entries m') (hk : entries[k]? = some entry) :
    ∃ before after r, p.StepsIn config k m before ∧ p.step config before = (.ok r, after) ∧
      entry = p.record (index + k) r after := by
  induction h generalizing k with
  | nil => cases hk
  | @cons index r m m₁ m' entries hstep _ ih =>
    cases k with
    | zero =>
      cases hk
      exact ⟨m, m₁, r, .none, hstep, rfl⟩
    | succ k =>
      obtain ⟨before, after, r', hsteps, hlast, hentry⟩ := ih hk
      refine ⟨before, after, r', .more ⟨r, hstep⟩ hsteps, hlast, ?_⟩
      rw [hentry, Nat.add_assoc, Nat.add_comm 1 k]

/-- The last entry holds the state that all the steps have led to. -/
theorem state_of_last (h : p.Transcript config index m entries m')
    (hlast : entries.getLast? = some entry) : entry.state = m'.state := by
  induction h with
  | nil => cases hlast
  | @cons index r m m₁ m' entries _ hrest ih =>
    cases hrest with
    | nil =>
      cases hlast
      rfl
    | cons hstep hrest => exact ih ((List.getLast?_cons_cons ..).symm.trans hlast)

end Transcript

/-- What an entry of a recorded run tells of the step from one machine to another. -/
structure Records (p : Program) (index : Nat) (r : StepResult) (before after : Machine)
    (entry : TraceStep) : Prop where
  index : entry.index = index
  state : entry.state = after.state
  waiting : entry.waiting = r.waiting
  /-- the node is the one that the step has highlighted, if it has highlighted one -/
  node : Lit entry.node.toList before after
  /-- the type is that of the node in the program, unless its id is empty -/
  type : ∀ id, entry.node = some id →
    ∃ n, p.node? id = some n ∧ entry.type = if id.isEmpty then none else some n.type
  untyped : entry.node = none → entry.type = none

/-- **A record is right about its step**: the node is the one that was highlighted, and the state is
the one after the step. -/
theorem records_record {r : StepResult} (index : Nat) (hplace : p.Lasting config m.state)
    (hstep : p.step config m = (.ok r, m')) : p.Records index r m m' (p.record index r m') := by
  have hlit := lit_step p config m
  have hknown (id : String) (hid : (p.step config m).2.lastNode = some id) :=
    known_of_step hplace hid
  rw [hstep] at hlit hknown
  refine ⟨rfl, rfl, rfl, hlit, fun id hid => ?_, fun hnone => ?_⟩
  · have hid : m'.lastNode = some id := hid
    obtain ⟨n, hn⟩ := hknown id hid
    refine ⟨n, hn, ?_⟩
    simp only [record, highlightedType, hid, hn, Option.map_some]
  · have hnone : m'.lastNode = none := hnone
    simp only [record, highlightedType, hnone]

/-- The place to go on from is kept over any number of steps. -/
theorem lasting_of_stepsIn (hp : p.Closed) {k : Nat} (hplace : p.Lasting config m.state)
    (h : p.StepsIn config k m m') : p.Lasting config m'.state := by
  induction h with
  | none => exact hplace
  | @more k m m₁ m' hfirst _ ih =>
    obtain ⟨r, hfirst⟩ := hfirst
    have hstep := keeps_lasting_step hp m hplace
    rw [hfirst] at hstep
    exact ih hstep

/-- Ending a run that is not over yet. -/
theorem state_halt_stepLimit (m : Machine) : (halt .stepLimit m).2.state = cutOff m.state := by
  by_cases hhalted : m.state.halted = true
  · rw [halt_apply_of_halted hhalted, cutOff, if_pos hhalted]
  · obtain ⟨_, m', hm, hstate⟩ := does_halt .stepLimit (m := m) (by simpa using hhalted)
    rw [hm, cutOff, if_neg hhalted]
    exact hstate

variable {blocks : List Block} {edges : List Edge} {vars : Dict} {budget : Option Int} {t : Trace}

/-- **A recorded run tells what happened.** For every program that is built, every configuration
and budget, and from wherever earlier calls have left the run: if no step fails, the entries are
those of the steps in order, up to the end of the run or of the budget, each with the state its step
has left, what the step has answered and the node it has highlighted. The recorded run begins and
ends with the states before and after it; the last one is that of the last entry, cut off where the
budget was used up. The type in an entry is that of its node exactly if the id of the node is not
empty. -/
theorem records_of_trace (hbuild : build blocks edges = .ok p) (hm : p.CalledTo config vars m)
    (htrace : p.trace config budget m = (.ok t, m')) :
    t.initial = m.state ∧ t.final = m'.state ∧
    (∀ k entry, t.steps[k]? = some entry → ∃ before after r,
      p.StepsIn config k m before ∧ p.step config before = (.ok r, after) ∧
      p.Records k r before after entry) ∧
    (∃ last, p.StepsIn config t.steps.length m last ∧ t.final = cutOff last.state ∧
      (last.state.halted = true ∨ t.steps.length = budgetSteps config budget)) ∧
    ∀ entry, t.steps.getLast? = some entry → t.final = cutOff entry.state := by
  have hp := closed_build hbuild
  have hplace : p.Lasting config m.state :=
    holds_of_calledTo (lasting_start hp config vars) (keeps_lasting_step hp) keeps_lasting_halt hm
  simp only [trace] at htrace
  rw [bind_ok (getState_apply m)] at htrace
  rcases hsteps : p.traceFor config (budgetSteps config budget) 0 [] m with ⟨fault | steps, last⟩
  · rw [bind_error hsteps] at htrace
    cases htrace
  obtain ⟨ended, hended⟩ := halt_apply .stepLimit last
  rw [bind_ok hsteps, bind_ok hended] at htrace
  cases htrace
  obtain ⟨new, hnew, htranscript, hend⟩ := transcript_of_traceFor hsteps
  obtain rfl : steps = new := hnew
  have hfinal : m'.state = cutOff last.state := by
    have hstate := state_halt_stepLimit last
    rwa [hended] at hstate
  refine ⟨rfl, rfl, fun k entry hk => ?_, ⟨last, htranscript.stepsIn, hfinal, hend⟩,
    fun entry hlast => ?_⟩
  · obtain ⟨before, after, r, hbefore, hstep, rfl⟩ := htranscript.entry_eq hk
    rw [Nat.zero_add]
    exact ⟨before, after, r, hbefore, hstep,
      records_record k (lasting_of_stepsIn hp hplace hbefore) hstep⟩
  · rw [htranscript.state_of_last hlast]
    exact hfinal

/-- What is recorded of the notice, with what the two ticks of its wait have answered. -/
theorem trace_notice : ∃ t m',
    notice.trace slowTicks none (.start notice slowTicks []) = (.ok t, m') ∧
    (t.steps.map fun entry => (entry.index, entry.node, entry.waiting)) =
      [(0, some "w", true), (1, some "w", false), (2, some "s", false), (3, some "c", false)] ∧
    (∀ k entry, t.steps[k]? = some entry → ∃ before after r,
      notice.StepsIn slowTicks k (.start notice slowTicks []) before ∧
      notice.step slowTicks before = (.ok r, after) ∧ notice.Records k r before after entry) := by
  have hbuild : build noticeBlocks noticeEdges = .ok notice := rfl
  have hentries : (notice.trace slowTicks none (.start notice slowTicks [])).1.toOption.map
      (fun t => t.steps.map fun entry => (entry.index, entry.node, entry.waiting)) =
      some [(0, some "w", true), (1, some "w", false), (2, some "s", false),
        (3, some "c", false)] := by decide +kernel
  rcases htrace : notice.trace slowTicks none (.start notice slowTicks []) with ⟨fault | t, m'⟩ <;>
    rw [htrace] at hentries
  · cases hentries
  · obtain ⟨-, -, hrecords, -⟩ := records_of_trace hbuild .refl htrace
    exact ⟨t, m', rfl, Option.some.inj hentries, hrecords⟩

/-- A block whose id is empty. -/
def namelessBlocks : List Block := [{ id := "", type := .str "say" }]

/-- What it is compiled to. -/
def nameless : Program where
  nodes := [{ id := "", type := .str "say" }]
  roots := [""]
  entry := some ""

/-- **An empty id hides the type.** The entry of a step that has highlighted the node without a name
has that name, and no type, although the program has a type for it. -/
theorem trace_nameless : (∀ b ∈ namelessBlocks, b.InOrder) ∧
    build namelessBlocks [] = .ok nameless ∧
    ((nameless.trace {} none (.start nameless {} [])).1.toOption.map fun t =>
      t.steps.map fun entry => (entry.node, entry.type.isNone)) = some [(some "", true)] ∧
    (nameless.node? "").map (·.is .say) = some true := by
  refine ⟨?_, rfl, by decide +kernel, by decide +kernel⟩
  intro b hb
  obtain rfl := List.mem_singleton.1 hb
  exact ⟨⟨_, rfl⟩, ⟨_, rfl⟩, ⟨_, rfl⟩⟩

end Program

end BlockProgram
