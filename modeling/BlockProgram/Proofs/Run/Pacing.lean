import BlockProgram.Proofs.Machine.Call

/-!
# Pacing does not matter

A host can let a program run by itself, record the run, or take steps on its own and let the rest
run. All of it leads to the same end:

* recording is running (`Program.call_trace`);
* a run is cut off by its own step limit, so a budget beyond what the limit leaves changes nothing
  (`Program.seen_runOut_more`), and steps taken in front are steps taken from the budget
  (`Program.seen_paced`);
* what is printed along the way does not change a state, so a run and a trace of one source end in
  the same state (`Source.result_run`).

Where the step limit is met is the one place to look at closely. A run that has used up its budget
ends there without a step; one that has budget left takes a step, which finds the limit used up.
Both end alike but for the node that is remembered as highlighted last, which is left out of what
is compared (`Program.seen`). A run that is neither over nor at some place would end in two ways,
so the place of a run is followed along (`State.Underway`).
-/

namespace BlockProgram

/-- A machine but for the node that its last step has highlighted. -/
def Machine.withoutLast (m : Machine) : Machine := { m with lastNode := none }

/-- A run that is over, or waits or has a node to go on at, and has at most some steps left below
its limit. -/
def State.Underway (s : State) (config : Config) (left : Nat) : Prop :=
  s.halted = true ∨
    ((s.waiting.isNone && s.current.isNone) = false ∧ config.maxSteps ≤ (s.steps + left : Nat))

namespace Program

open Exec

variable {p : Program} {config : Config} {m : Machine}

/-- What two outcomes are compared by. -/
def seen (outcome : Except Fault Unit × Machine) : Except Fault Unit × Machine :=
  (outcome.1, outcome.2.withoutLast)

/-- Two outcomes with the same result, state, figures and events. -/
structure Alike (x y : Except Fault Unit × Machine) : Prop where
  result : x.1 = y.1
  state : x.2.state = y.2.state
  stats : x.2.stats = y.2.stats
  log : x.2.log = y.2.log

theorem alike_of_seen {x y : Except Fault Unit × Machine} (h : seen x = seen y) : Alike x y := by
  obtain ⟨result, m⟩ := x
  obtain ⟨result', m'⟩ := y
  simp only [seen, Machine.withoutLast, Prod.mk.injEq, Machine.mk.injEq] at h
  obtain ⟨hresult, hstate, hticks, -, hlog⟩ := h
  refine ⟨hresult, hstate, ?_, hlog⟩
  simp only [Machine.stats, hstate, hticks]

/-! ## Steps and the rest of a run -/

/-- Steps up to the end of the run or of a budget, which ends the run as well. -/
def runOut (p : Program) (config : Config) (budget : Nat) : Exec Unit := do
  p.runFor config budget
  halt .stepLimit

/-- Steps that a host takes one after the other. -/
def stepTimes (p : Program) (config : Config) : Nat → Exec Unit
  | 0 => pure ()
  | n + 1 => do
    let _ ← p.step config
    p.stepTimes config n

/-- Steps that a host takes on its own, and then the rest of the run. -/
def paced (p : Program) (config : Config) (n : Nat) : Exec Unit := do
  p.stepTimes config n
  p.run config none

/-- A run that is over uses up no budget. -/
theorem runFor_of_halted (h : m.state.halted = true) (budget : Nat) :
    p.runFor config budget m = (.ok (), m) := by
  cases budget with
  | zero => rfl
  | succ budget => simp only [runFor, h, if_true]

/-- A budget is used up step by step, and a failure ends it. -/
theorem runFor_succ (h : m.state.halted = false) (budget : Nat) :
    p.runFor config (budget + 1) m = match p.step config m with
      | (.ok _, m') => p.runFor config budget m'
      | (.error fault, m') => (.error fault, m') := by
  rcases hstep : p.step config m with ⟨fault | r, m'⟩ <;>
    simp only [runFor, h, hstep, Bool.false_eq_true, if_false]

theorem runOut_of_halted (h : m.state.halted = true) (budget : Nat) :
    p.runOut config budget m = (.ok (), m) := by
  rw [runOut, bind_ok (runFor_of_halted h budget), halt_apply_of_halted h]

theorem runOut_succ (h : m.state.halted = false) (budget : Nat) :
    p.runOut config (budget + 1) m = match p.step config m with
      | (.ok _, m') => p.runOut config budget m'
      | (.error fault, m') => (.error fault, m') := by
  rw [runOut, bind_apply, runFor_succ h]
  rcases p.step config m with ⟨fault | r, m'⟩
  · rfl
  · exact (bind_apply _ _ m').symm

/-- The first thing that a step does is to forget what the last one has highlighted. -/
theorem step_withoutLast (m : Machine) : p.step config m.withoutLast = p.step config m := rfl

/-- Which node was highlighted last makes no difference for the rest of a run. -/
theorem seen_runOut_withoutLast (budget : Nat) (m : Machine) :
    seen (p.runOut config budget m.withoutLast) = seen (p.runOut config budget m) := by
  by_cases h : m.state.halted = true
  · rw [runOut_of_halted h, runOut_of_halted (m := m.withoutLast) h]
    rfl
  have hlive : m.state.halted = false := by simpa using h
  have hlive' : m.withoutLast.state.halted = false := hlive
  cases budget with
  | zero =>
    show seen (halt .stepLimit m.withoutLast) = seen (halt .stepLimit m)
    simp only [halt]
    rw [bind_ok (getState_apply m), bind_ok (getState_apply m.withoutLast), hlive, hlive']
    rfl
  | succ budget => rw [runOut_succ hlive, runOut_succ hlive', step_withoutLast]

/-- A step of a run that is over only forgets which node was highlighted last. -/
theorem step_of_over (h : m.state.halted = true) :
    p.step config m = (.ok ⟨true, false⟩, m.withoutLast) := by
  rw [step, bind_ok (modify_apply _ m), bind_ok (getState_apply _), if_pos h]
  rfl

/-- A step that finds the limit used up ends the run, as running out of a budget does. -/
theorem step_of_limit (hlive : m.state.halted = false)
    (hplace : (m.state.waiting.isNone && m.state.current.isNone) = false)
    (hlimit : config.maxSteps ≤ m.state.steps) :
    ∃ m', halt .stepLimit m.withoutLast = (.ok (), m') ∧ m'.state.halted = true ∧
      p.step config m = (.ok ⟨true, false⟩, m') := by
  have hlive' : m.withoutLast.state.halted = false := hlive
  obtain ⟨⟨⟩, m', hhalt, hended⟩ := does_halt .stepLimit hlive'
  refine ⟨m', hhalt, by rw [hended]; rfl, ?_⟩
  have hlive'' : ¬ m.state.halted = true := by simp [hlive]
  have hplace' : ¬ (m.state.waiting.isNone && m.state.current.isNone) = true := by simp [hplace]
  rw [step, bind_ok (modify_apply _ m), bind_ok (getState_apply _), if_neg hlive'', if_neg hplace',
    if_pos hlimit]
  exact bind_ok hhalt

/-- **Steps taken in front are taken from the budget.** -/
theorem seen_steps_runOut (n budget : Nat) (m : Machine) :
    seen ((do p.stepTimes config n; p.runOut config budget) m) =
      seen (p.runOut config (n + budget) m) := by
  induction n generalizing m with
  | zero =>
    rw [Nat.zero_add]
    rfl
  | succ n ih =>
    have hassoc : ((do p.stepTimes config (n + 1); p.runOut config budget) : Exec Unit) m =
        match p.step config m with
        | (.ok _, m') => (do p.stepTimes config n; p.runOut config budget) m'
        | (.error fault, m') => (.error fault, m') := by
      rw [stepTimes, bind_assoc, bind_apply]
      rcases p.step config m with ⟨_ | _, _⟩ <;> rfl
    rw [hassoc, Nat.succ_add]
    by_cases h : m.state.halted = true
    · -- steps of a run that is over only forget
      rw [step_of_over h, runOut_of_halted h]
      have hover : m.withoutLast.state.halted = true := h
      have hrest := ih m.withoutLast
      rw [runOut_of_halted hover] at hrest
      exact hrest
    · rw [runOut_succ (by simpa using h)]
      rcases p.step config m with ⟨fault | r, m'⟩
      · rfl
      · exact ih m'

/-! ## The place of a run -/

/-- Arriving somewhere counts no step. -/
theorem steps_of_arrive {next : Option String} {s s' : State} (h : p.arrive next s = .ok s') :
    s'.steps = s.steps := by
  obtain ⟨current, frames, rfl⟩ := p.arrive_ok h
  rfl

/-- What a step does that has been counted counts no step. -/
theorem steps_of_act {s s' : State} (h : p.act config s = .ok s') : s'.steps = s.steps := by
  simp only [act] at h
  split at h
  · simp only [ticked] at h
    split at h
    · cases h
      rfl
    · exact (steps_of_arrive h).trans rfl
  · simp only [executed] at h
    rename_i n _ _
    rcases hplan : p.plan config n s.world with fault | ⟨w, plan⟩ <;> rw [hplan] at h
    · cases h
    · change p.follow n plan (s.within w) = .ok s' at h
      cases plan with
      | stop =>
        cases h
        rfl
      | rest ticks =>
        cases h
        rfl
      | goOn next entered => exact (steps_of_arrive h).trans rfl
  · cases h
    rfl

/-- After settling a run is over or has something to do. -/
theorem place_settled (s : State) : s.settled.halted = true ∨
    (s.settled.waiting.isNone && s.settled.current.isNone) = false := by
  simp only [State.settled]
  split
  · exact .inl rfl
  · rename_i hgoing
    rcases hhalted : s.halted with _ | _
    · rw [hhalted, Bool.not_false, Bool.and_true, Bool.not_eq_true] at hgoing
      exact .inr hgoing
    · exact .inl rfl

theorem steps_settled (s : State) : s.settled.steps = s.steps := by
  simp only [State.settled]
  split <;> rfl

/-- **A step leaves a run underway**, with one step less. -/
theorem underway_of_advance {left : Nat} {s s' : State} (hs : s.Underway config (left + 1))
    (h : p.advance config s = .ok s') : s'.Underway config left := by
  simp only [advance] at h
  split at h
  · rename_i hover
    cases h
    exact .inl hover
  rename_i hlive
  split at h
  · cases h
    exact .inl rfl
  split at h
  · cases h
    exact .inl rfl
  · obtain ⟨s₁, hact, rfl⟩ := Fault.map_ok h
    obtain ⟨-, hleft⟩ := hs.resolve_left hlive
    have hsteps := steps_of_act hact
    rcases place_settled s₁ with hover | hplace
    · exact .inl hover
    · refine .inr ⟨hplace, ?_⟩
      rw [steps_settled, hsteps]
      push_cast at hleft ⊢
      omega

/-- Each step uses up one of the steps that are left. -/
theorem underway_of_step {left : Nat} {r : StepResult} {m' : Machine}
    (hm : m.state.Underway config (left + 1)) (h : p.step config m = (.ok r, m')) :
    m'.state.Underway config left :=
  underway_of_advance hm (advance_of_step h)

/-- **A budget beyond what the step limit leaves changes nothing.** -/
theorem seen_runOut_more {budget : Nat} (hm : m.state.Underway config budget) :
    seen (p.runOut config (budget + 1) m) = seen (p.runOut config budget m) := by
  -- down to the end of the budget, where the step in excess finds the limit used up
  induction budget generalizing m with
  | zero =>
    rcases hm with hover | ⟨hplace, hlimit⟩
    · rw [runOut_of_halted hover, runOut_of_halted hover]
    rcases hhalted : m.state.halted with _ | _
    · obtain ⟨m', hhalt, hover, hstep⟩ := step_of_limit (p := p) hhalted hplace hlimit
      have hzero : p.runOut config 0 m.withoutLast = (.ok (), m') := hhalt
      rw [runOut_succ hhalted, hstep, ← seen_runOut_withoutLast 0 m, hzero]
      exact congrArg seen (runOut_of_halted hover 0)
    · rw [runOut_of_halted hhalted, runOut_of_halted hhalted]
  | succ budget ih =>
    rcases hhalted : m.state.halted with _ | _
    · rw [runOut_succ hhalted, runOut_succ hhalted]
      rcases hstep : p.step config m with ⟨fault | r, m'⟩
      · rfl
      · exact ih (underway_of_step hm hstep)
    · rw [runOut_of_halted hhalted, runOut_of_halted hhalted]

/-- A larger budget is enough as well. -/
theorem underway_more {left : Nat} {s : State} (h : s.Underway config left) (more : Nat) :
    s.Underway config (more + left) := by
  refine h.imp_right fun ⟨hplace, hlimit⟩ => ⟨hplace, ?_⟩
  push_cast at hlimit ⊢
  omega

/-- At the start the budget is the limit, so running out of the one is meeting the other. -/
theorem underway_start (h : p.entry.isSome = true) (config : Config) (vars : Dict) :
    (Machine.start p config vars).state.Underway config (budgetSteps config none) := by
  refine .inr ⟨?_, ?_⟩
  · simpa [Machine.start, ← Option.isSome_iff_ne_none] using h
  · simp only [budgetSteps, Option.getD_none, Machine.start]
    omega

/-- Steps in front do not change what a run from the start comes to. -/
theorem seen_paced (h : p.entry.isSome = true) (config : Config) (vars : Dict) (n : Nat) :
    seen (p.paced config n (.start p config vars)) =
      seen (p.run config none (.start p config vars)) := by
  show seen ((do p.stepTimes config n; p.runOut config (budgetSteps config none)) _) =
    seen (p.runOut config (budgetSteps config none) _)
  rw [seen_steps_runOut]
  induction n with
  | zero => rw [Nat.zero_add]
  | succ n ih =>
    rw [Nat.succ_add, seen_runOut_more (underway_more (underway_start h config vars) n), ih]

/-! ## What is printed along the way -/

/-- What an action leaves as the state, unless it fails. -/
def outcome {α : Type} (x : Exec α) (m : Machine) : Except Fault State :=
  (x m).1.map fun _ => (x m).2.state

/-- What an action does is its outcome. -/
theorem Does.outcome_eq {α : Type} {x : Exec α} {result : Except Fault State}
    (h : Does x m result) : outcome x m = result := by
  rcases result with fault | s
  · obtain ⟨m', hm⟩ := h
    rw [outcome, hm]
    rfl
  · obtain ⟨a, m', hm, rfl⟩ := h
    rw [outcome, hm]
    rfl

theorem Does.of_eq {α : Type} {x y : Exec α} {m m' : Machine} {result : Except Fault State}
    (h : Does y m' result) (heq : x m = y m') : Does x m result := by
  simp only [Does] at h ⊢
  rw [heq]
  exact h

/-- Steps up to the end of the run or of a budget, as a function on states. -/
def advanceFor (p : Program) (config : Config) : Nat → State → Except Fault State
  | 0, s => .ok s
  | budget + 1, s =>
    if s.halted then .ok s else p.advance config s >>= p.advanceFor config budget

/-- **A run for a budget does what advancing the state as often does.** -/
theorem does_runFor (budget : Nat) (m : Machine) :
    Does (p.runFor config budget) m (p.advanceFor config budget m.state) := by
  induction budget generalizing m with
  | zero => exact ⟨(), m, rfl, rfl⟩
  | succ budget ih =>
    rcases hhalted : m.state.halted with _ | _
    · have hstep := p.does_step config m
      rw [advanceFor, if_neg (by simp [hhalted])]
      rcases hadvance : p.advance config m.state with fault | s <;> rw [hadvance] at hstep
      · obtain ⟨m', hm⟩ := hstep
        exact ⟨m', by rw [runFor_succ hhalted, hm]⟩
      · obtain ⟨r, m', hm, rfl⟩ := hstep
        have hrest : p.runFor config (budget + 1) m = p.runFor config budget m' := by
          rw [runFor_succ hhalted, hm]
        exact (ih m').of_eq hrest
    · rw [advanceFor, if_pos hhalted]
      exact ⟨(), m, runFor_of_halted hhalted _, rfl⟩

/-- Running out of a budget ends a run that is not over. -/
def cutOff (s : State) : State := if s.halted then s else s.ended .stepLimit

/-- So a run does what advancing and cutting off does. -/
theorem does_run (budget : Option Int) (m : Machine) :
    Does (p.run config budget) m
      ((p.advanceFor config (budgetSteps config budget) m.state).map cutOff) := by
  refine Does.andThen (does_runFor _ m) fun _ m' _ => ?_
  rcases hhalted : m'.state.halted with _ | _
  · rw [cutOff, if_neg (by simp [hhalted])]
    exact does_halt _ hhalted
  · rw [cutOff, if_pos hhalted]
    exact ⟨(), m', halt_apply_of_halted hhalted, rfl⟩

/-- **A run comes to the same state whether lines are printed or not.** -/
theorem outcome_run_verbose (verbose : Bool) (budget : Option Int) (m : Machine) :
    outcome (p.run { config with verbose } budget) m = outcome (p.run config budget) m := by
  have hadvance (n : Nat) (s : State) :
      p.advanceFor { config with verbose } n s = p.advanceFor config n s := by
    induction n generalizing s with
    | zero => rfl
    | succ n ih =>
      have hstep : p.advance { config with verbose } s = p.advance config s := rfl
      simp only [advanceFor, hstep]
      rcases p.advance config s with fault | s'
      · rfl
      · split
        · rfl
        · exact ih s'
  rw [(does_run budget m).outcome_eq, (does_run budget m).outcome_eq, hadvance]
  rfl

/-- The last state of a recorded run is that of the run. -/
theorem final_trace (budget : Option Int) (m : Machine) :
    (p.trace config budget m).1.map (·.final) = outcome (p.run config budget) m := by
  obtain ⟨steps, htrace⟩ := @trace_eq p config budget m
  rw [htrace, outcome]
  rcases p.run config budget m with ⟨fault | ⟨⟩, m'⟩ <;> rfl

end Program

/-! ## Runs of a source -/

open Program

/-- The report of a finished run can always be written. -/
theorem Execution.exists_closingLines (g : ProgramGraph) (p : Program) (s : State) :
    ∃ lines, closingLines g p s = .ok lines := by
  obtain ⟨time, htime⟩ : ∃ time, Figures.milliseconds (.float 0) = .ok time := by
    have hok : (Figures.milliseconds (.float 0)).isOk = true := by decide +kernel
    rcases h : Figures.milliseconds (.float 0) with fault | time
    · rw [h] at hok
      cases hok
    · exact ⟨time, rfl⟩
  simp only [closingLines, Figures.report, Figures.lines, Figures.stage, figures, htime]
  exact ⟨_, rfl⟩

theorem Execution.result_ofProgram (g : ProgramGraph) (p : Program) (o : RunOptions) (vars : Dict) :
    (ofProgram g p o vars).result = outcome (p.run o.config none) (.start p o.config vars) := by
  simp only [ofProgram, outcome]
  rcases p.run o.config none (.start p o.config vars) with ⟨fault | ⟨⟩, m⟩
  · rfl
  · obtain ⟨lines, hlines⟩ := exists_closingLines g p m.state
    simp only [hlines]
    split <;> rfl

/-- **A run and a trace of one source end in the same state**, or fail alike. -/
theorem Source.result_run (source : Source) (o : RunOptions) :
    (source.run o).result = (source.trace o).map (·.final) := by
  have hcompile : source.compile = source.snapshot >>= ProgramGraph.build := rfl
  rw [run, trace, hcompile]
  rcases source.snapshot with fault | g
  · rfl
  rw [show (Except.ok g >>= ProgramGraph.build) = g.build from rfl]
  dsimp only
  rcases g.build with fault | p
  · rfl
  · refine (Execution.result_ofProgram g p o _).trans ?_
    rw [← outcome_run_verbose false none]
    exact (final_trace none _).symm

namespace Program

variable {p : Program}

/-- **Pacing does not matter.** From any machine and with any budget, recording a run does what
running does. From the start of a program, any number of steps that the host takes on its own and
the rest of the run come to what the run alone comes to: the same result, state, figures and
events, also where the step limit is met. So running a source and recording it end in the same
state. -/
theorem run_paced (hentry : p.entry.isSome = true) (config : Config) (vars : Dict) :
    (∀ (m : Machine) (budget : Option Int),
      p.call config (.trace budget) m = p.call config (.run budget) m) ∧
    (∀ n, Alike (p.paced config n (.start p config vars))
      (p.run config none (.start p config vars))) ∧
    (∀ (source : Source) (o : RunOptions),
      (source.run o).result = (source.trace o).map (·.final)) :=
  ⟨fun m budget => call_trace budget m, fun n => alike_of_seen (seen_paced hentry config vars n),
    Source.result_run⟩

/-- A program that counts a variable up in two rounds of a loop and then stops. -/
def countingTwice : Program where
  nodes := [
    { id := "s", type := .str "start", next := some "r" },
    { id := "r", type := .str "repeat_times", inputs := [(.str "times", .int 2)],
      next := some "e", branches := [("body", "c")] },
    { id := "c", type := .str "change_variable",
      inputs := [(.str "name", .str "n"), (.str "delta", .int 1)] },
    { id := "e", type := .str "stop" }]
  roots := ["s", "c"]
  entry := some "s"

/-- A limit of three steps, which is met inside of a loop. -/
def threeSteps : Config := { maxSteps := 3 }

/-- Five steps in front, the last two of which find the limit used up. -/
theorem run_paced_countingTwice :
    Alike (countingTwice.paced threeSteps 5 (.start countingTwice threeSteps []))
      (countingTwice.run threeSteps none (.start countingTwice threeSteps [])) ∧
    (countingTwice.run threeSteps none
      (.start countingTwice threeSteps [])).2.stats = ⟨3, 0, 0, some .stepLimit⟩ :=
  ⟨(run_paced rfl threeSteps []).2.1 5, by decide +kernel⟩

end Program

end BlockProgram
