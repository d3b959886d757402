import BlockProgram.Proofs.Machine.Overflow

/-!
# The calls of a host

A host steps, runs or records a run, in any order and also after a call that failed. All of it is
taking steps: a run is the steps of its budget, up to the end of the program or the first failure
(`Program.runFor_error_iff`), and recording it does to the machine what running does
(`Program.call_trace`).

So a call is out of range exactly where a step within its budget comes to a statement that overflows
(`Program.call_error_iff`). For a program of checked blocks and a configuration with finite numbers it
fails in one other way only, which takes a whole number that was handed over with too many digits to
be written out.
-/

namespace BlockProgram

open Relation

/-- A number that is a whole number or a finite float. -/
def Number.Finite (n : Number) : Prop := ∀ x, n = .float x → Binary.isFinite x = true

/-- A configuration whose heading and ticks are finite numbers. -/
structure Config.Finite (config : Config) : Prop where
  heading : ∃ h, config.initialHeading.number? = some h ∧ h.Finite
  ticks : ∃ t, config.ticksPerSecond.number? = some t ∧ t.Finite

namespace Program

open Exec

/-- What a host can call. -/
inductive Call where
  | step
  | run (budget : Option Int)
  | trace (budget : Option Int)

/-- What a call does to a machine. -/
def call (p : Program) (config : Config) : Call → Exec Unit
  | .step => do let _ ← p.step config
  | .run budget => p.run config budget
  | .trace budget => do let _ ← p.trace config budget

/-- The steps that a call takes at most. -/
def Call.steps (config : Config) : Call → Nat
  | .step => 1
  | .run budget => budgetSteps config budget
  | .trace budget => budgetSteps config budget

/-- A machine that calls have led to from the start of a run, whatever came of each of them. -/
def CalledTo (p : Program) (config : Config) (vars : Dict) : Machine → Prop :=
  ReflTransGen (fun m m' => ∃ c, (p.call config c m).2 = m') (.start p config vars)

variable {p : Program} {config : Config} {m m' : Machine}

variable (p config) in
/-- One machine is the other after a number of steps that did not fail. -/
inductive StepsIn : Nat → Machine → Machine → Prop
  | none {m : Machine} : StepsIn 0 m m
  | more {k : Nat} {m m₁ m' : Machine} : p.Steps config m m₁ → StepsIn k m₁ m' →
    StepsIn (k + 1) m m'

/-! ## Runs and recorded runs -/

/-- Ending a run does not fail. -/
theorem halt_apply (reason : HaltReason) (m : Machine) : ∃ m', halt reason m = (.ok (), m') := by
  by_cases h : m.state.halted
  · exact ⟨m, halt_apply_of_halted h⟩
  · obtain ⟨⟨⟩, m', hm, -⟩ := does_halt reason (m := m) (by simpa using h)
    exact ⟨m', hm⟩

/-- Recording the steps of a run does to the machine what the run does, and fails like it. -/
theorem traceFor_eq (budget index : Nat) (sofar : List TraceStep) (m : Machine) :
    ∃ steps, p.traceFor config budget index sofar m =
      ((p.runFor config budget m).1.map fun _ => steps, (p.runFor config budget m).2) := by
  induction budget generalizing index sofar m with
  | zero => exact ⟨_, rfl⟩
  | succ budget ih =>
    simp only [traceFor, runFor]
    split
    · exact ⟨_, rfl⟩
    -- what is recorded so far grows, and nothing reads it
    · rcases hstep : p.step config m with ⟨fault | r, m'⟩
      · exact ⟨[], rfl⟩
      · exact ih (index + 1) _ m'

/-- What a recorded run gives besides its steps, and what it does to the machine, is what running
gives and does. -/
theorem trace_eq (budget : Option Int) (m : Machine) :
    ∃ steps, p.trace config budget m =
      ((p.run config budget m).1.map fun _ =>
        ⟨m.state, steps, (p.run config budget m).2.stats, (p.run config budget m).2.state⟩,
        (p.run config budget m).2) := by
  obtain ⟨steps, hsteps⟩ := @traceFor_eq p config (budgetSteps config budget) 0 [] m
  refine ⟨steps, ?_⟩
  rcases hrun : p.runFor config (budgetSteps config budget) m with ⟨fault | ⟨⟩, m'⟩ <;>
    rw [hrun] at hsteps
  · rw [run, bind_error hrun]
    simp only [trace]
    rw [bind_ok (getState_apply m), bind_error hsteps]
    rfl
  · obtain ⟨m'', hhalt⟩ := halt_apply .stepLimit m'
    rw [run, bind_ok hrun, hhalt]
    simp only [trace]
    rw [bind_ok (getState_apply m), bind_ok hsteps, bind_ok hhalt]
    rfl

/-- **Recording a run is running.** -/
theorem call_trace (budget : Option Int) (m : Machine) :
    p.call config (.trace budget) m = p.call config (.run budget) m := by
  obtain ⟨steps, htrace⟩ := @trace_eq p config budget m
  show (p.trace config budget >>= fun _ => pure ()) m = p.run config budget m
  rw [bind_apply, htrace]
  rcases p.run config budget m with ⟨fault | ⟨⟩, m'⟩ <;> rfl

/-- A step of a run that is over does nothing. -/
theorem step_of_halted (h : m.state.halted = true) :
    ∃ r m', p.step config m = (.ok r, m') ∧ m'.state = m.state := by
  refine step_of_advance ?_
  rw [advance, if_pos h]

/-- Once a run is over, no further step fails. -/
theorem not_error_of_halted {k : Nat} {fault : Fault} (hm : m.state.halted = true)
    (h : p.StepsIn config k m m') : (p.step config m').1 ≠ .error fault := by
  induction h with
  | none =>
    obtain ⟨r, m', hstep, -⟩ := @step_of_halted p config _ hm
    rw [hstep]
    exact fun h => nomatch h
  | more hfirst _ ih =>
    obtain ⟨r, hfirst⟩ := hfirst
    obtain ⟨r', m₁, hstep, hstate⟩ := @step_of_halted p config _ hm
    rw [hfirst] at hstep
    cases hstep
    exact ih (by rw [hstate]; exact hm)

/-- **A run fails exactly where one of its steps does.** -/
theorem runFor_error_iff {budget : Nat} {fault : Fault} :
    (p.runFor config budget m).1 = .error fault ↔
      ∃ k < budget, ∃ m', p.StepsIn config k m m' ∧ (p.step config m').1 = .error fault := by
  -- the first step fails, or the rest of the budget decides
  induction budget generalizing m with
  | zero =>
    constructor
    · rintro ⟨⟩
    · rintro ⟨k, hk, -⟩
      cases hk
  | succ budget ih =>
    simp only [runFor]
    split
    · rename_i hhalted
      constructor
      · rintro ⟨⟩
      · rintro ⟨k, -, m', hsteps, herror⟩
        exact absurd herror (not_error_of_halted hhalted hsteps)
    · rcases hstep : p.step config m with ⟨fault' | r, m₁⟩
      · constructor
        · rintro ⟨⟩
          exact ⟨0, Nat.succ_pos _, m, .none, by rw [hstep]⟩
        · rintro ⟨k, -, m', hsteps, herror⟩
          cases hsteps with
          | none =>
            rw [hstep] at herror
            cases herror
            rfl
          | more hfirst _ =>
            obtain ⟨r, hfirst⟩ := hfirst
            rw [hstep] at hfirst
            cases hfirst
      · show (p.runFor config budget m₁).1 = .error fault ↔ _
        rw [ih]
        constructor
        · rintro ⟨k, hk, m', hsteps, herror⟩
          exact ⟨k + 1, Nat.succ_lt_succ hk, m', .more ⟨r, hstep⟩ hsteps, herror⟩
        · rintro ⟨k, hk, m', hsteps, herror⟩
          cases hsteps with
          | none =>
            rw [hstep] at herror
            cases herror
          | more hfirst hrest =>
            obtain ⟨r', hfirst⟩ := hfirst
            rw [hstep] at hfirst
            cases hfirst
            exact ⟨_, Nat.lt_of_succ_lt_succ hk, m', hrest, herror⟩

/-- A call fails exactly where one of its steps does. -/
theorem call_error_iff_step {c : Call} {fault : Fault} :
    (p.call config c m).1 = .error fault ↔
      ∃ k < c.steps config, ∃ m', p.StepsIn config k m m' ∧
        (p.step config m').1 = .error fault := by
  have hrun (budget : Option Int) : (p.call config (.run budget) m).1 = .error fault ↔
      (p.runFor config (budgetSteps config budget) m).1 = .error fault := by
    show (p.run config budget m).1 = .error fault ↔ _
    simp only [run]
    rcases hrun : p.runFor config (budgetSteps config budget) m with ⟨fault' | ⟨⟩, m'⟩
    · rw [bind_error hrun]
    · obtain ⟨m'', hhalt⟩ := halt_apply .stepLimit m'
      rw [bind_ok hrun, hhalt]
  cases c with
  | step =>
    have hone : (p.call config .step m).1 = .error fault ↔ (p.step config m).1 = .error fault := by
      show ((p.step config >>= fun _ => pure ()) m).1 = .error fault ↔ _
      rcases hstep : p.step config m with ⟨fault' | r, m'⟩
      · rw [bind_error hstep]
        constructor <;> (rintro ⟨⟩; rfl)
      · rw [bind_ok hstep]
        constructor <;> rintro ⟨⟩
    rw [hone]
    constructor
    · exact fun h => ⟨0, Nat.one_pos, m, .none, h⟩
    · rintro ⟨k, hk, m', hsteps, herror⟩
      cases hsteps with
      | none => exact herror
      | more => exact absurd hk (by simp [Call.steps])
  | run budget => exact (hrun budget).trans runFor_error_iff
  | trace budget =>
    rw [call_trace]
    exact (hrun budget).trans runFor_error_iff

/-! ## What calls keep -/

section Keeps

variable {I : State → Prop}

/-- What steps keep, running for a budget keeps, also where it fails on the way. -/
theorem keeps_runFor (hstep : Keeps I (p.step config)) (budget : Nat) :
    Keeps I (p.runFor config budget) := by
  induction budget with
  | zero => exact .pure ()
  | succ budget ih =>
    intro m hm
    have hfirst := hstep m hm
    simp only [runFor]
    split
    · exact hm
    · rcases hrun : p.step config m with ⟨fault | r, m₁⟩ <;> rw [hrun] at hfirst
      · exact hfirst
      · exact ih m₁ hfirst

/-- What steps keep, and running out of a budget, every call keeps. -/
theorem keeps_call (hstep : Keeps I (p.step config)) (hhalt : Keeps I (halt .stepLimit))
    (c : Call) : Keeps I (p.call config c) := by
  have hrun (budget : Option Int) : Keeps I (p.run config budget) :=
    (keeps_runFor hstep _).bind fun _ => hhalt
  cases c with
  | step => exact hstep.bind fun _ => .pure ()
  | run budget => exact hrun budget
  | trace budget =>
    intro m hm
    rw [call_trace]
    exact hrun budget m hm

/-- What holds at the start and is kept by steps holds at any time, also after calls that
failed. -/
theorem holds_of_calledTo {vars : Dict} (hstart : I (Machine.start p config vars).state)
    (hstep : Keeps I (p.step config)) (hhalt : Keeps I (halt .stepLimit))
    (h : p.CalledTo config vars m) : I m.state := by
  induction h with
  | refl => exact hstart
  | tail _ hcall ih =>
    obtain ⟨c, rfl⟩ := hcall
    exact keeps_call hstep hhalt c _ ih

end Keeps

/-- Variables stay of the kind that a run starts with, and so does the heading. -/
theorem sane_of_calledTo {A P : Value → Prop} (hp : p.Storing A P) {vars : Dict}
    (hheading : A config.initialHeading) (hvars : ∀ entry ∈ vars, P entry.2)
    (h : p.CalledTo config vars m) : m.state.Sane A P :=
  holds_of_calledTo (I := State.Sane A P) ⟨hheading, hvars⟩ (keeps_step hp) (keeps_halt _) h

/-- The same holds in the middle of a call. -/
theorem sane_of_stepsIn {A P : Value → Prop} (hp : p.Storing A P) {k : Nat}
    (hm : m.state.Sane A P) (h : p.StepsIn config k m m') : m'.state.Sane A P := by
  induction h with
  | none => exact hm
  | more hfirst _ ih =>
    obtain ⟨r, hfirst⟩ := hfirst
    have hstep := @keeps_step p config _ _ hp _ hm
    rw [hfirst] at hstep
    exact ih hstep

/-! ## When calls fail -/

variable {blocks : List Block} {edges : List Edge}

/-- **A call is out of range exactly where a step within its budget overflows.** For a program of
checked blocks and a configuration with finite numbers, after any calls and from any variables, only
one other thing can go wrong: the text of a whole number is needed that has too many digits. Such a
number is never computed, so it was handed over in a block or among the variables. -/
theorem call_error_iff (hblocks : ∀ b ∈ blocks, b.InOrder) (hbuild : build blocks edges = .ok p)
    (hconfig : config.Finite) {vars : Dict} (hm : p.CalledTo config vars m) (c : Call) :
    ((p.call config c m).1 = .error .outOfRange ↔
      ∃ k < c.steps config, ∃ m', p.StepsIn config k m m' ∧ p.Overflowing config m'.state) ∧
    ∀ fault, fault ≠ .outOfRange → (p.call config c m).1 = .error fault →
      fault = .tooManyDigits ∧
        ¬ ((∀ b ∈ blocks, b.inputs.Writable) ∧ ∀ entry ∈ vars, entry.2.Writable) := by
  have htyped := typed_of_build hblocks hbuild
  obtain ⟨ticks, hticks, -⟩ := hconfig.ticks
  obtain ⟨heading, hheading, hfinite⟩ := hconfig.heading
  have haims : config.initialHeading.Aims :=
    ⟨heading, hheading, fun x hx => Binary.isInf_of_isFinite (hfinite x hx)⟩
  -- the heading is still usable at the step in question
  have hstep {k : Nat} {m' : Machine} (hsteps : p.StepsIn config k m m') :
      OutOfRangeIff (Short m'.state.vars p.nodes) (p.Overflowing config m'.state)
        (p.advance config m'.state) := by
    have hsane := sane_of_calledTo p.storing_aims haims (fun _ _ => trivial) hm
    exact outOfRangeIff_advance htyped (sane_of_stepsIn p.storing_aims hsane hsteps).heading
      ⟨ticks, hticks⟩
  constructor
  · rw [call_error_iff_step]
    constructor
    · rintro ⟨k, hk, m', hsteps, herror⟩
      exact ⟨k, hk, m', hsteps, (hstep hsteps).error_iff.1 (step_error_iff.1 herror)⟩
    · rintro ⟨k, hk, m', hsteps, hover⟩
      exact ⟨k, hk, m', hsteps, step_error_iff.2 ((hstep hsteps).error_iff.2 hover)⟩
  · intro fault hfault herror
    obtain ⟨k, -, m', hsteps, herror⟩ := call_error_iff_step.1 herror
    obtain ⟨rfl, hlong⟩ := (hstep hsteps).eq_tooManyDigits hfault (step_error_iff.1 herror)
    refine ⟨rfl, fun hshort => hlong ?_⟩
    -- what is short at the start is short at that step
    have hnodes := writable_of_build hshort.1 hbuild
    have hstoring := storing_writable htyped hnodes
    have hsane := sane_of_calledTo hstoring trivial hshort.2 hm
    exact ⟨(sane_of_stepsIn hstoring hsane hsteps).vars, hnodes⟩

/-- A script that puts the sprite far to the right, moves it as far again, and then by a half. -/
def farOutBlocks : List Block := [
  { id := "g", type := .str "go_to", inputs := .dict [(.str "x", .int (10 ^ 308))] },
  { id := "a", type := .str "change_x_by", inputs := .dict [(.str "dx", .int (10 ^ 308))] },
  { id := "b", type := .str "change_x_by", inputs := .dict [(.str "dx", .float 0.5)] }]

/-- The links of that script. -/
def farOutEdges : List Edge := [.stack "g" "a", .stack "a" "b"]

/-- What that script is compiled to. -/
def farOut : Program where
  nodes := [
    { id := "g", type := .str "go_to", inputs := [(.str "x", .int (10 ^ 308))], next := some "a" },
    { id := "a", type := .str "change_x_by", inputs := [(.str "dx", .int (10 ^ 308))],
      next := some "b" },
    { id := "b", type := .str "change_x_by", inputs := [(.str "dx", .float 0.5)] }]
  roots := ["g"]
  entry := some "g"

theorem inOrder_farOut : ∀ b ∈ farOutBlocks, b.InOrder := by
  intro b hb
  simp only [farOutBlocks, List.mem_cons, List.not_mem_nil, or_false] at hb
  rcases hb with rfl | rfl | rfl <;> exact ⟨⟨_, rfl⟩, ⟨_, rfl⟩, ⟨_, rfl⟩⟩

theorem build_farOut : build farOutBlocks farOutEdges = .ok farOut := rfl

theorem finite_usual : Config.Finite {} := by
  refine ⟨⟨.float 0, rfl, ?_⟩, ⟨.int 60, rfl, ?_⟩⟩
  · rintro x ⟨⟩
    decide +kernel
  · rintro x ⟨⟩

/-- Whether a result is missing because a number is out of range. -/
def isOutOfRange : Except Fault Unit → Bool
  | .error .outOfRange => true
  | _ => false

/-- The third step adds a float to a whole number that is beyond the range of floats. -/
theorem error_farOut :
    (farOut.call {} (.run none) (.start farOut {} [])).1 = .error .outOfRange := by
  have hover : isOutOfRange (farOut.call {} (.run none) (.start farOut {} [])).1 = true := by
    decide +kernel
  revert hover
  generalize (farOut.call {} (.run none) (.start farOut {} [])).1 = result
  intro hover
  simp only [isOutOfRange] at hover
  split at hover
  · rfl
  · cases hover

/-- Its run comes to the last block with a coordinate that no float is near to. -/
theorem overflowing_farOut : ∃ k < 10000, ∃ m, farOut.StepsIn {} k (.start farOut {} []) m ∧
    farOut.Overflowing {} m.state :=
  (call_error_iff inOrder_farOut build_farOut finite_usual .refl (.run none)).1.1 error_farOut

/-- A script that says the value of a variable. -/
def sayingBlocks : List Block := [
  { id := "s", type := .str "say" },
  { id := "v", type := .str "variable", inputs := .dict [(.str "name", .str "n")] }]

/-- The link of that script. -/
def sayingEdges : List Edge := [.toInput "s" (some "text") "v"]

/-- What that script is compiled to. -/
def saying : Program where
  nodes := [
    { id := "s", type := .str "say", inputs := [(.str "text", .ref "v")] },
    { id := "v", type := .str "variable", inputs := [(.str "name", .str "n")] }]
  roots := ["s", "v"]
  entry := some "s"

theorem inOrder_saying : ∀ b ∈ sayingBlocks, b.InOrder := by
  intro b hb
  simp only [sayingBlocks, List.mem_cons, List.not_mem_nil, or_false] at hb
  rcases hb with rfl | rfl <;> exact ⟨⟨_, rfl⟩, ⟨_, rfl⟩, ⟨_, rfl⟩⟩

/-- Saying a number that is too long for its text fails. -/
theorem error_saying {n : Int} (hn : ¬ (Value.int n).Writable) :
    (saying.call {} .step (.start saying {} [(.str "n", .int n)])).1 = .error .tooManyDigits := by
  let say := saying.nodes[0]
  let w := (Machine.start saying {} [(.str "n", .int n)]).state.world
  have hvalue : saying.evaluate w.vars (say.input "text") = .ok (.int n) :=
    @evaluate_variable saying "v" "n" saying.nodes[1] rfl rfl rfl w.vars
  have htext : saying.textIn say w "text" = .error .tooManyDigits := by
    rw [textIn, hvalue]
    exact if_neg hn
  have heffect : saying.effectOn say .say w = .error .tooManyDigits := by
    rw [effectOn_eq, worldAfter, htext]
    rfl
  have hplan : saying.plan {} say w = .error .tooManyDigits := by
    show (saying.effectOn say .say w).map _ = _
    rw [heffect]
    rfl
  refine call_error_iff_step.2 ⟨0, Nat.one_pos, _, .none, step_error_iff.2 ?_⟩
  show ((saying.plan {} say w >>= _).map _ : Except Fault State) = _
  rw [hplan]
  rfl

/-- **Running either fails**, although their blocks are in order and the configuration is finite: the
one computes a number that no float is near to, and the other is given a number that has one digit
more than can be written out. -/
theorem call_farOut : Config.Finite {} ∧
    ((∀ b ∈ farOutBlocks, b.InOrder) ∧ build farOutBlocks farOutEdges = .ok farOut ∧
      (farOut.call {} (.run none) (.start farOut {} [])).1 = .error .outOfRange) ∧
    (∀ b ∈ sayingBlocks, b.InOrder) ∧ build sayingBlocks sayingEdges = .ok saying ∧
      (saying.call {} .step
        (.start saying {} [(.str "n", .int (10 ^ Decimal.maxIntDigits))])).1 =
          .error .tooManyDigits :=
  ⟨finite_usual, ⟨inOrder_farOut, build_farOut, error_farOut⟩, inOrder_saying, rfl,
    error_saying (Value.not_writable_pow (Nat.le_refl _))⟩

end Program

end BlockProgram
