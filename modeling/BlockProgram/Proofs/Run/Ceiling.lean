import BlockProgram.Proofs.Number.HalfUp
import BlockProgram.Proofs.Run.Pacing

/-!
# The step limit only cuts off

A wait that is longer than the step limit, or of no finite length, is cut off at one tick more than
the limit. So the same program waits for different ticks under two limits; but a wait that is cut
off cannot end before the smaller limit is met, wherever it begins:

* the ticks of a duration are the same under two limits unless both go beyond the smaller one
  (`Program.roundTicks_cases`), and nothing else that a node asks for depends on the limit
  (`Program.matching_plan`);
* so one step leads from states that are in step (`State.InStep`) to such states
  (`Program.matching_advance`), and so do many below the limit (`Program.matching_advanceFor`);
* `Program.run_limited` says what this means for the steps of a host and for whole runs.
-/

namespace BlockProgram

/-- Two outcomes that fail alike or come to results that go together. -/
inductive Matching {α β : Type} (R : α → β → Prop) : Except Fault α → Except Fault β → Prop
  | ok {a : α} {b : β} : R a b → Matching R (.ok a) (.ok b)
  | error (fault : Fault) : Matching R (.error fault) (.error fault)

namespace Matching

variable {α β α' β' : Type} {R S : α → β → Prop} {x : Except Fault α} {y : Except Fault β}

theorem refl {R : α → α → Prop} (hR : ∀ a, R a a) (x : Except Fault α) : Matching R x x := by
  rcases x with fault | a
  · exact .error fault
  · exact .ok (hR a)

/-- Results that match in one way match in every weaker one. -/
theorem imp (h : Matching R x y) (hRS : ∀ a b, R a b → S a b) : Matching S x y := by
  cases h with
  | ok hab => exact .ok (hRS _ _ hab)
  | error fault => exact .error fault

/-- Results that match are followed by results that match, if the results of all matching values
do. -/
theorem bind {T : α' → β' → Prop} {f : α → Except Fault α'} {g : β → Except Fault β'}
    (h : Matching R x y) (hfg : ∀ a b, R a b → Matching T (f a) (g b)) :
    Matching T (x >>= f) (y >>= g) := by
  cases h with
  | ok hab => exact hfg _ _ hab
  | error fault => exact .error fault

theorem map {T : α' → β' → Prop} {f : α → α'} {g : β → β'}
    (h : Matching R x y) (hfg : ∀ a b, R a b → T (f a) (g b)) :
    Matching T (x.map f) (y.map g) := by
  cases h with
  | ok hab => exact .ok (hfg _ _ hab)
  | error fault => exact .error fault

end Matching

/-! ## Waits under two limits -/

/-- Two waits under two step limits, the smaller of which is `limit`: the same wait, or two waits at
one node neither of which can end before that limit. -/
inductive SameWait (limit : Int) (steps : Nat) : Option Waiting → Option Waiting → Prop
  | same (wait : Option Waiting) : SameWait limit steps wait wait
  | long {node : String} {ticks ticks' : Nat} : limit < steps + ticks → limit < steps + ticks' →
    SameWait limit steps (some ⟨node, ticks⟩) (some ⟨node, ticks'⟩)

/-- Two states that are the same but for the ticks of a wait that cannot end before a limit. -/
structure State.InStep (limit : Int) (s s' : State) : Prop where
  rest : { s with waiting := none } = { s' with waiting := none }
  wait : SameWait limit s.steps s.waiting s'.waiting

/-- What nodes ask for under two step limits, the smaller of which is `limit`. -/
inductive SamePlan (limit : Int) : World × Plan → World × Plan → Prop
  | same (planned : World × Plan) : SamePlan limit planned planned
  | long {w : World} {ticks ticks' : Nat} : limit ≤ ticks → limit ≤ ticks' →
    SamePlan limit (w, .rest ticks) (w, .rest ticks')

namespace Program

open Exec

variable {p : Program} {config : Config} {limit : Int} {n : Node} {w : World} {s s' : State}

/-- The ticks of a duration are the same under two limits unless both go beyond the smaller one. -/
theorem roundTicks_cases {bound bound' : Int} (hle : bound ≤ bound') (hpos : 0 ≤ bound)
    (raw : Float) : roundTicks bound raw = roundTicks bound' raw ∨
      bound + 1 ≤ roundTicks bound raw ∧ bound + 1 ≤ roundTicks bound' raw := by
  simp only [roundTicks]
  rcases hfloor : Binary.floor? raw with _ | k
  · exact .inr ⟨Int.le_refl _, Int.add_le_add_right hle 1⟩
  dsimp only
  by_cases hlong : (Binary.compareInt? raw (bound + 1)).any Ordering.isGE = true
  · right
    rw [if_pos hlong]
    refine ⟨Int.le_refl _, ?_⟩
    split
    · omega
    split
    · rename_i ticks hticks
      have hrounded := Binary.le_floor?_add_half (by omega) hlong hfloor hticks
      omega
    · omega
  · have hlonger : ¬ (Binary.compareInt? raw (bound' + 1)).any Ordering.isGE = true := by
      obtain ⟨parts, hparts, -⟩ := Option.map_eq_some_iff.1 hfloor
      rw [Binary.compareInt?, hparts, Option.any_some, Binary.Parts.isGE_compareInt] at hlong ⊢
      omega
    rw [if_neg hlong, if_neg hlonger]
    rcases Binary.floor? (raw + 0.5) with _ | ticks
    · exact .inr ⟨Int.le_refl _, Int.add_le_add_right hle 1⟩
    · exact .inl rfl

/-- The configuration with another step limit. -/
abbrev limited (config : Config) (limit : Int) : Config := { config with maxSteps := limit }

/-- **How long a wait is hardly depends on the limit**: it is the same under both, or longer than
the smaller limit under both. -/
theorem matching_duration (hle : config.maxSteps ≤ limit) (hpos : 0 ≤ config.maxSteps) :
    Matching (fun ticks ticks' => ticks = ticks' ∨
        config.maxSteps + 1 ≤ ticks ∧ config.maxSteps + 1 ≤ ticks')
      (p.duration config n w) (p.duration (limited config limit) n w) := by
  refine .bind (.refl (fun _ => rfl) _) fun seconds _ hseconds => ?_
  subst hseconds
  refine .bind (.refl (fun _ => rfl) _) fun seconds _ hseconds => ?_
  subst hseconds
  refine .bind (.refl (fun _ => rfl) _) fun perSecond _ hper => ?_
  subst hper
  refine .bind (.refl (fun _ => rfl) _) fun factor _ hfactor => ?_
  subst hfactor
  exact .ok (roundTicks_cases hle hpos _)

/-- **What a node asks for depends on the limit only where it is a wait that goes beyond it.** -/
theorem matching_plan (hle : config.maxSteps ≤ limit) (hpos : 0 < config.maxSteps) :
    Matching (SamePlan config.maxSteps) (p.plan config n w)
      (p.plan (limited config limit) n w) := by
  refine .bind (.refl (fun _ => rfl) _) fun statement _ hstatement => ?_
  subst hstatement
  have hsame (x : Except Fault (World × Plan)) : Matching (SamePlan config.maxSteps) x x :=
    .refl .same x
  rcases statement with _ | statement
  · exact hsame _
  cases statement with
  | wait =>
    refine (matching_duration hle (Int.le_of_lt hpos)).map fun ticks ticks' hticks => ?_
    rcases hticks with rfl | ⟨hlong, hlong'⟩
    · exact .same _
    · rw [if_neg (by omega), if_neg (by omega)]
      exact .long (by omega) (by omega)
  | _ => exact hsame _

/-! ## One step -/

theorem inStep_refl (limit : Int) (s : State) : s.InStep limit s := ⟨rfl, .same _⟩

/-- States in step are the same, or wait for different ticks that both go beyond the limit. -/
theorem inStep_cases (h : s.InStep limit s') : s' = s ∨ ∃ node ticks ticks',
    s.waiting = some ⟨node, ticks⟩ ∧ s' = { s with waiting := some ⟨node, ticks'⟩ } ∧
      limit < s.steps + ticks ∧ limit < s.steps + ticks' := by
  obtain ⟨hrest, hwait⟩ := h
  have hback : s' = { s with waiting := s'.waiting } :=
    congrArg (fun s₀ : State => { s₀ with waiting := s'.waiting }) hrest.symm
  generalize hw : s.waiting = w at hwait
  generalize hw' : s'.waiting = w' at hwait hback
  cases hwait with
  | same =>
    rw [← hw] at hback
    exact .inl hback
  | long hlong hlong' => exact .inr ⟨_, _, _, rfl, hback, hlong, hlong'⟩

/-- Settling looks at the place of a run alone, which is the same for both. -/
theorem inStep_settled (h : s.InStep limit s') : s.settled.InStep limit s'.settled := by
  rcases inStep_cases h with rfl | ⟨node, ticks, ticks', hwait, rfl, -, -⟩
  · exact inStep_refl limit _
  · rwa [State.settled_of_waiting hwait, State.settled_of_waiting rfl]

/-- Plans that are the same but for a long wait are followed by states in step. -/
theorem matching_follow {planned planned' : World × Plan} (h : SamePlan limit planned planned')
    (hsteps : 0 < s.steps) :
    Matching (State.InStep limit) (p.follow n planned.2 (s.within planned.1))
      (p.follow n planned'.2 (s.within planned'.1)) := by
  cases h with
  | same => exact .refl (inStep_refl limit) _
  | @long w ticks ticks' hlong hlong' =>
    have hbeyond : limit < s.steps + ticks := by omega
    have hbeyond' : limit < s.steps + ticks' := by omega
    exact .ok ⟨rfl, .long hbeyond hbeyond'⟩

/-- A tick of a wait that is not its last one. -/
theorem advance_of_waiting {w : Waiting} (hlive : s.halted = false) (hwait : s.waiting = some w)
    (hsteps : s.steps < config.maxSteps) (hticks : 1 < w.ticks) :
    p.advance config s = .ok { s with
      steps := s.steps + 1, waiting := some { w with ticks := w.ticks - 1 } } := by
  rw [advance, if_neg (by simp [hlive]), if_neg (by simp [hwait]), if_neg (by omega), act, hwait]
  dsimp only
  rw [ticked, if_pos hticks]
  rfl

/-- **One step below the smaller limit leaves states in step.** -/
theorem matching_advance (hle : config.maxSteps ≤ limit) (hsteps : s.steps < config.maxSteps)
    (h : s.InStep config.maxSteps s') :
    Matching (State.InStep config.maxSteps) (p.advance config s)
      (p.advance (limited config limit) s') := by
  rcases inStep_cases h with rfl | ⟨node, ticks, ticks', hwait, rfl, hlong, hlong'⟩
  · simp only [advance]
    split
    · exact .ok (inStep_refl _ _)
    split
    · exact .ok (inStep_refl _ _)
    rw [if_neg (by omega), if_neg (by omega)]
    refine Matching.map ?_ fun _ _ => inStep_settled
    simp only [act]
    split
    · exact .refl (inStep_refl _) _
    · refine .bind (matching_plan hle (by omega)) fun planned planned' hplanned => ?_
      exact matching_follow hplanned (Nat.succ_pos _)
    · exact .ok (inStep_refl _ _)
  · by_cases hover : s.halted = true
    · rw [advance, advance, if_pos hover, if_pos hover]
      exact .ok h
    · have hlive : s.halted = false := Bool.eq_false_iff.2 hover
      have hsteps' : s.steps < (limited config limit).maxSteps := Int.lt_of_lt_of_le hsteps hle
      have hlasts : 1 < ticks := by omega
      have hlasts' : 1 < ticks' := by omega
      have hlive' : { s with waiting := some ⟨node, ticks'⟩ }.halted = false := hlive
      rw [advance_of_waiting hlive hwait hsteps hlasts,
        advance_of_waiting hlive' rfl hsteps' hlasts']
      have hbeyond : config.maxSteps < (s.steps + 1 : Nat) + (ticks - 1 : Nat) := by omega
      have hbeyond' : config.maxSteps < (s.steps + 1 : Nat) + (ticks' - 1 : Nat) := by omega
      exact .ok ⟨rfl, .long hbeyond hbeyond'⟩

/-! ## What a step leaves -/

/-- The outputs of an outcome, which are listed from the newest back, end in those of a world. -/
def Grows (w : World) (result : Except Fault World) : Prop :=
  ∀ w', result = .ok w' → w.spoken <:+ w'.spoken

theorem grows_ok {w' : World} (h : w.spoken <:+ w'.spoken) : Grows w (.ok w') := by
  rintro _ ⟨⟩
  exact h

theorem grows_error (w : World) (fault : Fault) : Grows w (.error fault) := by
  rintro _ ⟨⟩

/-- Whatever is read first, outputs are only added after it. -/
theorem grows_bind {α : Type} {x : Except Fault α} {f : α → Except Fault World}
    (h : ∀ a, Grows w (f a)) : Grows w (x >>= f) := by
  rcases x with fault | a
  · exact grows_error w fault
  · exact h a

theorem grows_map {α : Type} {x : Except Fault α} {f : α → World}
    (h : ∀ a, w.spoken <:+ (f a).spoken) : Grows w (x.map f) := by
  rcases x with fault | a
  · exact grows_error w fault
  · exact grows_ok (h a)

/-- A statement adds to the outputs or leaves them as they are. -/
theorem grows_worldAfter (statement : Statement) : Grows w (p.worldAfter n w statement) := by
  have hsame : w.spoken <:+ w.spoken := List.suffix_refl _
  cases statement with
  | say | think => exact grows_map fun _ => List.suffix_cons _ _
  | clear => exact grows_ok (List.suffix_cons _ _)
  | move | goTo | changeXBy | changeYBy | turnClockwise | turnAnticlockwise | pointIn
    | setVariable => exact grows_bind fun _ => grows_bind fun _ => grows_ok hsame
  | changeVariable =>
    exact grows_bind fun _ => grows_bind fun _ => grows_bind fun _ => grows_ok hsame
  | _ => exact grows_ok hsame

/-- **A plan takes nothing back of what was said.** -/
theorem grows_plan : Grows w ((p.plan config n w).map (·.1)) := by
  have hsame : w.spoken <:+ w.spoken := List.suffix_refl _
  have heffect (statement : Statement) : Grows w (((p.effectOn n statement w).map
      fun w => ((w, .goOn n.next []) : World × Plan)).map (·.1)) := by
    have hgrows := @grows_worldAfter p n w statement
    rw [← effectOn_eq] at hgrows
    generalize p.effectOn n statement w = result at hgrows ⊢
    rcases result with fault | w'
    · exact grows_error w fault
    · exact grows_ok (hgrows w' rfl)
  have hread {α : Type} (x : Except Fault α) (f : α → Plan) :
      Grows w ((x.map fun a => ((w, f a) : World × Plan)).map (·.1)) := by
    rcases x with fault | a
    · exact grows_error w fault
    · exact grows_ok hsame
  rw [plan]
  rcases Statement.ofType? n.type with fault | _ | statement
  · exact grows_error w fault
  · exact grows_ok hsame
  have heffect := heffect statement
  cases statement with
  | stop | repeatUntil => exact grows_ok hsame
  | wait => exact hread (p.duration config n w) _
  | ifElse => exact hread (p.evaluate w.vars (n.input "condition")) _
  | repeatTimes => exact hread (p.numberIn n w "times") _
  | _ => exact heffect

/-- **What a counted step does to a state.** It puts another world in the place of the old one, and
ends the run or goes on elsewhere. -/
theorem act_cases (h : p.act config s = .ok s') : ∃ w : World, s.spoken <:+ w.spoken ∧
    ((∃ reason, s' = (s.within w).ended reason) ∨
      ∃ current frames waiting, s' = { s.within w with current, frames, waiting }) := by
  have hsame : s.spoken <:+ s.world.spoken := List.suffix_refl _
  simp only [act] at h
  split at h
  · rename_i waiting _
    refine ⟨s.world, hsame, .inr ?_⟩
    rw [ticked] at h
    split at h
    · cases h
      exact ⟨_, _, _, rfl⟩
    · obtain ⟨current, frames, rfl⟩ := p.arrive_ok h
      exact ⟨_, _, _, rfl⟩
  · rename_i n _ _
    have hgrows := @grows_plan p config n s.world
    rw [executed] at h
    rcases hplan : p.plan config n s.world with fault | ⟨w, plan⟩ <;> rw [hplan] at h hgrows
    · cases h
    change p.follow n plan (s.within w) = .ok s' at h
    refine ⟨w, hgrows w rfl, ?_⟩
    cases plan with
    | stop =>
      cases h
      exact .inl ⟨_, rfl⟩
    | rest ticks =>
      cases h
      exact .inr ⟨_, _, _, rfl⟩
    | goOn next entered =>
      obtain ⟨current, frames, rfl⟩ := p.arrive_ok h
      exact .inr ⟨_, _, _, rfl⟩
  · cases h
    exact ⟨s.world, hsame, .inl ⟨_, rfl⟩⟩

/-- A run that is over does not wait. -/
def Rests (s : State) : Prop := s.halted = true → s.waiting = none

theorem rests_ended (s : State) (reason : HaltReason) : Rests (s.ended reason) := fun _ => rfl

/-- Only a run that is over has to rest. -/
theorem rests_of_live (h : s.halted = false) : Rests s := by
  intro hover
  rw [h] at hover
  cases hover

/-- What a step leaves: one step more at most, no output less, and no wait where it ends the run. -/
structure Advances (s s' : State) : Prop where
  steps : s'.steps ≤ s.steps + 1
  spoken : s.spoken <:+ s'.spoken
  rests : Rests s → Rests s'

theorem advances_ended (s : State) (reason : HaltReason) : Advances s (s.ended reason) :=
  ⟨Nat.le_succ _, List.suffix_refl _, fun _ => rests_ended s reason⟩

/-- Settling says nothing and counts no step. -/
theorem advances_settled (h : Advances s s') : Advances s s'.settled := by
  rw [State.settled]
  split
  · exact ⟨h.steps, h.spoken, fun _ => rests_ended s' _⟩
  · exact h

/-- **A step counts at most one step and takes no output back.** -/
theorem advances_of_advance (h : p.advance config s = .ok s') : Advances s s' := by
  simp only [advance] at h
  split at h
  · cases h
    exact ⟨Nat.le_succ _, List.suffix_refl _, id⟩
  rename_i hlive
  split at h
  · cases h
    exact advances_ended s _
  split at h
  · cases h
    exact advances_ended s _
  obtain ⟨s₁, hact, rfl⟩ := Fault.map_ok h
  obtain ⟨w, hspoken, ⟨reason, rfl⟩ | ⟨current, frames, waiting, rfl⟩⟩ := act_cases hact
  · exact advances_settled ⟨Nat.le_refl _, hspoken, fun _ => rests_ended _ _⟩
  · exact advances_settled ⟨Nat.le_refl _, hspoken, fun _ => rests_of_live (Bool.eq_false_iff.2 hlive)⟩

/-! ## Many steps -/

/-- A run that is over stays as it is. -/
theorem advance_of_halted (h : s.halted = true) : p.advance config s = .ok s := by
  rw [advance, if_pos h]

theorem advanceFor_of_halted (h : s.halted = true) (k : Nat) : p.advanceFor config k s = .ok s := by
  cases k with
  | zero => rfl
  | succ k => rw [advanceFor, if_pos h]

/-- Whether the steps stop when the run is over makes no difference. -/
theorem advanceFor_succ (k : Nat) (s : State) :
    p.advanceFor config (k + 1) s = p.advance config s >>= p.advanceFor config k := by
  by_cases hover : s.halted = true
  · rw [advanceFor_of_halted hover, advance_of_halted hover]
    exact (advanceFor_of_halted hover k).symm
  · rw [advanceFor, if_neg hover]

/-- Steps can be taken in two portions, which is how the larger limit is split. -/
theorem advanceFor_add (j k : Nat) (s : State) :
    p.advanceFor config (j + k) s = p.advanceFor config j s >>= p.advanceFor config k := by
  induction j generalizing s with
  | zero =>
    rw [Nat.zero_add]
    rfl
  | succ j ih =>
    rw [Nat.succ_add, advanceFor_succ, advanceFor_succ]
    rcases p.advance config s with fault | s₁
    · rfl
    · exact ih s₁

/-- The steps that a host takes are those of a run. -/
theorem does_stepTimes (k : Nat) (m : Machine) :
    Does (p.stepTimes config k) m (p.advanceFor config k m.state) := by
  induction k generalizing m with
  | zero => exact ⟨(), m, rfl, rfl⟩
  | succ k ih =>
    rw [advanceFor_succ]
    have hstep := p.does_step config m
    rcases hadvance : p.advance config m.state with fault | s <;> rw [hadvance] at hstep
    · obtain ⟨m', hm⟩ := hstep
      exact ⟨m', bind_error hm⟩
    · obtain ⟨r, m', hm, rfl⟩ := hstep
      exact (ih m').after hm

/-- **States stay in step** as long as the smaller limit is not met. -/
theorem matching_advanceFor (hle : config.maxSteps ≤ limit) {k : Nat}
    (hsteps : s.steps + k ≤ config.maxSteps.toNat) (h : s.InStep config.maxSteps s') :
    Matching (State.InStep config.maxSteps) (p.advanceFor config k s)
      (p.advanceFor (limited config limit) k s') := by
  induction k generalizing s s' with
  | zero => exact .ok h
  | succ k ih =>
    rw [advanceFor_succ, advanceFor_succ]
    have hfirst := matching_advance (p := p) hle (by omega) h
    generalize hadvance : p.advance config s = next at hfirst
    generalize p.advance (limited config limit) s' = next' at hfirst
    cases hfirst with
    | error fault => exact .error fault
    | ok hnext =>
      have hcounted := (advances_of_advance hadvance).steps
      exact ih (by omega) hnext

/-- What holds of a state and is kept by steps. -/
theorem advances_of_advanceFor {k : Nat} (h : p.advanceFor config k s = .ok s') :
    s.spoken <:+ s'.spoken ∧ (Rests s → Rests s') := by
  induction k generalizing s with
  | zero =>
    cases h
    exact ⟨List.suffix_refl _, id⟩
  | succ k ih =>
    rw [advanceFor_succ] at h
    rcases hfirst : p.advance config s with fault | s₁ <;> rw [hfirst] at h
    · cases h
    have hadvances := advances_of_advance hfirst
    obtain ⟨hspoken, hrests⟩ := ih h
    exact ⟨hadvances.spoken.trans hspoken, fun hs => hrests (hadvances.rests hs)⟩

/-! ## The two runs -/

/-- Two states that are the same but for the ticks of a wait. -/
structure SameButTicks (s s' : State) : Prop where
  rest : { s with waiting := none } = { s' with waiting := none }
  node : s.waiting.map (·.node) = s'.waiting.map (·.node)

/-- States in step are the same but for the ticks of a wait that goes on. -/
theorem sameButTicks_of_inStep (h : s.InStep limit s') : SameButTicks s s' := by
  refine ⟨h.rest, ?_⟩
  rcases inStep_cases h with rfl | ⟨node, ticks, ticks', hwait, rfl, -, -⟩
  · rfl
  · rw [hwait]
    rfl

/-- When a run is over it waits for nothing, so there is no difference left. -/
theorem eq_of_inStep_of_over (h : s.InStep limit s') (hrests : Rests s) (hover : s.halted = true) :
    s' = s := by
  rcases inStep_cases h with hsame | ⟨node, ticks, ticks', hwait, -, -, -⟩
  · exact hsame
  · rw [hrests hover] at hwait
    cases hwait

theorem rests_start (config : Config) (vars : Dict) : Rests (Machine.start p config vars).state :=
  fun _ => rfl

/-- The states of a program under two limits after some steps below the smaller one. -/
theorem matching_start (hle : config.maxSteps ≤ limit) (vars : Dict) {k : Nat}
    (hk : k ≤ config.maxSteps.toNat) : Matching (State.InStep config.maxSteps)
      (p.advanceFor config k (.start p config vars : Machine).state)
      (p.advanceFor (limited config limit) k (.start p (limited config limit) vars : Machine).state) :=
  matching_advanceFor hle (by rwa [show (Machine.start p config vars).state.steps = 0 from rfl,
    Nat.zero_add]) (inStep_refl _ _)

/-- A run is the steps of its budget, and is cut off after them. -/
theorem outcome_run (budget : Option Int) (m : Machine) : outcome (p.run config budget) m =
    (p.advanceFor config (budgetSteps config budget) m.state).map cutOff :=
  (does_run budget m).outcome_eq

theorem outputs_cutOff (s : State) : (cutOff s).outputs = s.outputs := by
  rw [cutOff]
  split <;> rfl

/-- A run that has come to a `stop` or to the end was over before it could be cut off. -/
theorem over_of_cutOff (h : (cutOff s).halt = some .stopBlock ∨ (cutOff s).halt = some .endOfProgram) :
    s.halted = true := by
  rw [cutOff] at h
  split at h
  · assumption
  · rcases h with h | h <;> cases h

/-- The run under the larger limit goes on where the one under the smaller limit is cut off. -/
theorem outcome_run_limited (hle : config.maxSteps ≤ limit) (m : Machine) :
    outcome (p.run (limited config limit) none) m =
      (p.advanceFor (limited config limit) config.maxSteps.toNat m.state >>=
        p.advanceFor (limited config limit) (limit.toNat - config.maxSteps.toNat)).map cutOff := by
  have hsplit : budgetSteps (limited config limit) none =
      config.maxSteps.toNat + (limit.toNat - config.maxSteps.toNat) := by
    show limit.toNat = _
    omega
  rw [outcome_run, hsplit, advanceFor_add]

/-- **The step limit only cuts off.** As long as no more steps have been taken than the smaller of
two limits allows, the states of a program under both are the same but for the ticks of a wait that
goes on. So the outputs of a run under the smaller limit are those that a run under the larger one
begins with, and a run that comes to a `stop` or to the end of the program ends in the same state
under the larger one. -/
theorem run_limited (p : Program) (config : Config) {limit : Int} (hle : config.maxSteps ≤ limit)
    (vars : Dict) :
    (∀ j : Nat, j ≤ config.maxSteps → Matching SameButTicks
      (outcome (p.stepTimes config j) (.start p config vars))
      (outcome (p.stepTimes (limited config limit) j) (.start p (limited config limit) vars))) ∧
    (∀ s, outcome (p.run config none) (.start p config vars) = .ok s →
      (∀ s', outcome (p.run (limited config limit) none)
        (.start p (limited config limit) vars) = .ok s' → s.outputs <+: s'.outputs) ∧
      (s.halt = some .stopBlock ∨ s.halt = some .endOfProgram →
        outcome (p.run (limited config limit) none) (.start p (limited config limit) vars) =
          .ok s)) := by
  refine ⟨fun j hj => ?_, fun s hrun => ?_⟩
  · rw [(does_stepTimes j _).outcome_eq, (does_stepTimes j _).outcome_eq]
    exact (matching_start hle vars (by omega)).imp fun _ _ => sameButTicks_of_inStep
  · rw [outcome_run] at hrun
    obtain ⟨s₁, hfor, rfl⟩ := Fault.map_ok hrun
    change p.advanceFor config config.maxSteps.toNat _ = _ at hfor
    obtain ⟨-, hrests⟩ := advances_of_advanceFor hfor
    have hmatching := matching_start (p := p) hle vars (Nat.le_refl _)
    rw [outcome_run_limited hle]
    rw [hfor] at hmatching
    generalize p.advanceFor (limited config limit) config.maxSteps.toNat
      (Machine.start p (limited config limit) vars).state = next at hmatching ⊢
    cases hmatching with
    | @ok _ s₁' hstep =>
      change (∀ s', (p.advanceFor _ _ s₁').map cutOff = .ok s' → _) ∧
        (_ → (p.advanceFor _ _ s₁').map cutOff = _)
      refine ⟨fun s' hrun' => ?_, fun hreason => ?_⟩
      · obtain ⟨s₂, hrest, rfl⟩ := Fault.map_ok hrun'
        obtain ⟨hspoken, -⟩ := advances_of_advanceFor hrest
        have hsame : s₁.spoken = s₁'.spoken := congrArg (·.spoken) hstep.rest
        rw [outputs_cutOff, outputs_cutOff, Snapshot.outputs, Snapshot.outputs, List.reverse_prefix,
          hsame]
        exact hspoken
      · have hover := over_of_cutOff hreason
        rw [eq_of_inStep_of_over hstep (hrests (rests_start config vars)) hover,
          advanceFor_of_halted hover]
        rfl

/-- A wait of ten seconds. -/
def longWait : Program where
  nodes := [{ id := "w", type := .str "wait", inputs := [(.str "seconds", .int 10)] }]
  roots := ["w"]
  entry := some "w"

/-- A limit of two steps. -/
def twoSteps : Config := { maxSteps := 2 }

/-- A limit that is large enough to count twice. -/
def eightSteps : Config := { maxSteps := 8 }

/-- After two steps a long wait has one tick less to go under the smaller limit. A run that comes to a
`stop` within eight steps comes to the same end within twenty. -/
theorem run_limited_longWait :
    Matching SameButTicks (outcome (longWait.stepTimes twoSteps 2) (.start longWait twoSteps []))
      (outcome (longWait.stepTimes (limited twoSteps 3) 2)
        (.start longWait (limited twoSteps 3) [])) ∧
    (longWait.stepTimes twoSteps 2 (.start longWait twoSteps [])).2.state.waiting =
      some ⟨"w", 1⟩ ∧
    (longWait.stepTimes (limited twoSteps 3) 2
      (.start longWait (limited twoSteps 3) [])).2.state.waiting = some ⟨"w", 2⟩ ∧
    ∃ s, s.halt = some .stopBlock ∧
      outcome (countingTwice.run eightSteps none)
        (.start countingTwice eightSteps []) = .ok s ∧
      outcome (countingTwice.run (limited eightSteps 20) none)
        (.start countingTwice (limited eightSteps 20) []) = .ok s := by
  refine ⟨(run_limited longWait twoSteps (show (2 : Int) ≤ 3 by decide) []).1 2 (by decide),
    by decide +kernel, by decide +kernel, ?_⟩
  have hok : (countingTwice.run eightSteps none
      (.start countingTwice eightSteps [])).1.isOk = true := by decide +kernel
  have hhalt : (countingTwice.run eightSteps none
      (.start countingTwice eightSteps [])).2.state.halt = some .stopBlock := by
    decide +kernel
  rcases hrun : countingTwice.run eightSteps none
    (.start countingTwice eightSteps []) with ⟨fault | ⟨⟩, m⟩ <;> rw [hrun] at hok hhalt
  · cases hok
  · have houtcome : outcome (countingTwice.run eightSteps none)
        (.start countingTwice eightSteps []) = .ok m.state := by
      rw [outcome, hrun]
      rfl
    obtain ⟨-, hsame⟩ := (run_limited countingTwice eightSteps
      (show (8 : Int) ≤ 20 by decide) []).2 m.state houtcome
    exact ⟨m.state, hhalt, houtcome, hsame (.inl hhalt)⟩

end Program

end BlockProgram
