import BlockProgram.Proofs.Machine.Reading
import BlockProgram.Proofs.Machine.Unwinding
import BlockProgram.Proofs.Program.Build
import BlockProgram.Proofs.Value.Coerce
import BlockProgram.Run.Execution
import Mathlib.Logic.Relation

/-!
# Runs follow the structured reading

The place of a run, its current node and its control frames, stands for a list of parts that are
still to be read (`Program.toDo`), innermost first. Where a step leads from one state to the
next, a reading from the second state gives a reading from the first (`Program.meets_of_advance`);
so a run that has come to its end has followed the reading of the whole program
(`Program.meets_of_steps`).

Two facts about every place of a run are needed (`Program.Placed`): all links in it lead to nodes,
and a run that goes on without a node to go on at is inside of nothing.
-/

namespace BlockProgram

open Relation

/-- What is still to be read of a construct that a run is inside of, the nodes after it
included. -/
def Frame.parts : Frame → List Part
  | .branch resume => [.chain resume]
  | .times remaining body resume => [.rounds body remaining, .chain resume]
  | .until condition body resume => [.loop condition body, .chain resume]

namespace Program

variable {p : Program} {config : Config} {w w' w'' : World} {e : Ending} {parts : List Part}

/-! ## Readings in a row -/

variable (p config) in
/-- The reading of parts in a row, up to a stop in one of them. -/
inductive ReadsAll : List Part → World → Ending → World → Prop
  | nil {w : World} : ReadsAll [] w .ranOut w
  | cons {part : Part} {parts : List Part} {w w' w'' : World} {e : Ending} :
    p.Reads config part w .ranOut w' → ReadsAll parts w' e w'' →
    ReadsAll (part :: parts) w e w''
  | stopped {part : Part} {parts : List Part} {w w' : World} :
    p.Reads config part w .stopped w' → ReadsAll (part :: parts) w .stopped w'

/-- Reading all of one part is reading it. -/
theorem ReadsAll.single {part : Part} (h : p.ReadsAll config [part] w e w') :
    p.Reads config part w e w' := by
  cases h with
  | cons hpart hrest =>
    cases hrest
    exact hpart
  | stopped hpart => exact hpart

/-- What a reading of a part followed by others may be replaced by. -/
theorem ReadsAll.replace {part part' : Part}
    (hpart : ∀ e w'', p.Reads config part w' e w'' → p.Reads config part' w e w'')
    (h : p.ReadsAll config (part :: parts) w' e w'') :
    p.ReadsAll config (part' :: parts) w e w'' := by
  cases h with
  | cons hfirst hrest => exact .cons (hpart _ _ hfirst) hrest
  | stopped hfirst => exact .stopped (hpart _ _ hfirst)

/-- A part that reads like two others in a row. -/
theorem ReadsAll.join {first second part : Part}
    (hnext : ∀ w' e w'', p.Reads config first w .ranOut w' → p.Reads config second w' e w'' →
      p.Reads config part w e w'')
    (hstop : ∀ w', p.Reads config first w .stopped w' → p.Reads config part w .stopped w')
    (h : p.ReadsAll config (first :: second :: parts) w e w'') :
    p.ReadsAll config (part :: parts) w e w'' := by
  cases h with
  | cons hfirst h =>
    cases h with
    | cons hsecond hrest => exact .cons (hnext _ _ _ hfirst hsecond) hrest
    | stopped hsecond => exact .stopped (hnext _ _ _ hfirst hsecond)
  | stopped hfirst => exact .stopped (hstop _ hfirst)

/-- An effect is read in front of the chain behind it. -/
theorem ReadsAll.afterEffect {id : String} {n : Node} (hn : p.node? id = some n)
    (hd : p.doing config n w = .ok (.effect w'))
    (h : p.ReadsAll config (.chain n.next :: parts) w' e w'') :
    p.ReadsAll config (.chain (some id) :: parts) w e w'' :=
  h.replace fun _ _ hrest => .effect hn hd hrest

/-- A construct is read in front of the chain behind it. If it stops, the chain is not read. -/
theorem ReadsAll.afterConstruct {id : String} {n : Node} {part : Part} (hn : p.node? id = some n)
    (hd : p.doing config n w = .ok (.construct part))
    (h : p.ReadsAll config (part :: .chain n.next :: parts) w e w'') :
    p.ReadsAll config (.chain (some id) :: parts) w e w'' :=
  h.join (fun _ _ _ hinside hrest => .construct hn hd hinside hrest)
    fun _ hinside => .constructStopped hn hd hinside

/-- A chain without a first node is skipped. -/
theorem ReadsAll.skip (h : p.ReadsAll config (.chain none :: parts) w e w') :
    p.ReadsAll config parts w e w' := by
  cases h with
  | cons hfirst hrest =>
    cases hfirst
    exact hrest
  | stopped hfirst => cases hfirst

/-! ## Unwinding -/

/-- What is still to be read inside of the constructs around a place. -/
def partsOf (frames : List Frame) : List Part := frames.flatMap Frame.parts

/-- A construct that is over reads like the nodes after it. -/
theorem ReadsAll.leave {f : Frame} (hover : f.Over (p.isTrue w.vars))
    (h : p.ReadsAll config (.chain f.resume :: parts) w e w') :
    p.ReadsAll config (f.parts ++ parts) w e w' := by
  cases f with
  | branch resume => exact h
  | times remaining body resume =>
    refine .cons ?_ h
    rcases body with _ | body
    · exact .roundsEmpty
    · obtain rfl := hover.resolve_right (Option.some_ne_none body)
      exact .roundsDone
  | «until» condition body resume =>
    refine .cons ?_ h
    rcases body with _ | body
    · exact .loopEmpty
    · exact .loopDone (hover.resolve_left (Option.some_ne_none body))

/-- A loop that goes on reads like its body and the rounds after it. -/
theorem ReadsAll.round {f : Frame} (hgoes : f.goesOn (p.isTrue w.vars) = .ok true)
    (h : p.ReadsAll config (.chain f.body :: (f.nextRound.parts ++ parts)) w e w') :
    p.ReadsAll config (f.parts ++ parts) w e w' := by
  rcases Frame.loop_of_goesOn hgoes with
    ⟨remaining, body, resume, rfl⟩ | ⟨condition, body, resume, rfl, htest⟩
  · exact h.join (fun _ _ _ => .roundsNext) fun _ => .roundsStopped
  · exact h.join (fun _ _ _ => .loopNext htest) fun _ => .loopStopped htest

/-- **Unwinding finds the next thing to read.** -/
theorem readsAll_of_unwind {frames frames' : List Frame} {current : Option String}
    (hu : unwind (p.isTrue w.vars) frames = (.ok current, frames'))
    (h : p.ReadsAll config (.chain current :: partsOf frames') w e w') :
    p.ReadsAll config (partsOf frames) w e w' := by
  obtain ⟨removed, kept, hw⟩ := unwinds_of_unwind hu
  clear hu
  generalize hresult : (Except.ok current, frames') = result at hw
  induction hw with
  | ended =>
    cases hresult
    exact h.skip
  | out hover hresume =>
    cases hresult
    exact .leave hover (by rwa [hresume])
  | further hover hresume _ ih =>
    refine .leave hover ?_
    rw [hresume]
    exact .cons .nothing (ih hresult)
  | round hgoes =>
    cases hresult
    exact .round hgoes h
  | stuck => cases hresult

/-- Where unwinding finds nothing, it has taken off all frames. -/
theorem frames_of_unwind_none {isTrue : Value → Except Fault Bool} {frames frames' : List Frame}
    (hu : unwind isTrue frames = (.ok none, frames')) : frames' = [] := by
  obtain ⟨removed, kept, hw⟩ := unwinds_of_unwind hu
  exact (hw.answer.2.2.2.1 rfl).1

/-! ## What a node asks for and what it contributes -/

/-- What a node does to the world and asks of the run fits what it contributes to the reading. -/
inductive Fits (n : Node) (w : World) : Doing → World → Plan → Prop
  | stop : Fits n w .stop w .stop
  | rest {ticks : Nat} : Fits n w (.effect w) w (.rest ticks)
  | effect {w' : World} : Fits n w (.effect w') w' (.goOn n.next [])
  | branch {key : String} :
    Fits n w (.construct (.chain (n.branch? key))) w (.goOn (n.branch? key) [.branch n.next])
  | rounds {count : Nat} : Fits n w (.construct (.rounds (loopBody n) count)) w
    (.goOn none [.times count (loopBody n) n.next])
  | loop {condition : Value} : Fits n w (.construct (.loop condition (loopBody n))) w
    (.goOn none [.until condition (loopBody n) n.next])

/-- The number of rounds that a loop is entered with is the rounded-down slot. -/
theorem roundCount_of_numberIn {n : Node} {times : Number}
    (h : p.numberIn n w "times" = .ok times) :
    p.roundCount n w = .ok (times.floor?.getD 0).toNat := by
  obtain ⟨v, -, rfl⟩ := Fault.map_ok h
  obtain ⟨whole, hwhole⟩ := Number.exists_floor? v.inRange_toNumber
  have hmax : (max 0 whole).toNat = whole.toNat := by omega
  rw [roundCount, h, hwhole, Option.getD_some, ← hmax]
  show (Fault.inRange v.toNumber.floor? >>= _) = _
  rw [hwhole]
  rfl

/-- Every plan fits what the node contributes to a reading, statement by statement. -/
theorem fits_of_planOf {n : Node} {s : Option Statement} {plan : Plan}
    (h : p.planOf config n w s = .ok (w', plan)) :
    ∃ d, p.doingOf config n w s = .ok d ∧ Fits n w d w' plan := by
  rcases s with _ | s
  · cases h
    exact ⟨.effect w, rfl, .effect⟩
  have heffect (h : (p.effectOn n s w).map (fun w => (w, Plan.goOn n.next [])) = .ok (w', plan)) :
      ∃ d, (p.effectOn n s w).map Doing.effect = .ok d ∧ Fits n w d w' plan := by
    obtain ⟨after, hafter, hplan⟩ := Fault.map_ok h
    cases hplan
    exact ⟨.effect w', by rw [hafter]; rfl, .effect⟩
  cases s with
  | stop =>
    cases h
    exact ⟨.stop, rfl, .stop⟩
  | wait =>
    obtain ⟨ticks, hticks, hplan⟩ := Fault.map_ok h
    refine ⟨.effect w, by rw [doingOf, hticks]; rfl, ?_⟩
    split at hplan
    · cases hplan
      exact .effect
    · cases hplan
      exact .rest
  | ifElse =>
    obtain ⟨condition, hcondition, hplan⟩ := Fault.map_ok h
    cases hplan
    exact ⟨_, by rw [doingOf, hcondition]; rfl, .branch⟩
  | repeatTimes =>
    obtain ⟨times, htimes, hplan⟩ := Fault.map_ok h
    cases hplan
    exact ⟨_, by rw [doingOf, roundCount_of_numberIn htimes]; rfl, .rounds⟩
  | repeatUntil =>
    cases h
    exact ⟨_, rfl, .loop⟩
  | _ => exact heffect h

theorem fits_of_plan {n : Node} {plan : Plan} (h : p.plan config n w = .ok (w', plan)) :
    ∃ d, p.doing config n w = .ok d ∧ Fits n w d w' plan := by
  simp only [Program.plan] at h
  simp only [doing]
  rcases ht : Statement.ofType? n.type with fault | s <;> rw [ht] at h
  · cases h
  · exact fits_of_planOf h

/-! ## Places -/

/-- What is still to be read from a place on. -/
def toDo (p : Program) (s : State) : List Part :=
  let next := match s.waiting with
    | some waiting => (p.node? waiting.node).bind (·.next)
    | none => s.current
  .chain next :: partsOf s.frames

/-- The links of a control frame. -/
def FrameLeads (p : Program) : Frame → Prop
  | .branch resume => p.Leads resume
  | .times _ body resume => p.Leads body ∧ p.Leads resume
  | .until _ body resume => p.Leads body ∧ p.Leads resume

/-- A place where all links lead to nodes, and where a run that is neither over nor waiting nor
at a node is inside of nothing. -/
structure Placed (p : Program) (s : State) : Prop where
  current : p.Leads s.current
  frames : ∀ f ∈ s.frames, p.FrameLeads f
  resting : s.halted = false → s.waiting = none → s.current = none → s.frames = []

/-- The links to go on at after a construct and in its next round lead to nodes. -/
theorem FrameLeads.links {f : Frame} (h : p.FrameLeads f) :
    p.Leads f.resume ∧ p.Leads f.body ∧ p.FrameLeads f.nextRound := by
  cases f with
  | branch resume => exact ⟨h, leads_none, h⟩
  | times remaining body resume => exact ⟨h.2, h.1, h⟩
  | «until» condition body resume => exact ⟨h.2, h.1, h⟩

/-- Unwinding leads where the frames lead. -/
theorem leads_of_unwind {isTrue : Value → Except Fault Bool} {frames frames' : List Frame}
    {current : Option String} (hu : unwind isTrue frames = (.ok current, frames'))
    (h : ∀ f ∈ frames, p.FrameLeads f) : p.Leads current ∧ ∀ f ∈ frames', p.FrameLeads f := by
  obtain ⟨removed, kept, hw⟩ := unwinds_of_unwind hu
  clear hu
  generalize hresult : (Except.ok current, frames') = result at hw
  induction hw with
  | ended =>
    cases hresult
    exact ⟨leads_none, h⟩
  | out _ hresume =>
    cases hresult
    obtain ⟨hf, hrest⟩ := List.forall_mem_cons.1 h
    exact ⟨hresume ▸ hf.links.1, hrest⟩
  | further _ _ _ ih => exact ih (List.forall_mem_cons.1 h).2 hresult
  | round =>
    cases hresult
    obtain ⟨hf, hrest⟩ := List.forall_mem_cons.1 h
    exact ⟨hf.links.2.1, List.forall_mem_cons.2 ⟨hf.links.2.2, hrest⟩⟩
  | stuck => cases hresult

/-- Going on leads to a place again. -/
theorem leads_of_arrive {next : Option String} {s s' : State} (hnext : p.Leads next)
    (hframes : ∀ f ∈ s.frames, p.FrameLeads f) (h : p.arrive next s = .ok s') :
    p.Leads s'.current ∧ ∀ f ∈ s'.frames, p.FrameLeads f := by
  rcases next with _ | id
  · simp only [arrive] at h
    split at h
    · rename_i current frames hu
      cases h
      exact leads_of_unwind hu hframes
    · cases h
  · cases h
    exact ⟨hnext, hframes⟩

/-- Where a step has been settled, a run without a node to go on at is over. -/
theorem placed_settled {s : State} (hcurrent : p.Leads s.current)
    (hframes : ∀ f ∈ s.frames, p.FrameLeads f) : p.Placed s.settled := by
  simp only [State.settled]
  split
  · refine ⟨leads_none, hframes, ?_⟩
    -- a settled state is over
    intro hlive
    cases hlive
  · rename_i hgoing
    refine ⟨hcurrent, hframes, fun hlive hwaiting hnone => absurd ?_ hgoing⟩
    simp [hlive, hwaiting, hnone]

/-- A run begins in its place: at the entry, with no frames. -/
theorem placed_start (hp : p.Closed) (config : Config) (vars : Dict) :
    p.Placed (Machine.start p config vars).state :=
  ⟨hp.entry, fun _ hf => absurd hf List.not_mem_nil, fun _ _ _ => rfl⟩

/-- The body of a loop is a node. -/
theorem leads_loopBody (hp : p.Closed) {id : String} {n : Node} (hn : p.node? id = some n) :
    p.Leads (loopBody n) := by
  intro head hhead
  rcases Option.or_eq_some_iff.1 hhead with hbody | ⟨-, htrue⟩
  · exact hp.branch id n hn _ head hbody
  · exact hp.branch id n hn _ head htrue

/-- The links to go on at and the constructs entered lead to nodes. -/
theorem leads_of_fits (hp : p.Closed) {id : String} {n : Node} (hn : p.node? id = some n)
    {d : Doing} {next : Option String} {entered : List Frame}
    (hfits : Fits n w d w' (.goOn next entered)) :
    p.Leads next ∧ ∀ f ∈ entered, p.FrameLeads f := by
  have hnext := hp.next id n hn
  have hbody := leads_loopBody hp hn
  cases hfits with
  | effect => exact ⟨hnext, fun _ hf => absurd hf List.not_mem_nil⟩
  | branch => exact ⟨hp.branch id n hn _, by simpa [FrameLeads] using hnext⟩
  | rounds => exact ⟨leads_none, by simpa [FrameLeads] using ⟨hbody, hnext⟩⟩
  | loop => exact ⟨leads_none, by simpa [FrameLeads] using ⟨hbody, hnext⟩⟩

/-- Executing a node leaves the run in a place, as all links of a closed program lead to nodes. -/
theorem placed_of_executed (hp : p.Closed) {id : String} {n : Node} (hn : p.node? id = some n)
    {s s' : State} (hs : p.Placed s) (h : p.executed config n s = .ok s') :
    p.Placed s'.settled := by
  simp only [executed] at h
  rcases hplan : p.plan config n s.world with fault | ⟨w, plan⟩ <;> rw [hplan] at h
  · cases h
  obtain ⟨d, -, hfits⟩ := fits_of_plan hplan
  rcases plan with _ | ticks | ⟨next, entered⟩
  · cases h
    exact placed_settled leads_none hs.frames
  · cases h
    exact placed_settled hs.current hs.frames
  · obtain ⟨hnext, hentered⟩ := leads_of_fits hp hn hfits
    have hframes : ∀ f ∈ entered ++ s.frames, p.FrameLeads f := by
      intro f hf
      rcases List.mem_append.1 hf with hf | hf
      · exact hentered f hf
      · exact hs.frames f hf
    obtain ⟨hcurrent, hframes⟩ := leads_of_arrive hnext hframes h
    exact placed_settled hcurrent hframes

/-- So does a tick of a wait. -/
theorem placed_of_ticked (hp : p.Closed) {waiting : Waiting} {s s' : State} (hs : p.Placed s)
    (h : p.ticked waiting s = .ok s') : p.Placed s'.settled := by
  simp only [ticked] at h
  split at h
  · cases h
    exact placed_settled hs.current hs.frames
  · have hnext : p.Leads ((p.node? waiting.node).bind (·.next)) := by
      intro id hid
      obtain ⟨n, hn, hlink⟩ := Option.bind_eq_some_iff.1 hid
      exact hp.next _ n hn id hlink
    obtain ⟨hcurrent, hframes⟩ :=
      leads_of_arrive hnext (s := { s with waiting := none }) hs.frames h
    exact placed_settled hcurrent hframes

/-- The state of a step that is counted. -/
def counted (s : State) : State := { s with steps := s.steps + 1 }

/-- **The five ways of a step.** -/
theorem advance_cases {s s' : State} (hs : p.Placed s) (h : p.advance config s = .ok s') :
    (s.halted = true ∧ s' = s) ∨
    (s.halted = false ∧ s.waiting = none ∧ s.current = none ∧ s' = s.ended .endOfProgram) ∨
    (s.halted = false ∧ s' = s.ended .stepLimit) ∨
    (s.halted = false ∧ ∃ waiting s₁, s.waiting = some waiting ∧
      p.ticked waiting (counted s) = .ok s₁ ∧ s' = s₁.settled) ∨
    (s.halted = false ∧ s.waiting = none ∧ ∃ id n s₁, s.current = some id ∧
      p.node? id = some n ∧ p.executed config n (counted s) = .ok s₁ ∧ s' = s₁.settled) := by
  simp only [advance] at h
  by_cases hh : s.halted
  · rw [if_pos hh] at h
    cases h
    exact .inl ⟨hh, rfl⟩
  rw [if_neg hh] at h
  have hlive : s.halted = false := by simpa using hh
  split at h
  · rename_i hidle
    cases h
    rw [Bool.and_eq_true, Option.isNone_iff_eq_none, Option.isNone_iff_eq_none] at hidle
    exact .inr (.inl ⟨hlive, hidle.1, hidle.2, rfl⟩)
  rename_i hbusy
  split at h
  · cases h
    exact .inr (.inr (.inl ⟨hlive, rfl⟩))
  obtain ⟨s₁, hact, rfl⟩ := Fault.map_ok h
  change p.act config (counted s) = .ok s₁ at hact
  refine .inr (.inr (.inr ?_))
  -- a node that is linked to is there, so a step that is counted always has something to do
  rcases hw : s.waiting with _ | waiting
  · have hwaiting : (counted s).waiting = none := hw
    refine .inr ⟨hlive, rfl, ?_⟩
    rcases hc : s.current with _ | id
    · simp [hw, hc] at hbusy
    · obtain ⟨n, hn⟩ := hs.current id hc
      have hnode : p.currentNode? (counted s) = some n := by
        rw [currentNode?, show (counted s).current = some id from hc]
        exact hn
      simp only [act, hwaiting, hnode] at hact
      exact ⟨id, n, s₁, rfl, hn, hact, rfl⟩
  · have hwaiting : (counted s).waiting = some waiting := hw
    simp only [act, hwaiting] at hact
    exact .inl ⟨hlive, waiting, s₁, rfl, hact, rfl⟩

theorem placed_counted {s : State} (hs : p.Placed s) : p.Placed (counted s) :=
  ⟨hs.current, hs.frames, hs.resting⟩

/-- **Every step leads to a place again.** -/
theorem placed_of_advance (hp : p.Closed) {s s' : State} (hs : p.Placed s)
    (h : p.advance config s = .ok s') : p.Placed s' := by
  rcases advance_cases hs h with ⟨-, rfl⟩ | ⟨-, -, -, rfl⟩ | ⟨-, rfl⟩ |
    ⟨-, waiting, s₁, -, hact, rfl⟩ | ⟨-, -, id, n, s₁, -, hn, hact, rfl⟩
  · exact hs
  · exact ⟨leads_none, hs.frames, fun hlive => nomatch hlive⟩
  · exact ⟨leads_none, hs.frames, fun hlive => nomatch hlive⟩
  · exact placed_of_ticked hp (placed_counted hs) hact
  · exact placed_of_executed hp hn (placed_counted hs) hact

/-! ## Following the reading -/

/-- A world and an ending that a state leads to: it has come there, or what is still to be read
from its place leads there. -/
def Meets (p : Program) (config : Config) (s : State) (e : Ending) (w : World) : Prop :=
  match s.halt with
  | some reason => reason = e.reason ∧ s.world = w
  | none => p.ReadsAll config (p.toDo s) s.world e w

/-- A run that is over has the reading of nothing, with its reason as ending. -/
theorem meets_ended {s : State} {reason : HaltReason} :
    p.Meets config (s.ended reason) e w ↔ reason = e.reason ∧ s.world = w := Iff.rfl

/-- A run that goes on has a reading of what is left to do. -/
theorem meets_live {s : State} (h : s.halted = false) :
    p.Meets config s e w ↔ p.ReadsAll config (p.toDo s) s.world e w := by
  have hnone : s.halt = none := by simpa [Snapshot.halted] using h
  simp only [Meets, hnone]

/-- A run at a node still has to read from that node on. -/
theorem readsAll_of_meets_current {s : State} {id : String} (hlive : s.halted = false)
    (hwaiting : s.waiting = none) (hcurrent : s.current = some id)
    (hmeets : p.Meets config s.settled e w) :
    p.ReadsAll config (.chain (some id) :: partsOf s.frames) s.world e w := by
  rw [State.settled_of_current hcurrent, meets_live hlive, toDo, hwaiting, hcurrent] at hmeets
  exact hmeets

/-- A run that waits still has to read from behind the waiting node on. -/
theorem readsAll_of_meets_waiting {s : State} {waiting : Waiting} (hlive : s.halted = false)
    (hwaiting : s.waiting = some waiting) (hmeets : p.Meets config s.settled e w) :
    p.ReadsAll config (.chain ((p.node? waiting.node).bind (·.next)) :: partsOf s.frames)
      s.world e w := by
  rw [State.settled_of_waiting hwaiting, meets_live hlive, toDo, hwaiting] at hmeets
  exact hmeets

/-- Going on is reading on. -/
theorem readsAll_of_arrive {next : Option String} {s s' : State} (hlive : s.halted = false)
    (hwaiting : s.waiting = none) (h : p.arrive next s = .ok s')
    (hmeets : p.Meets config s'.settled e w) :
    p.ReadsAll config (.chain next :: partsOf s.frames) s.world e w := by
  rcases next with _ | id
  · simp only [arrive] at h
    split at h
    · rename_i current frames hu
      cases h
      refine .cons .nothing (readsAll_of_unwind hu ?_)
      rcases current with _ | id
      · -- nothing was found, so the frames are used up and the program has ended
        rw [frames_of_unwind_none hu]
        have hsettled : State.settled { s with current := none, frames } =
            State.ended { s with current := none, frames } .endOfProgram := by
          refine if_pos ?_
          simp [hwaiting, show Snapshot.halted s.toSnapshot = false from hlive]
        rw [hsettled, meets_ended] at hmeets
        obtain ⟨hreason, rfl⟩ := hmeets
        cases e with
        | ranOut => exact .cons .nothing .nil
        | stopped => cases hreason
      · exact readsAll_of_meets_current (s := { s with current := some id, frames }) hlive hwaiting
          rfl hmeets
    · cases h
  · cases h
    exact readsAll_of_meets_current (s := { s with current := some id }) hlive hwaiting rfl hmeets

/-- A tick of a wait is not read, since waiting changes nothing in the world. -/
theorem readsAll_of_ticked {waiting : Waiting} {s s' : State} (hlive : s.halted = false)
    (hwaiting : s.waiting = some waiting) (h : p.ticked waiting s = .ok s')
    (hmeets : p.Meets config s'.settled e w) : p.ReadsAll config (p.toDo s) s.world e w := by
  simp only [ticked] at h
  rw [toDo, hwaiting]
  split at h
  · cases h
    exact readsAll_of_meets_waiting (s := { s with waiting := some _ }) hlive rfl hmeets
  · exact readsAll_of_arrive (s := { s with waiting := none }) hlive rfl h hmeets

/-- Executing a node is reading it. -/
theorem readsAll_of_executed {id : String} {n : Node} {s s' : State} (hn : p.node? id = some n)
    (hlive : s.halted = false) (hwaiting : s.waiting = none) (h : p.executed config n s = .ok s')
    (hmeets : p.Meets config s'.settled e w) :
    p.ReadsAll config (.chain (some id) :: partsOf s.frames) s.world e w := by
  simp only [executed] at h
  rcases hplan : p.plan config n s.world with fault | ⟨w', plan⟩ <;> rw [hplan] at h
  · cases h
  change p.follow n plan (s.within w') = .ok s' at h
  obtain ⟨d, hd, hfits⟩ := fits_of_plan hplan
  -- going on after entering constructs
  have harrive {next : Option String} {entered : List Frame}
      (h : p.follow n (.goOn next entered) (s.within w') = .ok s') :
      p.ReadsAll config (.chain next :: (partsOf entered ++ partsOf s.frames)) w' e w := by
    have hreads := readsAll_of_arrive (s := { s.within w' with frames := entered ++ s.frames })
      hlive hwaiting h hmeets
    rwa [partsOf, List.flatMap_append] at hreads
  -- each fit is one rule of the reading
  cases hfits with
  | stop =>
    cases h
    rw [State.settled_ended, meets_ended] at hmeets
    obtain ⟨hreason, rfl⟩ := hmeets
    cases e with
    | ranOut => cases hreason
    | stopped => exact .stopped (.stop hn hd)
  | rest =>
    cases h
    have hreads := readsAll_of_meets_waiting (s := { s with waiting := some ⟨n.id, _⟩ }) hlive rfl
      hmeets
    have hid : p.node? n.id = some n := by
      rw [findNode?_id hn]
      exact hn
    rw [hid] at hreads
    exact .afterEffect hn hd hreads
  | effect => exact .afterEffect hn hd (harrive h)
  | branch => exact .afterConstruct hn hd (harrive h)
  | rounds => exact .afterConstruct hn hd (harrive h).skip
  | loop => exact .afterConstruct hn hd (harrive h).skip

/-- **What a step leads to was already met before it.** -/
theorem meets_of_advance {s s' : State} (hs : p.Placed s) (h : p.advance config s = .ok s')
    (hmeets : p.Meets config s' e w) : p.Meets config s e w := by
  rcases advance_cases hs h with ⟨-, rfl⟩ | ⟨hlive, hwaiting, hcurrent, rfl⟩ | ⟨-, rfl⟩ |
    ⟨hlive, waiting, s₁, hwaiting, hact, rfl⟩ | ⟨hlive, hwaiting, id, n, s₁, hcurrent, hn, hact, rfl⟩
  · exact hmeets
  · rw [meets_ended] at hmeets
    obtain ⟨hreason, rfl⟩ := hmeets
    rw [meets_live hlive, toDo, hwaiting, hcurrent, hs.resting hlive hwaiting hcurrent]
    cases e with
    | ranOut => exact .cons .nothing .nil
    | stopped => cases hreason
  · rw [meets_ended] at hmeets
    cases e <;> cases hmeets.1
  · rw [meets_live hlive]
    exact readsAll_of_ticked (s := counted s) hlive hwaiting hact hmeets
  · rw [meets_live hlive, toDo, hwaiting, hcurrent]
    exact readsAll_of_executed (s := counted s) hn hlive hwaiting hact hmeets

/-! ## Whole runs -/

variable (p config) in
/-- One machine is the other after a step that did not fail. -/
def Steps (m m' : Machine) : Prop := ∃ r, p.step config m = (.ok r, m')

theorem meets_of_steps (hp : p.Closed) {m m' : Machine} (hm : p.Placed m.state)
    (h : ReflTransGen (p.Steps config) m m') (hmeets : p.Meets config m'.state e w) :
    p.Meets config m.state e w := by
  -- from the end of the run back, as each step puts its reading in front of what follows
  induction h using ReflTransGen.head_induction_on with
  | refl => exact hmeets
  | head hstep _ ih =>
    obtain ⟨r, hstep⟩ := hstep
    have hadvance := advance_of_step hstep
    exact meets_of_advance hm hadvance (ih (placed_of_advance hp hm hadvance))

/-- Running for a budget is taking steps. -/
theorem steps_of_runFor {budget : Nat} {m m' : Machine}
    (h : p.runFor config budget m = (.ok (), m')) : ReflTransGen (p.Steps config) m m' := by
  induction budget generalizing m with
  | zero =>
    cases h
    exact .refl
  | succ budget ih =>
    simp only [runFor] at h
    split at h
    · cases h
      exact .refl
    · rcases hstep : p.step config m with ⟨fault | r, m₁⟩
      · simp only [hstep] at h
        cases h
      · simp only [hstep] at h
        exact .head ⟨r, hstep⟩ (ih h)

/-- **A run that ends follows the structured reading.** Whenever steps from the start of a
compiled program have come to an end other than the step limit, the world and the reason of the
end are those of the one reading of the program from its entry. -/
theorem reads_iff_of_steps {source : Source} (hcompile : source.compile = .ok p) (vars : Dict)
    {m : Machine} {reason : HaltReason}
    (hsteps : ReflTransGen (p.Steps config) (.start p config vars) m)
    (hhalt : m.state.halt = some reason) (hlimit : reason ≠ .stepLimit) :
    p.Reads config (.chain p.entry) (Machine.start p config vars).state.world e w ↔
      e.reason = reason ∧ m.state.world = w := by
  have hclosed : p.Closed := by
    simp only [Source.compile] at hcompile
    rcases hg : source.snapshot with fault | g <;> rw [hg] at hcompile
    · cases hcompile
    · exact closed_build hcompile
  -- the run gives one reading, and there is no other
  have hreads (e : Ending) (hreason : e.reason = reason) :
      p.Reads config (.chain p.entry) (Machine.start p config vars).state.world e
        m.state.world := by
    have hend : p.Meets config m.state e m.state.world := by
      simp only [Meets, hhalt]
      exact ⟨hreason.symm, trivial⟩
    exact ReadsAll.single (meets_of_steps hclosed (placed_start hclosed config vars) hsteps hend)
  obtain ⟨e', hreason⟩ : ∃ e : Ending, e.reason = reason := by
    cases reason with
    | stopBlock => exact ⟨.stopped, rfl⟩
    | endOfProgram => exact ⟨.ranOut, rfl⟩
    | stepLimit => exact absurd rfl hlimit
  constructor
  · intro h
    obtain ⟨rfl, rfl⟩ := (hreads e' hreason).unique h
    exact ⟨hreason, rfl⟩
  · rintro ⟨he, rfl⟩
    exact hreads e he

/-- A workspace with two rounds of a loop. In each of them a variable is counted up until it is two,
and where it is, the other variable is counted up as well. Then comes a stop. -/
def countingInside : Workspace where
  blocks := [
    { id := "s", type := .str "start" },
    { id := "o", type := .str "repeat_times", inputs := .dict [(.str "times", .str "2")] },
    { id := "u", type := .str "repeat_until" },
    { id := "c", type := .str "change_variable",
      inputs := .dict [(.str "name", .str "n"), (.str "delta", .int 1)] },
    { id := "i", type := .str "if_else" },
    { id := "d", type := .str "change_variable",
      inputs := .dict [(.str "name", .str "m"), (.str "delta", .int 1)] },
    { id := "z", type := .str "stop" },
    { id := "e", type := .str "stop" },
    { id := "g", type := .str "gte_operator", inputs := .dict [(.str "b", .int 2)] },
    { id := "v", type := .str "variable", inputs := .dict [(.str "name", .str "n")] }]
  edges := [
    .stack "s" "o", .toBranch "o" (some "body") "u", .toBranch "u" (some "body") "c",
    .stack "u" "i", .toBranch "i" (some "true") "d", .toBranch "i" (some "false") "z",
    .stack "o" "e", .toInput "u" (some "until") "g", .toInput "i" (some "condition") "g",
    .toInput "g" (some "a") "v"]

/-- What that workspace is compiled to. -/
def countingInsideProgram : Program where
  nodes := [
    { id := "s", type := .str "start", next := some "o" },
    { id := "o", type := .str "repeat_times", inputs := [(.str "times", .int 2)],
      next := some "e", branches := [("body", "u")] },
    { id := "u", type := .str "repeat_until", inputs := [(.str "until", .ref "g")],
      next := some "i", branches := [("body", "c")] },
    { id := "c", type := .str "change_variable",
      inputs := [(.str "name", .str "n"), (.str "delta", .int 1)] },
    { id := "i", type := .str "if_else", inputs := [(.str "condition", .ref "g")],
      branches := [("true", "d"), ("false", "z")] },
    { id := "d", type := .str "change_variable",
      inputs := [(.str "name", .str "m"), (.str "delta", .int 1)] },
    { id := "z", type := .str "stop" },
    { id := "e", type := .str "stop" },
    { id := "g", type := .str "gte_operator", inputs := [(.str "b", .int 2), (.str "a", .ref "v")] },
    { id := "v", type := .str "variable", inputs := [(.str "name", .str "n")] }]
  roots := ["s", "u", "c", "d", "z", "g", "v"]
  entry := some "s"

/-- Its run, which is over after eleven steps. -/
def countingInsideRun : Except Fault Unit × Machine :=
  countingInsideProgram.runFor {} 11 (.start countingInsideProgram {} [])

/-- Its run comes to the last stop with two in both variables, and so does its reading. -/
theorem reads_countingInside : ∃ m : Machine,
    countingInsideProgram.Reads {} (.chain (some "s")) ⟨[], {}, []⟩ .stopped m.state.world ∧
      (Dict.named? m.state.vars "n").bind Value.number? = some (.int 2) ∧
      (Dict.named? m.state.vars "m").bind Value.number? = some (.int 2) := by
  have hdone : countingInsideRun.1.isOk = true := by decide +kernel
  have hhalt : countingInsideRun.2.state.halt = some .stopBlock := by decide +kernel
  have hvars : (Dict.named? countingInsideRun.2.state.vars "n").bind Value.number? = some (.int 2) ∧
      (Dict.named? countingInsideRun.2.state.vars "m").bind Value.number? = some (.int 2) := by
    decide +kernel
  rcases hrun : countingInsideRun with ⟨fault | ⟨⟩, m⟩ <;> rw [hrun] at hdone hhalt hvars
  · cases hdone
  · have hcompile : (Source.workspace countingInside).compile = .ok countingInsideProgram := by
      with_unfolding_all rfl
    exact ⟨m, (reads_iff_of_steps hcompile [] (steps_of_runFor hrun) hhalt (by decide)).2
      ⟨rfl, rfl⟩, hvars⟩

end Program

end BlockProgram
