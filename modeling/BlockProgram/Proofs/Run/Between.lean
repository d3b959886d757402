import BlockProgram.Proofs.Run.Pacing

/-!
# Between the calls of a host

A host looks at the state of a run between its calls, and goes on from there also after a call that
failed. What it finds there (`Program.Between`) is written in many places: by every statement, by
ticks, by unwinding, and by the ends of a run. It is derived here from two invariants:

* `Program.Sound` holds after a statement was executed and before the step is settled;
* `Program.Lasting` adds what settling brings about: a run that is not over has a node to go on at,
  unless it never had one. Steps and the end of a run keep it (`Program.keeps_lasting_step`).

A step that fails stops halfway. It has been counted, and perhaps some frames are gone or a wait is
over, but the run stays at its node (`Program.Going`), which is as good a place to go on from.
-/

namespace BlockProgram

namespace Frame

/-- A frame that a run can stay in: a loop has a body. -/
def HasBody : Frame → Prop
  | .branch _ => True
  | .times _ body _ => body.isSome = true
  | .until _ body _ => body.isSome = true

end Frame

namespace Exec

variable {α β : Type} {P Q E : State → Prop} {m m' : Machine}

/-- What holds of the state that an action leaves: one thing where it succeeds, another where it
fails. -/
def Leaves (Q E : State → Prop) (x : Exec α) (m : Machine) : Prop :=
  match x m with
  | (.ok _, m') => Q m'.state
  | (.error _, m') => E m'.state

/-- What follows an action that succeeds decides what is left. -/
theorem Leaves.after {x : Exec α} {f : α → Exec β} {a : α} (hx : x m = (.ok a, m'))
    (h : Leaves Q E (f a) m') : Leaves Q E (x >>= f) m := by
  simp only [Leaves] at h ⊢
  rw [bind_ok hx]
  exact h

/-- Reading something first that leaves the machine alone, which may fail. -/
theorem Leaves.reading {x : Exec α} {f : α → Exec β} {read : Except Fault α}
    (hx : x m = (read, m)) (hm : E m.state) (h : ∀ a, read = .ok a → Leaves Q E (f a) m) :
    Leaves Q E (x >>= f) m := by
  rcases read with fault | a
  · simp only [Leaves]
    rw [bind_error hx]
    exact hm
  · exact .after hx (h a rfl)

/-- An action leaves what another one does that comes to the same. -/
theorem Leaves.of_eq {x y : Exec α} (hx : x m = y m') (h : Leaves Q E y m') : Leaves Q E x m := by
  simp only [Leaves] at h ⊢
  rw [hx]
  exact h

/-- What the first of two actions leaves where it succeeds, the second may rely on. Where the
first fails it has to leave what is asked for failures. -/
theorem Leaves.andThen {x : Exec α} {f : α → Exec β} (hx : Leaves P E x m)
    (h : ∀ a m', P m'.state → Leaves Q E (f a) m') : Leaves Q E (x >>= f) m := by
  simp only [Leaves] at hx
  rcases hrun : x m with ⟨fault | a, m'⟩ <;> rw [hrun] at hx
  · simp only [Leaves]
    rw [bind_error hrun]
    exact hx
  · exact .after hrun (h a m' hx)

/-- An action that does what a function on states says, and does not fail. -/
theorem Leaves.of_does {x : Exec α} {s : State} (h : Program.Does x m (.ok s)) (hs : Q s) :
    Leaves Q E x m := by
  obtain ⟨a, m', hm, rfl⟩ := h
  simp only [Leaves]
  rw [hm]
  exact hs

/-- Less may be asked of what is left. -/
theorem Leaves.imp {Q' E' : State → Prop} {x : Exec α} (hQ : ∀ s, Q s → Q' s)
    (hE : ∀ s, E s → E' s) (h : Leaves Q E x m) : Leaves Q' E' x m := by
  simp only [Leaves] at h ⊢
  rcases hrun : x m with ⟨fault | a, m'⟩ <;> rw [hrun] at h
  · exact hE _ h
  · exact hQ _ h

/-- An invariant is kept if it follows from what is left in both cases. -/
theorem keeps_of_leaves {x : Exec α} {I : State → Prop}
    (h : ∀ m : Machine, I m.state → Leaves Q E x m) (hQ : ∀ s, Q s → I s) (hE : ∀ s, E s → I s) :
    Keeps I x := by
  intro m hm
  have hleaves := h m hm
  simp only [Leaves] at hleaves
  rcases hrun : x m with ⟨fault | a, m'⟩ <;> rw [hrun] at hleaves
  · exact hE _ hleaves
  · exact hQ _ hleaves

end Exec

/-- A frame that unwinding leaves was one of the outer ones already, or it is a loop with a body
that goes into its next round. -/
theorem left_of_unwind {isTrue : Value → Except Fault Bool} {frames : List Frame} {f : Frame}
    (hf : f ∈ (unwind isTrue frames).2) : f ∈ frames.tail ∨ f.HasBody ∧ (f ∈ frames ∨
      ∃ remaining body resume, f = .times remaining body resume ∧
        .times (remaining + 1) body resume ∈ frames) := by
  rcases hu : unwind isTrue frames with ⟨found, left⟩
  rw [hu] at hf
  obtain ⟨removed, kept, hw⟩ := unwinds_of_unwind hu
  clear hu
  generalize hresult : (found, left) = result at hw
  induction hw with
  | ended =>
    cases hresult
    exact absurd hf List.not_mem_nil
  | out =>
    cases hresult
    exact .inl hf
  | further _ _ _ ih =>
    rcases ih hresult with hmem | ⟨hbody, hmem | ⟨remaining, body, resume, hround, hmem⟩⟩
    · exact .inl (List.mem_of_mem_tail hmem)
    · exact .inl hmem
    · exact .inr ⟨hbody, .inr ⟨remaining, body, resume, hround, List.mem_cons_of_mem _ hmem⟩⟩
  | round hgoes =>
    cases hresult
    rcases List.mem_cons.1 hf with rfl | hf
    · right
      rcases Frame.loop_of_goesOn hgoes with
        ⟨remaining, body, resume, rfl⟩ | ⟨condition, body, resume, rfl, -⟩
      · exact ⟨rfl, .inr ⟨remaining, some body, resume, rfl, List.mem_cons_self⟩⟩
      · exact ⟨rfl, .inl List.mem_cons_self⟩
    · exact .inl hf
  | stuck hgoes =>
    cases hresult
    rcases List.mem_cons.1 hf with rfl | hf
    · obtain ⟨condition, body, resume, rfl, -⟩ := Frame.until_of_goesOn hgoes
      exact .inr ⟨rfl, .inl List.mem_cons_self⟩
    · exact .inl hf

namespace Program

open Exec

variable {p : Program} {config : Config} {n : Node} {s : State} {m : Machine}

/-! ## What holds between calls -/

/-- A loop goes into its next round, if it has rounds left to count, at a node. -/
def LoopSound (p : Program) : Frame → Prop
  | .branch _ => True
  | .times remaining body _ => 0 ≤ remaining ∧ ∃ n, body.bind p.node? = some n
  | .until _ body _ => ∃ n, body.bind p.node? = some n

/-- What a host finds between two calls. -/
structure Between (p : Program) (config : Config) (s : State) : Prop where
  /-- the steps are within the limit; a limit below zero is one of zero -/
  limit : 0 ≤ s.steps ∧ (s.steps : Int) ≤ max 0 config.maxSteps
  /-- a run is over exactly if there is a reason for it -/
  halted_iff : s.halted = true ↔ ∃ reason, s.halt = some reason
  /-- a run that is over is nowhere and waits for nothing -/
  stopped : s.halted = true → s.current = none ∧ s.waiting = none
  /-- a run that has begun and is not over is at a node -/
  going : s.halted = false → 0 < s.steps → ∃ n, p.currentNode? s = some n
  /-- a wait is that of the node that the run is at, and has a tick left -/
  waits : ∀ w, s.waiting = some w → s.current = some w.node ∧ 1 ≤ w.ticks
  loops : ∀ f ∈ s.frames, p.LoopSound f
  /-- a program that has ended by itself has left all its constructs -/
  ended : s.halt = some .endOfProgram → s.frames = []

/-! ## The invariants -/

/-- A place as executing a statement leaves it. -/
structure Sound (p : Program) (config : Config) (s : State) : Prop extends p.Placed s where
  limit : (s.steps : Int) ≤ max 0 config.maxSteps
  stopped : s.halted = true → s.current = none ∧ s.waiting = none
  waits : ∀ w, s.waiting = some w → s.current = some w.node ∧ 1 ≤ w.ticks
  bodies : ∀ f ∈ s.frames, f.HasBody
  ended : s.halt = some .endOfProgram → s.frames = []

/-- A place as a step leaves it. -/
structure Lasting (p : Program) (config : Config) (s : State) : Prop extends p.Sound config s where
  /-- only a program without a node to start at is at no node, and that before its first step -/
  fresh : s.halted = false → s.current = none → s.steps = 0

/-- A run in the middle of a step, executing a node. -/
structure AtNode (p : Program) (config : Config) (n : Node) (s : State) : Prop where
  node : p.node? n.id = some n
  live : s.halt = none
  waiting : s.waiting = none
  current : s.current = some n.id
  counted : 0 < s.steps ∧ (s.steps : Int) ≤ config.maxSteps

/-- A run in the middle of a step whose frames are in order. A step that fails leaves it so. -/
structure Going (p : Program) (config : Config) (n : Node) (s : State) : Prop
    extends p.AtNode config n s where
  frames : ∀ f ∈ s.frames, p.FrameLeads f ∧ f.HasBody

/-- **What lasts implies what a host finds between calls.** -/
theorem Lasting.between (h : p.Lasting config s) : p.Between config s where
  limit := ⟨Nat.zero_le _, h.limit⟩
  halted_iff := Option.isSome_iff_exists
  stopped := h.stopped
  going hlive hsteps := by
    rcases hcurrent : s.current with _ | id
    · exact absurd (h.fresh hlive hcurrent) (Nat.ne_of_gt hsteps)
    · obtain ⟨n, hn⟩ := h.current id hcurrent
      exact ⟨n, by rw [currentNode?, hcurrent]; exact hn⟩
  waits := h.waits
  loops f hf := by
    have hleads := h.frames f hf
    have hbody := h.bodies f hf
    cases f with
    | branch => trivial
    | times remaining body resume =>
      obtain ⟨id, rfl⟩ := Option.isSome_iff_exists.1 hbody
      exact ⟨Nat.zero_le _, hleads.1 id rfl⟩
    | «until» condition body resume =>
      obtain ⟨id, rfl⟩ := Option.isSome_iff_exists.1 hbody
      exact hleads.1 id rfl
  ended := h.ended

/-- A run that leaves a node for another one, or that is inside of nothing. -/
theorem AtNode.sound (h : p.AtNode config n s) {current : Option String} {frames : List Frame}
    (hcurrent : p.Leads current) (hframes : ∀ f ∈ frames, p.FrameLeads f ∧ f.HasBody)
    (hnone : current = none → frames = []) : p.Sound config { s with current, frames } := by
  refine
    { current := hcurrent
      frames := fun f hf => (hframes f hf).1
      resting := fun _ _ => hnone
      limit := Int.le_trans h.counted.2 (Int.le_max_right _ _)
      stopped := fun hover => ?_
      waits := fun w hw => ?_
      bodies := fun f hf => (hframes f hf).2
      ended := fun hend => ?_ }
  · have hover : s.halt.isSome = true := hover
    rw [h.live] at hover
    cases hover
  · rw [h.waiting] at hw
    cases hw
  · rw [h.live] at hend
    cases hend

/-- A run that is stopped halfway at its node is as good to go on from as one between calls. -/
theorem Going.lasting (h : p.Going config n s) : p.Lasting config s := by
  have hnode : s.current ≠ none := by
    rw [h.current]
    exact Option.some_ne_none _
  have hcurrent : p.Leads s.current := by
    intro id hid
    rw [h.current] at hid
    cases hid
    exact ⟨n, h.node⟩
  exact ⟨h.toAtNode.sound hcurrent h.frames fun hnone => absurd hnone hnode,
    fun _ hnone => absurd hnone hnode⟩

/-- A run that is ended in a sound place, inside of nothing where its program has ended. -/
theorem lasting_ended (h : p.Sound config s) (reason : HaltReason)
    (hframes : reason = .endOfProgram → s.frames = []) : p.Lasting config (s.ended reason) where
  current := leads_none
  frames := h.frames
  resting := nofun
  limit := h.limit
  stopped _ := ⟨rfl, rfl⟩
  waits := nofun
  bodies := h.bodies
  ended hhalt := hframes (Option.some.inj hhalt)
  fresh := nofun

/-- A run that is cut off by the step limit. -/
theorem lasting_cutOff (h : p.Lasting config s) : p.Lasting config (s.ended .stepLimit) :=
  lasting_ended h.toSound .stepLimit nofun

/-- **Settling makes a sound place lasting**: with no node to go on at, the run is inside of
nothing and ends. -/
theorem lasting_settled (h : p.Sound config s) : p.Lasting config s.settled := by
  simp only [State.settled]
  split
  · rename_i hidle
    simp only [Bool.and_eq_true, Option.isNone_iff_eq_none, Bool.not_eq_true'] at hidle
    obtain ⟨⟨hwaiting, hcurrent⟩, hlive⟩ := hidle
    exact lasting_ended h .endOfProgram fun _ => h.resting hlive hwaiting hcurrent
  · rename_i hbusy
    refine ⟨h, fun hlive hcurrent => absurd ?_ hbusy⟩
    rcases hwaiting : s.waiting with _ | w
    · simp [hlive, hcurrent]
    · rw [(h.waits w hwaiting).1] at hcurrent
      cases hcurrent

/-! ## Going on -/

/-- Unwinding frames of which the innermost has just been entered. -/
theorem leaves_resume (h : p.AtNode config n m.state)
    (hleads : ∀ f ∈ m.state.frames, p.FrameLeads f)
    (hbodies : ∀ f ∈ m.state.frames.tail, f.HasBody) :
    Leaves (p.Sound config) (p.Going config n) p.resume m := by
  have hleft : ∀ f ∈ (unwind (p.isTrue m.state.vars) m.state.frames).2,
      p.FrameLeads f ∧ f.HasBody := by
    intro f hf
    rcases left_of_unwind hf with hmem | ⟨hbody, hmem | ⟨remaining, body, resume, rfl, hmem⟩⟩
    · exact ⟨hleads f (List.mem_of_mem_tail hmem), hbodies f hmem⟩
    · exact ⟨hleads f hmem, hbody⟩
    -- a round less leaves the links of a loop as they are
    · exact ⟨hleads (.times (remaining + 1) body resume) hmem, hbody⟩
  simp only [Leaves, resume]
  rcases hu : unwind (p.isTrue m.state.vars) m.state.frames with ⟨fault | next, frames⟩ <;>
    rw [hu] at hleft
  · exact ⟨⟨h.node, h.live, h.waiting, h.current, h.counted⟩, hleft⟩
  · refine h.sound (leads_of_unwind hu hleads).1 hleft fun hnone => ?_
    rw [hnone] at hu
    exact frames_of_unwind_none hu

/-- Going on leads to a node or to the end, and where a condition fails the run stays at its
node. -/
theorem leaves_goOn {next : Option String} (h : p.Going config n m.state) (hnext : p.Leads next) :
    Leaves (p.Sound config) (p.Going config n) (p.goOn next) m := by
  rcases next with _ | id
  · exact leaves_resume h.toAtNode (fun f hf => (h.frames f hf).1) fun f hf =>
      (h.frames f (List.mem_of_mem_tail hf)).2
  · exact h.toAtNode.sound hnext h.frames fun hnone => absurd hnone (Option.some_ne_none _)

/-- Entering a construct, which may be a loop without a body; unwinding does not stay in one. -/
theorem leaves_enter {frame : Frame} (h : p.Going config n m.state) (hframe : p.FrameLeads frame) :
    Leaves (p.Sound config) (p.Going config n) (p.enter frame) m := by
  refine .after (modifyState_apply _ m) (leaves_resume ?_ ?_ fun f hf => (h.frames f hf).2)
  · exact ⟨h.node, h.live, h.waiting, h.current, h.counted⟩
  · intro f hf
    rcases List.mem_cons.1 hf with rfl | hf
    · exact hframe
    · exact (h.frames f hf).1

/-! ## Executing a node -/

theorem Going.within (h : p.Going config n s) (w : World) : p.Going config n (s.within w) :=
  ⟨⟨h.node, h.live, h.waiting, h.current, h.counted⟩, h.frames⟩

/-- In a closed program the next link leads to a node. -/
theorem leads_next (hp : p.Closed) (h : p.AtNode config n s) : p.Leads n.next :=
  hp.next n.id n h.node

/-- An effect changes the world only, so the place of the run is decided by the next link. -/
theorem leaves_effect (hp : p.Closed) (s : Statement) (h : p.Going config n m.state) :
    Leaves (p.Sound config) (p.Going config n) (do p.effect n s; p.goOn n.next) m := by
  have hnext := leads_next hp h.toAtNode
  rcases heffect : p.effectOn n s m.state.world with fault | w
  · obtain ⟨w, log, hm⟩ := p.effect_error n heffect
    simp only [Leaves]
    rw [bind_error hm]
    exact h.within w
  · obtain ⟨log, hm⟩ := p.effect_ok n heffect
    exact .after hm (leaves_goOn (h.within w) hnext)

/-- A wait takes at least one tick where a step is allowed at all. -/
theorem one_le_roundTicks {maxSteps : Int} (h : 0 < maxSteps) (raw : Float) :
    1 ≤ roundTicks maxSteps raw := by
  simp only [roundTicks]
  split
  · omega
  · split
    · omega
    · split <;> omega

/-- If the limit is positive, every wait takes at least one tick. -/
theorem one_le_waitTicks (h : 0 < config.maxSteps) {seconds : Float} {ticks : Int}
    (hticks : waitTicks config seconds = .ok ticks) : 1 ≤ ticks := by
  simp only [waitTicks] at hticks
  rcases hper : config.ticksPerSecond.needNumber with fault | perSecond <;> rw [hper] at hticks
  · cases hticks
  change (Fault.inRange perSecond.toFloat? >>= _) = _ at hticks
  rcases hfactor : Fault.inRange perSecond.toFloat? with fault | factor <;> rw [hfactor] at hticks
  · cases hticks
  · cases hticks
    exact one_le_roundTicks h _

/-- A node that waits is the one that the run is at. -/
theorem leaves_beginWait (hp : p.Closed) (h : p.Going config n m.state) :
    Leaves (p.Sound config) (p.Going config n) (p.beginWait config n) m := by
  have hnext := leads_next hp h.toAtNode
  simp only [beginWait]
  refine .reading (p.numberAt_apply n "seconds" m) h fun seconds _ => ?_
  refine .reading (lift_apply _ m) h fun seconds _ => ?_
  rcases hticks : waitTicks config seconds with fault | ticks
  · exact h
  refine .after (lift_apply _ m) (.after (modify_apply _ m) ?_)
  by_cases hone : ticks = 1
  · simp only [hone, if_true]
    exact leaves_goOn ⟨⟨h.node, h.live, h.waiting, h.current, h.counted⟩, h.frames⟩ hnext
  · simp only [hone, if_false]
    have hpositive : 0 < config.maxSteps := by
      have hcounted := h.counted
      omega
    have hrest : 1 ≤ (ticks - 1).toNat := by
      have hticks := one_le_waitTicks hpositive hticks
      omega
    have hlasting := h.lasting
    refine ⟨⟨hlasting.current, hlasting.frames, ?_⟩, hlasting.limit, ?_, ?_, hlasting.bodies,
      hlasting.ended⟩
    · exact fun _ hwaiting => absurd hwaiting (Option.some_ne_none _)
    · intro hover
      have hnone := (hlasting.stopped hover).1
      rw [h.current] at hnone
      cases hnone
    · rintro w ⟨⟩
      exact ⟨h.current, hrest⟩

/-- A branch frame is pushed after its condition is known, so nothing can fail with the frame
there but going on. -/
theorem leaves_enterBranch (hp : p.Closed) (h : p.Going config n m.state) :
    Leaves (p.Sound config) (p.Going config n) (p.enterBranch n) m := by
  have hnext := leads_next hp h.toAtNode
  refine .reading (p.slot_apply n "condition" m) h fun condition _ => ?_
  refine .after (modifyState_apply _ m) (leaves_goOn ?_ (hp.branch n.id n h.node _))
  refine ⟨⟨h.node, h.live, h.waiting, h.current, h.counted⟩, fun f hf => ?_⟩
  rcases List.mem_cons.1 hf with rfl | hf
  · exact ⟨hnext, trivial⟩
  · exact h.frames f hf

/-- **Executing a node leaves a sound state**, or stays at the node where it fails. -/
theorem leaves_execute (hp : p.Closed) (h : p.Going config n m.state) :
    Leaves (p.Sound config) (p.Going config n) (p.execute config n) m := by
  have hnext := leads_next hp h.toAtNode
  have hbody := leads_loopBody hp h.node
  refine .reading (lift_apply _ m) h fun s _ => ?_
  rcases s with _ | s
  · exact leaves_goOn h hnext
  have heffect := leaves_effect hp s h
  cases s with
  | stop =>
    have hlive : m.state.halted = false := by rw [Snapshot.halted, h.live]; rfl
    exact .of_does (does_halt .stopBlock hlive)
      (lasting_ended h.lasting.toSound .stopBlock fun hreason => by cases hreason).toSound
  | wait => exact leaves_beginWait hp h
  | ifElse => exact leaves_enterBranch hp h
  | repeatTimes =>
    exact .reading (p.numberAt_apply n "times" m) h fun times _ => leaves_enter h ⟨hbody, hnext⟩
  | repeatUntil => exact leaves_enter h ⟨hbody, hnext⟩
  | _ => exact heffect

/-! ## Steps -/

/-- A sound state that waits has a place to go on from, which is the node that waits. -/
theorem lasting_of_waiting {w : Waiting} (h : p.Sound config s) (hw : s.waiting = some w) :
    p.Lasting config s := by
  refine ⟨h, fun _ hnone => ?_⟩
  rw [(h.waits w hw).1] at hnone
  cases hnone

/-- **Settling turns what is sound into what lasts**: without a node to go on at, the run is
ended. -/
theorem leaves_settle {E : State → Prop} (h : p.Sound config m.state) :
    Leaves (p.Lasting config) E settle m := by
  rcases hw : m.state.waiting with _ | w
  · exact .of_does (does_settle hw) (lasting_settled h)
  · simp only [settle]
    refine .after (getState_apply m) ?_
    rw [(h.waits w hw).1]
    exact lasting_of_waiting h hw

/-- A visit leaves a lasting state, or stays at its node where it fails. -/
theorem leaves_visit (hp : p.Closed) (h : p.Going config n m.state) :
    Leaves (p.Lasting config) (p.Going config n) (p.visit config n) m := by
  -- whatever is printed and reported in front, the node is executed in the same state
  have hrest : ∀ m₀ : Machine, m₀.state = m.state →
      Leaves (p.Lasting config) (p.Going config n) (do
        p.execute config n
        let s ← getState
        if s.waiting.isSome then return ⟨false, true⟩ else settle) m₀ := by
    intro m₀ h₀
    refine .andThen (leaves_execute hp (h₀ ▸ h)) fun _ m' hm' => ?_
    refine .after (getState_apply m') ?_
    rcases hw : m'.state.waiting with _ | w
    · exact leaves_settle hm'
    · exact lasting_of_waiting hm' hw
  simp only [visit]
  refine .after (modify_apply _ m) ?_
  by_cases hv : config.verbose
  · simp only [hv, if_true]
    exact .after (getState_apply _) (.after (modify_apply _ _) (hrest _ rfl))
  · simp only [hv]
    exact hrest _ rfl

/-- A tick of a wait. After the last one the run goes on behind the node. -/
theorem leaves_tick (hp : p.Closed) {w : Waiting} (hw : w.node = n.id)
    (h : p.Going config n { m.state with waiting := none }) :
    Leaves (p.Lasting config) (p.Going config n) (p.tick w) m := by
  have hlasting := h.lasting
  have hnext : p.Leads ((p.node? w.node).bind (·.next)) := by
    rw [hw, h.node]
    exact leads_next hp h.toAtNode
  simp only [tick]
  refine .after (modify_apply _ m) (.after (modify_apply _ _) ?_)
  by_cases hmore : 1 < w.ticks
  · simp only [hmore, if_true]
    refine .after (modifyState_apply _ _) ?_
    refine ⟨⟨⟨hlasting.current, hlasting.frames, ?_⟩, hlasting.limit, ?_, ?_, hlasting.bodies,
      hlasting.ended⟩, hlasting.fresh⟩
    · exact fun _ hwaiting => absurd hwaiting (Option.some_ne_none _)
    · intro hover
      have hnone := (hlasting.stopped hover).1
      rw [h.current] at hnone
      cases hnone
    · rintro w' ⟨⟩
      exact ⟨h.current.trans (congrArg some hw.symm), Nat.le_sub_of_add_le hmore⟩
  · simp only [hmore, if_false]
    refine .after (modifyState_apply _ _) ?_
    exact .andThen (leaves_goOn h hnext) fun _ m' hm' => leaves_settle hm'

/-- A run that is not over and may take another step is at a node. -/
theorem going_of_lasting (h : p.Lasting config s) (hlive : s.halt = none)
    (hplace : ¬ (s.waiting.isNone && s.current.isNone) = true)
    (hlimit : s.steps < config.maxSteps) :
    ∃ n, p.Going config n { counted s with waiting := none } := by
  have hsteps : ((s.steps + 1 : Nat) : Int) ≤ config.maxSteps := by
    push_cast
    omega
  rcases hcurrent : s.current with _ | id
  · refine absurd ?_ hplace
    rcases hw : s.waiting with _ | w
    · rw [hcurrent]
      rfl
    · rw [(h.waits w hw).1] at hcurrent
      cases hcurrent
  · obtain ⟨n, hn⟩ := h.current id hcurrent
    obtain rfl : n.id = id := findNode?_id hn
    exact ⟨n, ⟨hn, hlive, rfl, hcurrent, Nat.succ_pos _, hsteps⟩,
      fun f hf => ⟨h.frames f hf, h.bodies f hf⟩⟩

/-- **The ways of a step.** It finds the run over, it ends it, it executes the node that the run is
at, or it takes a tick of the wait of that node. -/
theorem step_cases (h : p.Lasting config m.state) :
    (m.state.halted = true ∧
      p.step config m = (pure ⟨true, false⟩ : Exec StepResult) m.withoutLast) ∨
    (m.state.halted = false ∧ ∃ reason,
      (reason = .endOfProgram → m.state.waiting = none ∧ m.state.current = none) ∧
      p.step config m = (do halt reason; return ⟨true, false⟩ : Exec StepResult) m.withoutLast) ∨
    m.state.halted = false ∧ ∃ n, p.Going config n { counted m.state with waiting := none } ∧
      ((m.state.waiting = none ∧
        p.step config m = p.visit config n { m.withoutLast with state := counted m.state }) ∨
      ∃ w, m.state.waiting = some w ∧ w.node = n.id ∧
        p.step config m = p.tick w { m.withoutLast with state := counted m.state }) := by
  by_cases hover : m.state.halted = true
  · exact .inl ⟨hover, step_of_over hover⟩
  have hlive : m.state.halted = false := by simpa using hover
  refine .inr ?_
  rw [step, bind_ok (modify_apply _ m), bind_ok (getState_apply _), if_neg hover]
  by_cases hidle : (m.state.waiting.isNone && m.state.current.isNone) = true
  · rw [if_pos hidle]
    rw [Bool.and_eq_true, Option.isNone_iff_eq_none, Option.isNone_iff_eq_none] at hidle
    exact .inl ⟨hlive, .endOfProgram, fun _ => hidle, rfl⟩
  rw [if_neg hidle]
  by_cases hlimit : config.maxSteps ≤ m.state.steps
  · rw [if_pos hlimit]
    exact .inl ⟨hlive, .stepLimit, fun hend => (by cases hend), rfl⟩
  rw [if_neg hlimit, bind_ok (modifyState_apply _ _)]
  obtain ⟨n, hn⟩ := going_of_lasting h (by simpa [Snapshot.halted] using hlive) hidle
    (Int.not_le.1 hlimit)
  have hcurrent : m.state.current = some n.id := hn.current
  have hnode : p.currentNode? m.state = some n := by rw [currentNode?, hcurrent]; exact hn.node
  refine .inr ⟨hlive, n, hn, ?_⟩
  rw [hnode]
  rcases hw : m.state.waiting with _ | w
  · refine .inl ⟨rfl, ?_⟩
    simp only [Machine.withoutLast, counted, hw]
  · have hwait : some w.node = some n.id := (h.waits w hw).1.symm.trans hcurrent
    refine .inr ⟨w, rfl, Option.some.inj hwait, ?_⟩
    simp only [Machine.withoutLast, counted, hw]

/-- Whatever a step does, it leaves a lasting state. -/
theorem leaves_step (hp : p.Closed) (h : p.Lasting config m.state) :
    Leaves (p.Lasting config) (p.Lasting config) (p.step config) m := by
  obtain ⟨-, hstep⟩ | ⟨hlive, reason, hreason, hstep⟩ |
    ⟨-, n, hn, ⟨hw, hstep⟩ | ⟨w, -, hwait, hstep⟩⟩ := step_cases h
  · exact .of_eq hstep h
  · refine .of_eq hstep (.of_does (does_haltStep hlive) (lasting_ended h.toSound reason ?_))
    intro hend
    obtain ⟨hwaiting, hcurrent⟩ := hreason hend
    exact h.resting hlive hwaiting hcurrent
  · have hnone : { counted m.state with waiting := none } = counted m.state := by
      rw [counted, ← hw]
    rw [hnone] at hn
    exact .of_eq hstep ((leaves_visit hp hn).imp (fun _ => id) fun _ => Going.lasting)
  · refine .of_eq hstep (.imp (fun _ => id) (fun _ => Going.lasting) (leaves_tick hp hwait ?_))
    exact hn

/-- **A step leaves a place to go on from**, also one that fails. -/
theorem keeps_lasting_step (hp : p.Closed) : Keeps (p.Lasting config) (p.step config) :=
  keeps_of_leaves (fun _ => leaves_step hp) (fun _ => id) fun _ => id

/-- Running out of a budget ends a run wherever it is, with the place kept. -/
theorem keeps_lasting_halt : Keeps (p.Lasting config) (halt .stepLimit) := by
  intro m h
  rcases hhalted : m.state.halted with _ | _
  · obtain ⟨_, m', hm, hs⟩ := does_halt .stepLimit hhalted
    rw [hm]
    show p.Lasting config m'.state
    rw [hs]
    exact lasting_cutOff h
  · rw [halt_apply_of_halted hhalted]
    exact h

/-- A run begins at the entry with nothing to wait for and no frames. -/
theorem lasting_start (hp : p.Closed) (config : Config) (vars : Dict) :
    p.Lasting config (Machine.start p config vars).state where
  toPlaced := placed_start hp config vars
  limit := Int.le_max_left 0 config.maxSteps
  stopped := nofun
  waits := nofun
  bodies _ hf := absurd hf List.not_mem_nil
  ended := nofun
  fresh _ _ := rfl

/-! ## Calls -/

/-- A call on a run that is over does nothing but forget which node was highlighted last. -/
theorem call_of_halted (h : m.state.halted = true) (c : Call) : ∃ m',
    p.call config c m = (.ok (), m') ∧ m'.state = m.state ∧ m'.log = m.log := by
  have hrun (budget : Option Int) : p.call config (.run budget) m = (.ok (), m) :=
    runOut_of_halted h _
  cases c with
  | step => exact ⟨m.withoutLast, bind_ok (step_of_over h), rfl, rfl⟩
  | run budget => exact ⟨m, hrun budget, rfl, rfl⟩
  | trace budget =>
    rw [call_trace]
    exact ⟨m, hrun budget, rfl, rfl⟩

/-- **What holds between the calls of a host.** For every program whose links lead to nodes, so for
every built one, also one that runs in circles, and after any calls from any variables, those
included that failed. A run that is over stays so: a step answers that it is done, and no call
fails, changes the state or reports anything. -/
theorem between_of_calledTo (hp : p.Closed) {vars : Dict} (h : p.CalledTo config vars m) :
    p.Between config m.state ∧
      (m.state.halted = true → (p.step config m).1 = .ok ⟨true, false⟩ ∧
        ∀ c : Call, ∃ m',
          p.call config c m = (.ok (), m') ∧ m'.state = m.state ∧ m'.log = m.log) := by
  have hlasting : p.Lasting config m.state :=
    holds_of_calledTo (lasting_start hp config vars) (keeps_lasting_step hp) keeps_lasting_halt h
  refine ⟨hlasting.between, fun hover => ⟨?_, call_of_halted hover⟩⟩
  rw [step_of_over hover]

/-- A start and two blocks that follow each other in a circle, the first of which waits. -/
def circleBlocks : List Block := [
  { id := "s", type := .str "start" },
  { id := "w", type := .str "wait", inputs := .dict [(.str "seconds", .int 1)] },
  { id := "c", type := .str "clear" }]

/-- The links of that circle. -/
def circleEdges : List Edge := [.stack "s" "w", .stack "w" "c", .stack "c" "w"]

/-- What it is compiled to. -/
def circle : Program where
  nodes := [
    { id := "s", type := .str "start", next := some "w" },
    { id := "w", type := .str "wait", inputs := [(.str "seconds", .int 1)], next := some "c" },
    { id := "c", type := .str "clear", next := some "w" }]
  roots := ["s"]
  entry := some "s"

/-- Two steps into the circle, with room for three more. -/
def circleWaiting : Machine :=
  let config : Config := { maxSteps := 5 }
  (circle.call config .step (circle.call config .step (.start circle config [])).2).2

/-- The run waits at the node that it has come to, and it is cut off in the middle of that wait. -/
theorem between_circle :
    circle.Between { maxSteps := 5 } circleWaiting.state ∧
      circleWaiting.state.waiting = some ⟨"w", 5⟩ ∧
      ∃ m, (circle.call { maxSteps := 5 } (.run none) circleWaiting).2 = m ∧
        m.state.halt = some .stepLimit ∧ circle.Between { maxSteps := 5 } m.state ∧
        ∀ c, (circle.call { maxSteps := 5 } c m).2.state = m.state := by
  have hbuild : build circleBlocks circleEdges = .ok circle := rfl
  have hclosed := closed_build hbuild
  have hcalled : circle.CalledTo { maxSteps := 5 } [] circleWaiting :=
    .tail (.tail .refl ⟨.step, rfl⟩) ⟨.step, rfl⟩
  refine ⟨(between_of_calledTo hclosed hcalled).1, by decide +kernel, _, rfl, ?_⟩
  have hhalt : (circle.call { maxSteps := 5 } (.run none) circleWaiting).2.state.halt =
      some .stepLimit := by decide +kernel
  obtain ⟨hbetween, hover⟩ := between_of_calledTo hclosed (.tail hcalled ⟨.run none, rfl⟩)
  refine ⟨hhalt, hbetween, fun c => ?_⟩
  obtain ⟨m', hm, hstate, -⟩ := (hover (by rw [Snapshot.halted, hhalt]; rfl)).2 c
  rw [hm]
  exact hstate

end Program

end BlockProgram
