import BlockProgram.Proofs.Machine.Unwinding
import BlockProgram.Proofs.Program.Links
import BlockProgram.Proofs.Run.Between

/-!
# Who has pushed the frames

Frames do not say which node has pushed them. Here an account is kept beside a run
(`Program.PushedBy`): whenever a step leaves one frame more, the node that the run was at has pushed
it, and frames are only taken off from the inside.

* Every frame is one that its owner pushes, and every owner is inside of the owners further out: it
  is reached through links from one of their branches (`Program.Owned`).
* Links only lead forward, so no node is inside of itself, and the owners are distinct. There are not
  more frames than nodes that push one.

A step keeps this (`Program.leaves_step_owned`), also one that fails, with one exception. A
`repeat_until` pushes its frame before it looks at its condition. If that has no value
(`Program.Jams`), the step fails with the frame pushed and the run still at the loop, so that every
further step pushes it again (`Program.exists_calledTo_of_jams`). In a program whose block types are
texts this takes a whole number that is too long for its text, which no run computes: it has to be
handed over in a block or among the variables (`Program.not_jams_of_sane`).
-/

namespace BlockProgram

open Relation Exec

namespace Node

/-- A frame that a node pushes, or has become one of these after some rounds. -/
def Pushes (n : Node) : Frame → Prop
  | .branch resume => n.is .ifElse = true ∧ resume = n.next
  | .times _ body resume => n.is .repeatTimes = true ∧ body = Program.loopBody n ∧ resume = n.next
  | .until condition body resume =>
    n.is .repeatUntil = true ∧ condition = n.input "until" ∧ body = Program.loopBody n ∧
      resume = n.next

/-- Whether a node pushes a frame. -/
def encloses (n : Node) : Bool := n.is .ifElse || n.is .repeatTimes || n.is .repeatUntil

variable {n : Node} {frame : Frame}

/-- What pushes a frame is one of the three constructs. -/
theorem Pushes.encloses (h : n.Pushes frame) : n.encloses = true := by
  rw [Node.encloses]
  cases frame with
  | branch => rw [h.1, Bool.true_or, Bool.true_or]
  | times => rw [h.1, Bool.or_true, Bool.true_or]
  | «until» => rw [h.1, Bool.or_true]

/-- A frame leads to the node after the construct, whichever of the three it is. -/
theorem Pushes.resume (h : n.Pushes frame) : frame.resume = n.next := by
  cases frame with
  | branch => exact h.2
  | times => exact h.2.2
  | «until» => exact h.2.2.2

end Node

namespace Program

variable {p : Program} {config : Config} {vars : Dict} {a b c : String} {owners : List String}
  {frame : Frame} {frames : List Frame}

/-- The node with an id pushes a frame. -/
def Pushes (p : Program) (id : String) (frame : Frame) : Prop :=
  ∃ n, p.node? id = some n ∧ n.Pushes frame

/-- One node is inside of another: it is reached through links from a branch of it. -/
def Inside (p : Program) (inner outer : String) : Prop :=
  ∃ n key head, p.node? outer = some n ∧ n.branch? key = some head ∧
    ReflTransGen p.Links head inner

/-- Every frame has its owner, and every owner, as well as the node that the run is at, is inside of
the owners further out. -/
structure Owned (p : Program) (owners : List String) (current : Option String)
    (frames : List Frame) : Prop where
  pushed : List.Forall₂ p.Pushes owners frames
  inside : (current.toList ++ owners).Pairwise p.Inside

/-! ## Inside of a node -/

/-- The head of a branch is inside. -/
theorem inside_branch {n : Node} (hn : p.node? a = some n) {key : String}
    (h : n.branch? key = some b) : p.Inside b a := ⟨n, key, b, hn, h, .refl⟩

/-- What a node inside is linked to is inside. -/
theorem Inside.links (h : p.Inside a c) (hlink : p.Links a b) : p.Inside b c := by
  obtain ⟨n, key, head, hn, hhead, hwalk⟩ := h
  exact ⟨n, key, head, hn, hhead, hwalk.tail hlink⟩

/-- So is what is reached from there through any number of links. -/
theorem Inside.walk (h : p.Inside a c) (hwalk : ReflTransGen p.Links a b) : p.Inside b c := by
  induction hwalk with
  | refl => exact h
  | tail _ hlink ih => exact ih.links hlink

/-- What is inside of an inner construct is inside of the outer one. -/
theorem Inside.trans (h : p.Inside a b) (h' : p.Inside b c) : p.Inside a c := by
  obtain ⟨n, key, head, hn, hhead, hwalk⟩ := h
  exact (h'.links (links_branch hn hhead)).walk hwalk

/-- What is inside of a node is further on. -/
theorem Inside.forward (h : p.Inside a b) : TransGen p.Links b a := by
  obtain ⟨n, key, head, hn, hhead, hwalk⟩ := h
  exact .head' (links_branch hn hhead) hwalk

/-- Wherever a run is, the owners are inside of each other. -/
theorem Owned.nowhere {current : Option String} (h : p.Owned owners current frames) :
    p.Owned owners none frames :=
  ⟨h.pushed, h.inside.sublist (List.sublist_append_right _ _)⟩

/-- **Owners are distinct.** -/
theorem Owned.nodup {current : Option String} (hp : p.Forward) (h : p.Owned owners current frames) :
    owners.Nodup := by
  refine h.nowhere.inside.imp fun hinside => ?_
  rintro rfl
  exact hp.acyclic _ hinside.forward

/-- Every owner pushes a frame. -/
theorem Owned.encloses {current : Option String} (h : p.Owned owners current frames) :
    owners ⊆ (p.nodes.filter Node.encloses).map (·.id) := by
  have hpushed := h.pushed
  clear h
  induction hpushed with
  | nil => exact List.nil_subset _
  | cons hpushes _ ih =>
    obtain ⟨n, hn, hpushes⟩ := hpushes
    refine List.cons_subset.2 ⟨List.mem_map.2 ⟨n, List.mem_filter.2 ?_, findNode?_id hn⟩, ih⟩
    exact ⟨mem_of_findNode? hn, hpushes.encloses⟩

/-- **There are not more frames than nodes that push one.** -/
theorem Owned.length_le {current : Option String} (hp : p.Forward)
    (h : p.Owned owners current frames) :
    frames.length ≤ p.nodes.countP Node.encloses := by
  have hle := (List.subperm_of_subset (h.nodup hp) h.encloses).length_le
  rwa [List.length_map, ← List.countP_eq_length_filter, h.pushed.length_eq] at hle

/-! ## Unwinding -/

/-- Leaving a construct is following a link of its owner. -/
theorem links_resume (h : p.Pushes a frame) (hresume : frame.resume = some b) : p.Links a b := by
  obtain ⟨n, hn, hpushes⟩ := h
  exact links_next hn (hpushes.resume.symm.trans hresume)

/-- The body of a loop is inside of it, whichever of its two branches the body is. -/
theorem inside_loopBody {n : Node} (hn : p.node? a = some n) (h : loopBody n = some b) :
    p.Inside b a := by
  rcases Option.or_eq_some_iff.1 h with hbody | ⟨-, htrue⟩
  · exact inside_branch hn hbody
  · exact inside_branch hn htrue

/-- The innermost construct is left for the node after it, if there is one. -/
theorem Owned.leave (h : p.Owned owners none (frame :: frames)) :
    p.Owned (owners.drop 1) frame.resume frames := by
  obtain ⟨hpushed, hinside⟩ := h
  cases hpushed with
  | cons hpushes hrest =>
    obtain ⟨howner, hothers⟩ := List.pairwise_cons.1 hinside
    refine ⟨hrest, ?_⟩
    rcases hresume : frame.resume with _ | next
    · exact hothers
    · exact List.pairwise_cons.2
        ⟨fun o ho => (howner o ho).links (links_resume hpushes hresume), hothers⟩

/-- The innermost construct goes into another round. -/
theorem Owned.round {frame' : Frame} {body : String} (h : p.Owned owners none (frame :: frames))
    (hround : ∀ n : Node, n.Pushes frame → n.Pushes frame' ∧ loopBody n = some body) :
    p.Owned owners (some body) (frame' :: frames) := by
  obtain ⟨hpushed, hinside⟩ := h
  cases hpushed with
  | cons hpushes hrest =>
    obtain ⟨n, hn, hpushes⟩ := hpushes
    obtain ⟨hpushes', hbody⟩ := hround n hpushes
    have hhead := inside_loopBody hn hbody
    refine ⟨.cons ⟨n, hn, hpushes'⟩ hrest, List.pairwise_cons.2 ⟨fun o ho => ?_, hinside⟩⟩
    rcases List.mem_cons.1 ho with rfl | ho
    · exact hhead
    · exact hhead.trans ((List.pairwise_cons.1 hinside).1 o ho)

/-- **Unwinding takes frames off from the inside.** The owners of those that are left are the last
ones, and what is found to go on at is inside of all of them. Where a condition has no value, it is
that of a loop further out, or the innermost frame is still there. -/
theorem owned_of_unwind {isTrue : Value → Except Fault Bool} {found : Except Fault (Option String)}
    {left : List Frame} (hu : unwind isTrue frames = (found, left))
    (h : p.Owned owners none frames) :
    ∃ k, left.length + k = frames.length ∧ p.Owned (owners.drop k) found.toOption.join left ∧
      ∀ fault, found = .error fault → k = 0 → ∃ condition body resume rest,
        frames = .until condition (some body) resume :: rest ∧ isTrue condition = .error fault := by
  -- nothing has failed where something is found
  have hfound {next : Option String} {P : Fault → Prop} (fault : Fault)
      (h : (.ok next : Except Fault (Option String)) = .error fault) : P fault := by
    cases h
  obtain ⟨removed, kept, hw⟩ := unwinds_of_unwind hu
  clear hu
  generalize hresult : (found, left) = result at hw
  induction hw generalizing owners with
  | ended =>
    cases hresult
    exact ⟨0, rfl, h, hfound⟩
  | out _ hresume =>
    cases hresult
    exact ⟨1, rfl, hresume ▸ h.leave, hfound⟩
  | further _ hresume _ ih =>
    obtain ⟨k, hlength, howned, -⟩ := ih (hresume ▸ h.leave) hresult
    rw [List.drop_drop, Nat.add_comm] at howned
    refine ⟨k + 1, ?_, howned, fun _ _ hk => absurd hk (Nat.succ_ne_zero k)⟩
    rw [List.length_cons, ← hlength, Nat.add_assoc]
  | round hgoes =>
    cases hresult
    refine ⟨0, rfl, ?_, hfound⟩
    rcases Frame.loop_of_goesOn hgoes with
      ⟨remaining, body, resume, rfl⟩ | ⟨condition, body, resume, rfl, -⟩
    · exact h.round fun n hn => ⟨hn, hn.2.1.symm⟩
    · exact h.round fun n hn => ⟨hn, hn.2.2.1.symm⟩
  | stuck hgoes =>
    cases hresult
    refine ⟨0, rfl, h.nowhere, fun fault' hfault _ => ?_⟩
    cases hfault
    obtain ⟨condition, body, resume, rfl, htest⟩ := Frame.until_of_goesOn hgoes
    exact ⟨condition, body, resume, _, rfl, htest⟩

/-! ## The account -/

/-- Who owns the frames after a step: the node that the run was at, if there is one frame more, and
otherwise the owners of those that are left. -/
def ownersAfter (s s' : State) (owners : List String) : List String :=
  if s.frames.length < s'.frames.length then s.current.toList ++ owners
  else owners.drop (s.frames.length - s'.frames.length)

/-- A run is at a loop whose frame it is about to push, and whose condition has no value. -/
def Jams (p : Program) (s : State) : Prop :=
  ∃ n fault, p.currentNode? s = some n ∧ n.is .repeatUntil = true ∧ (loopBody n).isSome = true ∧
    p.isTrue s.vars (n.input "until") = .error fault

/-- The frames after a step are owned by those that the account then has. -/
def OwnedAfter (p : Program) (owners : List String) (s s' : State) : Prop :=
  p.Owned (ownersAfter s s' owners) s'.current s'.frames

/-- A run is at a node, and its frames are owned. -/
structure OwnedAt (p : Program) (owners : List String) (n : Node) (s : State) : Prop where
  node : p.node? n.id = some n
  current : s.current = some n.id
  owned : p.Owned owners (some n.id) s.frames

variable {n : Node} {s s' : State} {m : Machine}

/-- Frames that are taken off lose the innermost owners. -/
theorem ownersAfter_left {k : Nat} (h : s'.frames.length + k = s.frames.length) :
    ownersAfter s s' owners = owners.drop k := by
  rw [ownersAfter, if_neg (by omega)]
  congr 1
  omega

/-- With a frame pushed, the node that the run was at comes first, and is lost again with that
frame. -/
theorem ownersAfter_entered {k : Nat} (hcurrent : s.current = some a)
    (h : s'.frames.length + k = s.frames.length + 1) :
    ownersAfter s s' owners = (a :: owners).drop k := by
  cases k with
  | zero =>
    rw [ownersAfter, if_pos (by omega), hcurrent]
    rfl
  | succ k => exact ownersAfter_left (by omega)

/-- Frames that stay as they are keep their owners. -/
theorem ownedAfter_self (h : p.Owned owners s.current s.frames) : p.OwnedAfter owners s s := by
  have howners : ownersAfter s s owners = owners := ownersAfter_left (k := 0) rfl
  rwa [OwnedAfter, howners]

/-- Ending a run leaves its frames and their owners. -/
theorem OwnedAfter.ended (h : p.OwnedAfter owners s s') (reason : HaltReason) :
    p.OwnedAfter owners s (s'.ended reason) :=
  Owned.nowhere h

namespace OwnedAt

variable (h : p.OwnedAt owners n s)
include h

/-- A step that changes neither the place nor the frames keeps the account. -/
theorem kept : p.OwnedAfter owners s s := ownedAfter_self (h.current ▸ h.owned)

theorem within (w : World) : p.OwnedAt owners n (s.within w) := ⟨h.node, h.current, h.owned⟩

/-- The node is inside of all owners. -/
theorem inside : ∀ o ∈ owners, p.Inside n.id o := (List.pairwise_cons.1 h.owned.inside).1

/-- With a frame that the node has pushed it is the innermost owner. -/
theorem entered (hpushes : n.Pushes frame) :
    p.Owned (n.id :: owners) none (frame :: s.frames) :=
  ⟨.cons ⟨n, h.node, hpushes⟩ h.owned.pushed, h.owned.inside⟩

/-- A run that stays at the node keeps some of the owners. -/
theorem stayed {k : Nat} (hleft : p.Owned (owners.drop k) none frames) :
    p.Owned (owners.drop k) (some n.id) frames :=
  ⟨hleft.pushed, List.pairwise_cons.2
    ⟨fun o ho => h.inside o (List.mem_of_mem_drop ho), hleft.inside⟩⟩

end OwnedAt

/-! ## Going on -/

/-- Going on at a node inside of all owners, or in the construct around. Where a condition has no
value, the run stays at its node with the frames that are left. -/
theorem leaves_goOn_owned {next : Option String} (h : p.Owned owners none m.state.frames)
    (hnext : ∀ b, next = some b → ∀ o ∈ owners, p.Inside b o) :
    Leaves
      (fun s => ∃ k, s.frames.length + k = m.state.frames.length ∧
        p.Owned (owners.drop k) s.current s.frames)
      (fun s => ∃ k, s.frames.length + k = m.state.frames.length ∧
        p.Owned (owners.drop k) none s.frames ∧ s.current = m.state.current ∧
        (k = 0 → ∃ fault condition body resume rest,
          m.state.frames = .until condition (some body) resume :: rest ∧
          p.isTrue m.state.vars condition = .error fault))
      (p.goOn next) m := by
  rcases next with _ | b
  · simp only [Leaves, goOn, resume]
    rcases hu : unwind (p.isTrue m.state.vars) m.state.frames with ⟨fault | found, left⟩ <;>
      obtain ⟨k, hlength, howned, hstuck⟩ := owned_of_unwind hu h
    · exact ⟨k, hlength, howned, rfl, fun hk => ⟨fault, hstuck fault rfl hk⟩⟩
    · exact ⟨k, hlength, howned⟩
  · exact ⟨0, rfl, h.pushed, List.pairwise_cons.2 ⟨hnext b rfl, h.inside⟩⟩

/-- Going on behind a node. -/
theorem leaves_next (h : p.OwnedAt owners n m.state) :
    Leaves (p.OwnedAfter owners m.state) (p.OwnedAfter owners m.state) (p.goOn n.next) m := by
  refine (leaves_goOn_owned h.owned.nowhere fun b hb o ho => ?_).imp
    (fun s' hleft => ?_) fun s' hleft => ?_
  · exact (h.inside o ho).links (links_next h.node hb)
  · obtain ⟨k, hlength, howned⟩ := hleft
    rwa [OwnedAfter, ownersAfter_left hlength]
  · obtain ⟨k, hlength, howned, hcurrent, -⟩ := hleft
    rw [OwnedAfter, ownersAfter_left hlength, hcurrent, h.current]
    exact h.stayed howned

/-- Going on in a construct that has been entered, at one of its branches or as after a finished
round of it. Its frame is there until it is left, and a condition that has no value is not its
own. -/
theorem leaves_entered (next : Option String) (h : p.OwnedAt owners n s)
    (hpushes : n.Pushes frame) (hframes : m.state.frames = frame :: s.frames)
    (hcurrent : m.state.current = s.current)
    (hnext : ∀ b, next = some b → p.Inside b n.id)
    (hvalue : ∀ fault condition body resume, frame = .until condition (some body) resume →
      p.isTrue m.state.vars condition ≠ .error fault) :
    Leaves (p.OwnedAfter owners s) (p.OwnedAfter owners s) (p.goOn next) m := by
  have howned : p.Owned (n.id :: owners) none m.state.frames := hframes ▸ h.entered hpushes
  have hlonger : m.state.frames.length = s.frames.length + 1 := congrArg List.length hframes
  refine (leaves_goOn_owned howned fun b hb o ho => ?_).imp (fun s' hleft => ?_) fun s' hleft => ?_
  · rcases List.mem_cons.1 ho with rfl | ho
    · exact hnext b hb
    · exact (hnext b hb).trans (h.inside o ho)
  · obtain ⟨k, hlength, howned⟩ := hleft
    rwa [OwnedAfter, ownersAfter_entered h.current (hlength.trans hlonger)]
  · obtain ⟨k, hlength, howned, hstays, hstuck⟩ := hleft
    rw [OwnedAfter, ownersAfter_entered h.current (hlength.trans hlonger), hstays, hcurrent,
      h.current]
    cases k with
    | zero =>
      obtain ⟨fault, condition, body, resume, rest, htop, herror⟩ := hstuck rfl
      rw [hframes] at htop
      exact absurd herror (hvalue fault condition body resume (List.cons.inj htop).1)
    | succ k => exact h.stayed howned

/-! ## Executing a node -/

/-- Ending a run keeps the account, also where it was over before. -/
theorem leaves_halt_owned (h : p.OwnedAfter owners s m.state) (reason : HaltReason) :
    Leaves (p.OwnedAfter owners s) (p.OwnedAfter owners s) (halt reason) m := by
  rcases hhalted : m.state.halted with _ | _
  · exact .of_does (does_halt reason hhalted) (h.ended reason)
  · simp only [Leaves]
    rw [halt_apply_of_halted hhalted]
    exact h

/-- An effect changes no frames, so only going on after it counts. -/
theorem leaves_effect_owned (h : p.OwnedAt owners n m.state) (statement : Statement) :
    Leaves (p.OwnedAfter owners m.state) (p.OwnedAfter owners m.state)
      (do p.effect n statement; p.goOn n.next) m := by
  rcases heffect : p.effectOn n statement m.state.world with fault | w
  · obtain ⟨w, log, hm⟩ := p.effect_error n heffect
    simp only [Leaves]
    rw [bind_error hm]
    exact (h.within w).kept
  · obtain ⟨log, hm⟩ := p.effect_ok n heffect
    exact .after hm (leaves_next (h.within w))

/-- A wait stays at its node, or goes on if it is over at once. -/
theorem leaves_beginWait_owned (h : p.OwnedAt owners n m.state) :
    Leaves (p.OwnedAfter owners m.state) (p.OwnedAfter owners m.state) (p.beginWait config n) m := by
  refine .reading (p.numberAt_apply n "seconds" m) h.kept fun seconds _ => ?_
  refine .reading (lift_apply _ m) h.kept fun seconds _ => ?_
  refine .reading (lift_apply _ m) h.kept fun ticks _ => .after (modify_apply _ m) ?_
  split
  · exact leaves_next h
  · exact h.kept

/-- **Executing a node keeps the account**, unless its condition has no value. -/
theorem leaves_execute_owned (h : p.OwnedAt owners n m.state) (hjams : ¬ p.Jams m.state) :
    Leaves (p.OwnedAfter owners m.state) (p.OwnedAfter owners m.state) (p.execute config n) m := by
  refine .reading (lift_apply _ m) h.kept fun statement hstatement => ?_
  rcases statement with _ | statement
  · exact leaves_next h
  have heffect := leaves_effect_owned h statement
  cases statement with
  | stop => exact leaves_halt_owned h.kept .stopBlock
  | wait => exact leaves_beginWait_owned h
  | ifElse =>
    have hpushes : n.Pushes (.branch n.next) :=
      ⟨(Node.ofType?_eq_some (by decide)).1 hstatement, rfl⟩
    refine .reading (p.slot_apply n "condition" m) h.kept fun condition _ => ?_
    refine .after (modifyState_apply _ m) (leaves_entered _ h hpushes rfl rfl ?_ nofun)
    exact fun b => inside_branch h.node
  | repeatTimes =>
    refine .reading (p.numberAt_apply n "times" m) h.kept fun times _ => ?_
    have hpushes : n.Pushes (.times (times.floor?.getD 0).toNat (loopBody n) n.next) :=
      ⟨(Node.ofType?_eq_some (by decide)).1 hstatement, rfl, rfl⟩
    refine .after (modifyState_apply _ m) ?_
    exact leaves_entered none h hpushes rfl rfl nofun nofun
  | repeatUntil =>
    have his : n.is .repeatUntil = true := (Node.ofType?_eq_some (by decide)).1 hstatement
    have hpushes : n.Pushes (.until (n.input "until") (loopBody n) n.next) := ⟨his, rfl, rfl, rfl⟩
    refine .after (modifyState_apply _ m) ?_
    refine leaves_entered none h hpushes rfl rfl nofun ?_
    intro fault condition body resume htop hvalue
    obtain ⟨hcondition, hbody, -⟩ := Frame.until.inj htop
    have hnode : p.currentNode? m.state = some n := by
      rw [currentNode?, h.current]
      exact h.node
    exact hjams ⟨n, fault, hnode, his, by rw [hbody]; rfl, hcondition ▸ hvalue⟩
  | _ => exact heffect

/-! ## Steps -/

/-- Settling can only end the run. -/
theorem leaves_settle_owned (h : p.OwnedAfter owners s m.state) :
    Leaves (p.OwnedAfter owners s) (p.OwnedAfter owners s) settle m := by
  refine .after (getState_apply m) ?_
  split
  · exact .andThen (leaves_halt_owned h .endOfProgram) fun _ m' hm' => hm'
  · exact h

/-- A visit keeps the account unless its node jams. -/
theorem leaves_visit_owned (h : p.OwnedAt owners n m.state) (hjams : ¬ p.Jams m.state) :
    Leaves (p.OwnedAfter owners m.state) (p.OwnedAfter owners m.state) (p.visit config n) m := by
  -- whatever is printed and reported in front, the node is executed in the same state
  have hrest (m₀ : Machine) (h₀ : m₀.state = m.state) :
      Leaves (p.OwnedAfter owners m.state) (p.OwnedAfter owners m.state) (do
        p.execute config n
        let s ← getState
        if s.waiting.isSome then return ⟨false, true⟩ else settle) m₀ := by
    rw [← h₀] at h hjams ⊢
    refine .andThen (leaves_execute_owned h hjams) fun _ m' hm' => .after (getState_apply m') ?_
    split
    · exact hm'
    · exact leaves_settle_owned hm'
  refine .after (modify_apply _ m) ?_
  split
  · exact .after (getState_apply _) (.after (modify_apply _ _) (hrest _ rfl))
  · exact hrest _ rfl

/-- A tick stays at its node or, if it is the last one, goes on behind it. -/
theorem leaves_tick_owned {w : Waiting} (hw : w.node = n.id) (h : p.OwnedAt owners n m.state) :
    Leaves (p.OwnedAfter owners m.state) (p.OwnedAfter owners m.state) (p.tick w) m := by
  refine .after (modify_apply _ m) (.after (modify_apply _ _) ?_)
  split
  · exact .after (modifyState_apply _ _) h.kept
  · have hnext : (p.node? w.node).bind (·.next) = n.next := by rw [hw, h.node]; rfl
    have hgoing : p.OwnedAt owners n { m.state with waiting := none } :=
      ⟨h.node, h.current, h.owned⟩
    refine .after (modifyState_apply _ _) (.andThen ?_ fun _ m' hm' => leaves_settle_owned hm')
    rw [hnext]
    exact leaves_next hgoing

/-- **A step keeps the account**, also one that fails, unless the run is at a loop whose condition
has no value. -/
theorem leaves_step_owned (hplace : p.Lasting config m.state)
    (h : p.Owned owners m.state.current m.state.frames) (hjams : ¬ p.Jams m.state) :
    Leaves (p.OwnedAfter owners m.state) (p.OwnedAfter owners m.state) (p.step config) m := by
  have hkept : p.OwnedAfter owners m.state m.state := ownedAfter_self h
  have hat {n : Node} (hn : p.Going config n { counted m.state with waiting := none }) :
      p.OwnedAt owners n (counted m.state) := by
    have hcurrent : m.state.current = some n.id := hn.current
    exact ⟨hn.node, hcurrent, hcurrent ▸ h⟩
  obtain ⟨-, hstep⟩ | ⟨-, reason, -, hstep⟩ |
    ⟨-, n, hn, ⟨-, hstep⟩ | ⟨w, -, hwait, hstep⟩⟩ := step_cases hplace
  · exact .of_eq hstep hkept
  · refine .of_eq hstep (.andThen (leaves_halt_owned (m := m.withoutLast) hkept reason) ?_)
    exact fun _ _ hm' => hm'
  · exact .of_eq hstep (leaves_visit_owned (hat hn) hjams)
  · exact .of_eq hstep (leaves_tick_owned hwait (hat hn))

/-! ## Runs -/

section Runs

variable (p config)

/-- A machine that steps have led to, with the owners of its frames. A step may have failed, but was
not taken at a loop whose condition has no value; and running out of a budget may have ended the
run. -/
inductive PushedBy (vars : Dict) : List String → Machine → Prop
  | start : PushedBy vars [] (.start p config vars)
  | step {owners : List String} {m : Machine} : PushedBy vars owners m → ¬ p.Jams m.state →
    PushedBy vars (ownersAfter m.state (p.step config m).2.state owners) (p.step config m).2
  | cutOff {owners : List String} {m : Machine} : PushedBy vars owners m →
    PushedBy vars owners (halt .stepLimit m).2

/-- A call none of whose steps is taken at a loop whose condition has no value. -/
def Unjammed (c : Call) (m : Machine) : Prop :=
  ∀ k < c.steps config, ∀ m', p.StepsIn config k m m' → ¬ p.Jams m'.state

/-- A machine that such calls have led to from the start of a run, whatever came of each of them. -/
def CalledUnjammed (vars : Dict) : Machine → Prop :=
  ReflTransGen (fun m m' => ∃ c, (p.call config c m).2 = m' ∧ p.Unjammed config c m)
    (.start p config vars)

end Runs

variable {vars : Dict}

/-- **The account is right at any time.** -/
theorem owned_of_pushedBy (hp : p.Closed) (h : p.PushedBy config vars owners m) :
    p.Lasting config m.state ∧ p.Owned owners m.state.current m.state.frames := by
  induction h with
  | start =>
    refine ⟨lasting_start hp config vars, .nil, ?_⟩
    show (p.entry.toList ++ []).Pairwise p.Inside
    rcases p.entry with _ | id
    · exact .nil
    · exact List.pairwise_singleton _ _
  | @step owners m _ hjams ih =>
    obtain ⟨hplace, howned⟩ := ih
    have hleaves := leaves_step_owned hplace howned hjams
    refine ⟨keeps_lasting_step hp m hplace, ?_⟩
    simp only [Leaves] at hleaves
    rcases hrun : p.step config m with ⟨fault | r, m'⟩ <;> rwa [hrun] at hleaves
  | @cutOff owners m _ ih =>
    obtain ⟨hplace, howned⟩ := ih
    refine ⟨keeps_lasting_halt m hplace, ?_⟩
    rcases hhalted : m.state.halted with _ | _
    · obtain ⟨⟨⟩, m', hm, hended⟩ := does_halt .stepLimit hhalted
      rw [hm, hended]
      exact howned.nowhere
    · rw [halt_apply_of_halted hhalted]
      exact howned

/-- The steps of a budget are in the account. -/
theorem exists_pushedBy_runFor {budget : Nat} (h : p.PushedBy config vars owners m)
    (hfree : ∀ k < budget, ∀ m', p.StepsIn config k m m' → ¬ p.Jams m'.state) :
    ∃ owners', p.PushedBy config vars owners' (p.runFor config budget m).2 := by
  induction budget generalizing owners m with
  | zero => exact ⟨owners, h⟩
  | succ budget ih =>
    have hnext := h.step (hfree 0 (Nat.succ_pos _) m .none)
    simp only [runFor]
    split
    · exact ⟨owners, h⟩
    · rcases hstep : p.step config m with ⟨fault | r, m'⟩ <;> rw [hstep] at hnext
      · exact ⟨_, hnext⟩
      · refine ih hnext fun k hk m'' hsteps => ?_
        exact hfree (k + 1) (Nat.succ_lt_succ hk) m'' (.more ⟨r, hstep⟩ hsteps)

/-- What a host finds after a step. -/
theorem call_step : (p.call config .step m).2 = (p.step config m).2 := by
  show ((p.step config >>= fun _ => pure ()) m).2 = _
  rw [bind_apply]
  rcases p.step config m with ⟨fault | r, m'⟩ <;> rfl

/-- A call is in the account, also one that fails. -/
theorem exists_pushedBy_call {c : Call} (h : p.PushedBy config vars owners m)
    (hfree : p.Unjammed config c m) :
    ∃ owners', p.PushedBy config vars owners' (p.call config c m).2 := by
  have hrun (budget : Option Int) (hfree : p.Unjammed config (.run budget) m) :
      ∃ owners', p.PushedBy config vars owners' (p.call config (.run budget) m).2 := by
    obtain ⟨owners', hsteps⟩ : ∃ owners', p.PushedBy config vars owners'
        (p.runFor config (budgetSteps config budget) m).2 := exists_pushedBy_runFor h hfree
    show ∃ owners', p.PushedBy config vars owners' (p.run config budget m).2
    rw [run, bind_apply]
    rcases hrun : p.runFor config (budgetSteps config budget) m with ⟨fault | ⟨⟩, m'⟩ <;>
      rw [hrun] at hsteps
    · exact ⟨owners', hsteps⟩
    · exact ⟨owners', hsteps.cutOff⟩
  cases c with
  | step =>
    have hstep := h.step (hfree 0 Nat.one_pos m .none)
    rw [call_step]
    exact ⟨_, hstep⟩
  | run budget => exact hrun budget hfree
  | trace budget =>
    rw [call_trace]
    exact hrun budget hfree

/-- **Calls are steps**, so their frames have owners as well. -/
theorem exists_pushedBy (h : p.CalledUnjammed config vars m) :
    ∃ owners, p.PushedBy config vars owners m := by
  induction h with
  | refl => exact ⟨[], .start⟩
  | tail _ hcall ih =>
    obtain ⟨c, rfl, hfree⟩ := hcall
    obtain ⟨owners, howners⟩ := ih
    exact exists_pushedBy_call howners hfree

/-- Where the types of all nodes are texts and no number is too long for its text, every condition
has a value. -/
theorem not_jams_of_sane (h : ∀ n ∈ p.nodes, n.Typed ∧ n.Writable)
    (hs : ∀ entry ∈ s.vars, entry.2.Writable) : ¬ p.Jams s := by
  rintro ⟨n, fault, -, -, -, herror⟩
  have hvalue := unlessLong_isTrue (fun n hn => (h n hn).1) s.vars (n.input "until")
  obtain ⟨answer, hanswer, -⟩ := hvalue.exists_ok ⟨hs, fun n hn => (h n hn).2⟩
  rw [hanswer] at herror
  cases herror

/-- Numbers do not get too long on the way, so this holds of every step. -/
theorem calledUnjammed_of_sane (h : ∀ n ∈ p.nodes, n.Typed ∧ n.Writable)
    (hvars : ∀ entry ∈ vars, entry.2.Writable) (hm : p.CalledTo config vars m) :
    p.CalledUnjammed config vars m := by
  have hstoring := storing_writable (fun n hn => (h n hn).1) fun n hn => (h n hn).2
  induction hm with
  | refl => exact .refl
  | tail hcalled hcall ih =>
    obtain ⟨c, hc⟩ := hcall
    refine .tail ih ⟨c, hc, fun k _ m' hsteps => not_jams_of_sane h ?_⟩
    have hsane := sane_of_calledTo hstoring trivial hvars hcalled
    exact (sane_of_stepsIn hstoring hsane hsteps).vars

/-- **Frames do not pile up.** In every compiled program and from any variables, after any calls that
took no step at a loop whose condition has no value, failed ones included: every frame was pushed by
a node of its own that is inside of those that have pushed the frames further out, so there are at
most as many frames as nodes that push one. If all types are texts and no whole number is handed over
that is too long for its text, those are all calls. -/
theorem owned_of_called {source : Source} (hsource : source.Drawn)
    (hcompile : source.compile = .ok p) (config : Config) (vars : Dict) :
    (∀ m, p.CalledUnjammed config vars m → ∃ owners, p.PushedBy config vars owners m ∧
      p.Owned owners m.state.current m.state.frames ∧ owners.Nodup ∧
      m.state.frames.length ≤ p.nodes.countP Node.encloses) ∧
    ((∀ n ∈ p.nodes, n.Typed ∧ n.Writable) → (∀ entry ∈ vars, entry.2.Writable) →
      ∀ m, p.CalledTo config vars m → p.CalledUnjammed config vars m) := by
  have hp := forward_of_compile hsource hcompile
  refine ⟨fun m hm => ?_, fun hnodes hvars m => calledUnjammed_of_sane hnodes hvars⟩
  obtain ⟨owners, hpushed⟩ := exists_pushedBy hm
  obtain ⟨-, howned⟩ := owned_of_pushedBy hp.toClosed hpushed
  exact ⟨owners, hpushed, howned, howned.nodup hp, howned.length_le hp⟩

/-- A loop, a branch in it, and a loop in that. -/
def nestedGraph : ProgramGraph where
  blocks := [
    { id := "o", type := .str "repeat_times", inputs := .dict [(.str "times", .int 2)] },
    { id := "i", type := .str "if_else", inputs := .dict [(.str "condition", .bool true)] },
    { id := "u", type := .str "repeat_until", inputs := .dict [(.str "until", .bool false)] },
    { id := "c", type := .str "clear" }]
  edges := [.toBranch "o" (some "body") "i", .toBranch "i" (some "true") "u",
    .toBranch "u" (some "body") "c"]

/-- What it is compiled to. -/
def nested : Program where
  nodes := [
    { id := "o", type := .str "repeat_times", inputs := [(.str "times", .int 2)],
      branches := [("body", "i")] },
    { id := "i", type := .str "if_else", inputs := [(.str "condition", .bool true)],
      branches := [("true", "u")] },
    { id := "u", type := .str "repeat_until", inputs := [(.str "until", .bool false)],
      branches := [("body", "c")] },
    { id := "c", type := .str "clear" }]
  roots := ["o", "i", "u", "c"]
  entry := some "o"

/-- Three steps into it. -/
def nestedInside : Machine :=
  (nested.call {} .step (nested.call {} .step (nested.call {} .step (.start nested {} [])).2).2).2

/-- Inside of all three constructs there are as many frames as there can be. -/
theorem owned_nested :
    (∃ owners, nested.PushedBy {} [] owners nestedInside ∧
      nested.Owned owners nestedInside.state.current nestedInside.state.frames ∧ owners.Nodup ∧
      nestedInside.state.frames.length ≤ nested.nodes.countP Node.encloses) ∧
    nestedInside.state.current = some "c" ∧ nestedInside.state.frames.length = 3 ∧
    nested.nodes.countP Node.encloses = 3 := by
  have hcompile : (Source.graph nestedGraph).compile = .ok nested := by
    with_unfolding_all rfl
  have hnodes : ∀ n ∈ nested.nodes, n.Typed ∧ n.Writable := by
    intro n hn
    simp only [nested, List.mem_cons, List.not_mem_nil, or_false] at hn
    rcases hn with rfl | rfl | rfl | rfl <;> exact ⟨⟨_, rfl⟩, by decide +kernel⟩
  have hcalled : nested.CalledTo {} [] nestedInside :=
    .tail (.tail (.tail .refl ⟨.step, rfl⟩) ⟨.step, rfl⟩) ⟨.step, rfl⟩
  have hdrawn : (Source.graph nestedGraph).Drawn := trivial
  obtain ⟨howned, hfree⟩ := owned_of_called hdrawn hcompile {} []
  have hunjammed := hfree hnodes (fun _ hentry => absurd hentry List.not_mem_nil) _ hcalled
  exact ⟨howned _ hunjammed, by decide +kernel, by decide +kernel, by decide +kernel⟩

/-! ## Jammed loops -/

/-- A loop that jams pushes its frame and stays where it is. -/
theorem leaves_execute_jams {n : Node} (hn : p.currentNode? m.state = some n)
    (hjams : p.Jams m.state) :
    Leaves (fun _ => False) (fun s => ∃ frame, s = { m.state with frames := frame :: m.state.frames })
      (p.execute config n) m := by
  obtain ⟨n', fault, hn', his, hbody, herror⟩ := hjams
  obtain rfl : n = n' := Option.some.inj (hn.symm.trans hn')
  obtain ⟨body, hbody⟩ := Option.isSome_iff_exists.1 hbody
  have hstatement : Statement.ofType? n.type = .ok (some .repeatUntil) :=
    (Node.ofType?_eq_some (by decide)).2 his
  refine .after (by rw [lift_apply, hstatement]) (.after (modifyState_apply _ m) ?_)
  simp only [Leaves, resume, hbody, unwind, herror]
  exact ⟨_, rfl⟩

/-- **A step at a loop that jams fails**, counted and with the frame pushed. -/
theorem leaves_step_jams (hjams : p.Jams m.state) (hlive : m.state.halted = false)
    (hwaiting : m.state.waiting = none) (hsteps : (m.state.steps : Int) < config.maxSteps) :
    Leaves (fun _ => False)
      (fun s => ∃ frame, s = { counted m.state with frames := frame :: m.state.frames })
      (p.step config) m := by
  obtain ⟨n, -, hn, -⟩ := id hjams
  have hcurrent : m.state.current.isNone = false := by
    obtain ⟨id, hid, -⟩ := Option.bind_eq_some_iff.1 hn
    rw [hid]
    rfl
  rw [step]
  refine .after (modify_apply _ m) (.after (getState_apply _) ?_)
  rw [if_neg (by simp [hlive]), if_neg (by simp [hcurrent]), if_neg (Int.not_le.2 hsteps), hwaiting, hn]
  -- the node is executed in the state of the counted step
  have hrest (m₀ : Machine) (h₀ : m₀.state = counted m.state) :
      Leaves (fun _ => False)
        (fun s => ∃ frame, s = { counted m.state with frames := frame :: m.state.frames }) (do
          p.execute config n
          let s ← getState
          if s.waiting.isSome then return ⟨false, true⟩ else settle) m₀ := by
    have hjams₀ : p.Jams m₀.state := by rw [h₀]; exact hjams
    have hexecute := @leaves_execute_jams _ config _ _ (by rw [h₀]; exact hn) hjams₀
    rw [h₀] at hexecute
    exact .andThen hexecute fun _ _ hnever => hnever.elim
  refine .after (modifyState_apply _ _) (.after (modify_apply _ _) ?_)
  split
  · exact .after (getState_apply _) (.after (modify_apply _ _) (hrest _ rfl))
  · exact hrest _ rfl

/-- **Every step at a loop that jams leaves one frame more**, as far as the step limit allows. -/
theorem exists_calledTo_of_jams {k : Nat} (h : p.CalledTo config vars m) (hjams : p.Jams m.state)
    (hlive : m.state.halted = false) (hwaiting : m.state.waiting = none)
    (hsteps : (m.state.steps + k : Int) ≤ config.maxSteps) :
    ∃ m', p.CalledTo config vars m' ∧ m'.state.frames.length = m.state.frames.length + k := by
  induction k generalizing m with
  | zero => exact ⟨m, h, rfl⟩
  | succ k ih =>
    have hroom : (m.state.steps : Int) < config.maxSteps := by omega
    have hstep := leaves_step_jams hjams hlive hwaiting hroom
    obtain ⟨frame, hm'⟩ : ∃ frame, (p.call config .step m).2.state =
        { counted m.state with frames := frame :: m.state.frames } := by
      simp only [Leaves] at hstep
      rw [call_step]
      rcases hrun : p.step config m with ⟨fault | r, m'⟩ <;> rw [hrun] at hstep
      · exact hstep
      · exact hstep.elim
    obtain ⟨m', hcalled, hlength⟩ := ih (h.tail ⟨.step, rfl⟩) (by rw [hm']; exact hjams)
      (by rw [hm']; exact hlive) (by rw [hm']; exact hwaiting)
      (by rw [hm']; simp only [counted]; omega)
    refine ⟨m', hcalled, ?_⟩
    rw [hlength, hm', List.length_cons]
    omega

/-- A loop until a variable is the empty text. -/
def untilEmptyGraph : ProgramGraph where
  blocks := [
    { id := "r", type := .str "repeat_until" },
    { id := "e", type := .str "eq_operator", inputs := .dict [(.str "b", .str "")] },
    { id := "v", type := .str "variable", inputs := .dict [(.str "name", .str "n")] },
    { id := "b", type := .str "clear" }]
  edges := [.toInput "r" (some "until") "e", .toInput "e" (some "a") "v",
    .toBranch "r" (some "body") "b"]

/-- What that is compiled to. -/
def untilEmpty : Program where
  nodes := [
    { id := "r", type := .str "repeat_until", inputs := [(.str "until", .ref "e")],
      branches := [("body", "b")] },
    { id := "e", type := .str "eq_operator", inputs := [(.str "b", .str ""), (.str "a", .ref "v")] },
    { id := "v", type := .str "variable", inputs := [(.str "name", .str "n")] },
    { id := "b", type := .str "clear" }]
  roots := ["r", "e", "v", "b"]
  entry := some "r"

/-- Comparing a number with the empty text needs its text. -/
theorem jams_untilEmpty {k : Int} (hk : ¬ (Value.int k).Writable) :
    untilEmpty.Jams (Machine.start untilEmpty {} [(.str "n", .int k)]).state := by
  let vars : Dict := [(.str "n", .int k)]
  have hv : evaluateIdle vars (without untilEmpty.nodes "e") (.ref "v") = .ok (.int k) :=
    @evaluateIdle_variable _ "v" "n" untilEmpty.nodes[2] rfl rfl rfl vars
  have hequal : (Value.int k).looselyEqual (.str "") = .error .tooManyDigits := by
    have hempty : (Value.str "").comparable? = none := rfl
    have htext : (Value.int k).toText = .error .tooManyDigits := if_neg hk
    rw [Value.looselyEqual, hempty, htext]
    cases (Value.int k).comparable? <;> rfl
  have he : untilEmpty.evaluate vars (.ref "e") = .error .tooManyDigits := by
    have htype : untilEmpty.nodes[1].type = .str (Reporter.typeName .eq) := rfl
    have ha : untilEmpty.nodes[1].input "a" = .ref "v" := rfl
    have hb : untilEmpty.nodes[1].input "b" = .str "" := rfl
    rw [evaluate, @evaluateIdle_ref _ _ _ untilEmpty.nodes[1] rfl, htype, Reporter.ofType?_typeName]
    simp only [ha, hb, hv, evaluateIdle_str, Reporter.apply, hequal]
    rfl
  refine ⟨untilEmpty.nodes[0], .tooManyDigits, rfl, by decide +kernel, rfl, ?_⟩
  show (untilEmpty.evaluate vars (.ref "e")).map Value.truthy = .error .tooManyDigits
  rw [he]
  rfl

/-- A loop until a reporter is true. -/
def untilVariable : Workspace where
  blocks := [
    { id := "r", type := .str "repeat_until", inputs := .dict [(.str "until", .str "")] },
    { id := "v", type := .str "variable", inputs := .dict [(.str "name", .str "n")] },
    { id := "b", type := .str "clear" }]
  edges := [.toInput "r" (some "until") "v", .toBranch "r" (some "body") "b"]

/-- The type of the reporter is set to a list, which is not the type of anything. -/
def untilRetyped : Workspace :=
  ((Request.updateBlock (.str "v") (.dict [(.str "type", .list [])])).perform untilVariable).2

/-- What that is compiled to. -/
def jammed : Program where
  nodes := [
    { id := "r", type := .str "repeat_until", inputs := [(.str "until", .ref "v")],
      branches := [("body", "b")] },
    { id := "v", type := .list [], inputs := [(.str "name", .str "n")] },
    { id := "b", type := .str "clear" }]
  roots := ["r", "v", "b"]
  entry := some "r"

/-- Two steps, both of which fail. -/
def jammedTwice : Machine :=
  (jammed.call {} .step (jammed.call {} .step (.start jammed {} [])).2).2

/-- **A loop that jams pushes its frame again and again**: one whose condition compares a number that
is too long for its text, and one whose condition is of no type at all. -/
theorem frames_jammed :
    ((Source.graph untilEmptyGraph).compile = .ok untilEmpty ∧ (∀ n ∈ untilEmpty.nodes, n.Typed) ∧
      ∃ m, untilEmpty.CalledTo {} [(.str "n", .int (10 ^ Decimal.maxIntDigits))] m ∧
        ¬ m.state.frames.length ≤ untilEmpty.nodes.countP Node.encloses) ∧
    Workspace.Reachable untilRetyped ∧
      (Source.workspace untilRetyped).compile = .ok jammed ∧ jammed.CalledTo {} [] jammedTwice ∧
      ¬ jammedTwice.state.frames.length ≤ jammed.nodes.countP Node.encloses := by
  have hgraph : Workspace.ofGraph untilVariable.snapshot = .ok untilVariable := by
    with_unfolding_all rfl
  refine ⟨⟨by with_unfolding_all rfl, fun n hn => ?_, ?_⟩,
    .asked (.drawn 0 hgraph) trivial, by with_unfolding_all rfl, ?_, by decide +kernel⟩
  · simp only [untilEmpty, List.mem_cons, List.not_mem_nil, or_false] at hn
    rcases hn with rfl | rfl | rfl | rfl <;> exact ⟨_, rfl⟩
  · have hjams := jams_untilEmpty (Value.not_writable_pow (Nat.le_refl Decimal.maxIntDigits))
    have hroom : (0 + (2 : Nat) : Int) ≤ Config.maxSteps {} := by decide
    obtain ⟨m, hcalled, hlength⟩ := exists_calledTo_of_jams .refl hjams rfl rfl hroom
    exact ⟨m, hcalled, by rw [hlength]; decide⟩
  · exact .tail (.tail .refl ⟨.step, rfl⟩) ⟨.step, rfl⟩

end Program

end BlockProgram
