import BlockProgram.Proofs.Program.Links
import BlockProgram.Proofs.Run.Ceiling

/-!
# Programs that count their rounds finish

A program without a `wait` and without a `repeat_until` comes to an end of its own, or fails, within
some number of steps, whatever the variables (`Program.run_finishes`). How many rounds a loop has is
only known when it is entered, as the loops around it may change what it reads; and a body may be
shared between several constructs. So the steps are not counted in advance. Instead:

* `Program.Finishes` says of a state that the steps from it on come to an end, and `Program.Passable`
  of a link that a run which goes on there, in any world and inside of any constructs, finishes if it
  does once what hangs on the link has run out;
* leaving a construct, or going into another round of one, is passable where its links are
  (`Program.proceeds_left`, and `Program.proceeds_times` by induction on the rounds that are left);
* links only lead forward, so every link is passable by induction on the nodes
  (`Program.passable_of_leads`).
-/

namespace BlockProgram

/-- A node that neither waits nor is a loop with a condition. -/
def Node.Bounded (n : Node) : Prop := n.is .wait = false ∧ n.is .repeatUntil = false

namespace Program

variable {p : Program} {config : Config} {limit : Int} {n : Node} {w w' : World} {s s' : State}
  {next : Option String} {frames : List Frame}

/-! ## What nodes ask for that are done with in one step -/

/-- What a node asks for that neither waits nor is a loop with a condition. -/
inductive Counted (n : Node) : Plan → Prop
  | stop : Counted n .stop
  | next : Counted n (.goOn n.next [])
  | branch (key : String) : Counted n (.goOn (n.branch? key) [.branch n.next])
  | rounds (count : Nat) : Counted n (.goOn none [.times count (loopBody n) n.next])

theorem counted_of_plan (hn : n.Bounded) {plan : Plan} (h : p.plan config n w = .ok (w', plan)) :
    Counted n plan := by
  simp only [Program.plan] at h
  rcases ht : Statement.ofType? n.type with fault | _ | s <;> rw [ht] at h
  · cases h
  · cases h
    exact .next
  have heffect (h : (p.effectOn n s w).map (fun w => (w, Plan.goOn n.next [])) = .ok (w', plan)) :
      Counted n plan := by
    obtain ⟨after, -, hplan⟩ := Fault.map_ok h
    cases hplan
    exact .next
  have his (hs : s ≠ .repeatEnder) : n.is s = true := (Node.ofType?_eq_some hs).1 ht
  cases s with
  | stop =>
    cases h
    exact .stop
  | wait => exact absurd (his (by decide)) (by simp [hn.1])
  | ifElse =>
    obtain ⟨condition, -, hplan⟩ := Fault.map_ok h
    cases hplan
    exact .branch _
  | repeatTimes =>
    obtain ⟨times, -, hplan⟩ := Fault.map_ok h
    cases hplan
    exact .rounds _
  | repeatUntil => exact absurd (his (by decide)) (by simp [hn.2])
  | _ => exact heffect h

/-! ## Unwinding one frame at a time -/

/-- A construct that is left for a node once what it is in the middle of has run out: a branch, or a
loop that has no rounds left or no body. -/
inductive LeftFor (resume : Option String) : Frame → Prop
  | branch : LeftFor resume (.branch resume)
  | lastRound (body : Option String) : LeftFor resume (.times 0 body resume)
  | noBody (remaining : Nat) : LeftFor resume (.times remaining none resume)

/-- Leaving a construct. -/
theorem arrive_left {frame : Frame} {resume : Option String} (hleft : LeftFor resume frame)
    (h : s.frames = frame :: frames) : p.arrive none s = p.arrive resume { s with frames } := by
  cases hleft <;> rcases resume with _ | next <;> simp only [arrive, h, unwind]

/-- Another round of a loop. -/
theorem arrive_round {remaining : Nat} {body : String} {resume : Option String}
    (h : s.frames = .times (remaining + 1) (some body) resume :: frames) :
    p.arrive none s =
      p.arrive (some body) { s with frames := .times remaining (some body) resume :: frames } := by
  simp only [arrive, h, unwind]

/-! ## States from which a run finishes -/

variable (p config) in
/-- A state from which a run comes to an end of its own or fails, if nothing cuts it off. -/
inductive Finishes : State → Prop
  | ended {s : State} (e : Ending) : s.halt = some e.reason → Finishes s
  | nowhere {s : State} :
    s.halted = false → s.waiting = none → s.current = none → Finishes s
  | fails {s : State} {n : Node} {fault : Fault} :
    s.halted = false → s.waiting = none → s.current = some n.id → p.node? n.id = some n →
    p.executed config n (counted s) = .error fault → Finishes s
  | step {s s' : State} {n : Node} :
    s.halted = false → s.waiting = none → s.current = some n.id → p.node? n.id = some n →
    p.executed config n (counted s) = .ok s' → Finishes s'.settled → Finishes s

variable (p config) in
/-- From a place inside of some frames a run finishes that goes on at a link, in whatever world. -/
def Proceeds (next : Option String) (frames : List Frame) : Prop :=
  ∀ s : State, s.halted = false → s.waiting = none → s.frames = frames →
    ∀ s', p.arrive next s = .ok s' → p.Finishes config s'.settled

variable (p config) in
/-- A run finishes that goes on at a link, inside of any frames from which it finishes once it has
nothing more to go on at. -/
def Passable (link : Option String) : Prop :=
  ∀ frames, p.Proceeds config none frames → p.Proceeds config link frames

theorem passable_none : p.Passable config none := fun _ => id

/-- Outside of all constructs a run that has nothing to go on at has ended. -/
theorem proceeds_nil : p.Proceeds config none [] := by
  intro s hlive hwaiting hframes s' h
  simp only [arrive, hframes, unwind] at h
  cases h
  refine .ended .ranOut ?_
  simp [State.settled, State.ended, hwaiting, show Snapshot.halted s.toSnapshot = false from hlive]
  rfl

theorem proceeds_left {frame : Frame} {resume : Option String} (hleft : LeftFor resume frame)
    (hresume : p.Passable config resume) (h : p.Proceeds config none frames) :
    p.Proceeds config none (frame :: frames) := by
  intro s hlive hwaiting hframes s' hs'
  rw [arrive_left hleft hframes] at hs'
  exact hresume frames h { s with frames } hlive hwaiting rfl s' hs'

/-- **A loop with a count is left in the end.** -/
theorem proceeds_times {body resume : Option String} (hbody : p.Passable config body)
    (hresume : p.Passable config resume) (h : p.Proceeds config none frames) (remaining : Nat) :
    p.Proceeds config none (.times remaining body resume :: frames) := by
  -- a round goes through the body with one round less to come
  induction remaining with
  | zero => exact proceeds_left (.lastRound body) hresume h
  | succ remaining ih =>
    rcases body with _ | body
    · exact proceeds_left (.noBody (remaining + 1)) hresume h
    intro s hlive hwaiting hframes s' hs'
    rw [arrive_round hframes] at hs'
    exact hbody _ ih { s with frames := .times remaining (some body) resume :: frames } hlive
      hwaiting rfl s' hs'

/-- Executing a node is doing what it asks for. -/
theorem executed_ok (h : p.executed config n s = .ok s') :
    ∃ w plan, p.plan config n s.world = .ok (w, plan) ∧ p.follow n plan (s.within w) = .ok s' := by
  simp only [executed] at h
  rcases hplan : p.plan config n s.world with fault | ⟨w, plan⟩ <;> rw [hplan] at h
  · cases h
  · exact ⟨w, plan, rfl, h⟩

/-- Executing a node leads on to its links, which a run finishes from. -/
theorem finishes_of_counted {plan : Plan} (hcounted : Counted n plan)
    (hbranch : ∀ key, p.Passable config (n.branch? key)) (hbody : p.Passable config (loopBody n))
    (hnext : p.Passable config n.next) (hframes : p.Proceeds config none s.frames)
    (hlive : s.halted = false) (hwaiting : s.waiting = none) (h : p.follow n plan s = .ok s') :
    p.Finishes config s'.settled := by
  cases hcounted with
  | stop =>
    cases h
    exact .ended .stopped rfl
  | next => exact hnext _ hframes s hlive hwaiting rfl s' h
  | branch key =>
    exact hbranch key _ (proceeds_left .branch hnext hframes)
      { s with frames := .branch n.next :: s.frames } hlive hwaiting rfl s' h
  | rounds count =>
    exact proceeds_times hbody hnext hframes count
      { s with frames := .times count (loopBody n) n.next :: s.frames } hlive hwaiting rfl s' h

/-- **A run finishes from every link**, as soon as it does once the link has run out. -/
theorem passable_of_leads (hp : p.Forward) (hbounded : ∀ n ∈ p.nodes, n.Bounded)
    {link : Option String} (hlink : p.Leads link) : p.Passable config link := by
  rcases link with _ | id
  · exact passable_none
  replace hlink := hlink id rfl
  induction id using hp.induction with
  | h id ih =>
    obtain ⟨n, hn⟩ := hlink
    obtain rfl : n.id = id := findNode?_id hn
    -- the links of the node are further on
    have hpassable {link : Option String} (hlink : p.Leads link)
        (hfurther : ∀ b, link = some b → p.Links n.id b) : p.Passable config link := by
      rcases link with _ | b
      · exact passable_none
      · exact ih b (hfurther b rfl) (hlink b rfl)
    have hbranch (key : String) : p.Passable config (n.branch? key) :=
      hpassable (hp.branch _ n hn key) fun b hb => links_branch hn hb
    have hbody : p.Passable config (loopBody n) := by
      rw [loopBody]
      rcases hhead : n.branch? "body" with _ | head
      · exact hbranch "true"
      · have hbody := hbranch "body"
        rw [hhead] at hbody
        exact hbody
    have hnext : p.Passable config n.next :=
      hpassable (hp.next _ n hn) fun b hb => links_next hn hb
    intro frames hframes s hlive hwaiting hs s' hs'
    cases hs'
    rw [State.settled_of_current rfl]
    rcases hexecuted : p.executed config n (counted { s with current := some n.id }) with fault | s₁
    · exact .fails hlive hwaiting rfl hn hexecuted
    refine .step hlive hwaiting rfl hn hexecuted ?_
    obtain ⟨w, plan, hplan, hfollow⟩ := executed_ok hexecuted
    exact finishes_of_counted (s := (counted { s with current := some n.id }).within w)
      (counted_of_plan (hbounded n (mem_of_findNode? hn)) hplan) hbranch hbody hnext
      (hs ▸ hframes) hlive hwaiting hfollow

/-! ## Runs under a limit -/

/-- Only waits look at the limit. -/
theorem executed_limited (hn : n.is .wait = false) :
    p.executed (limited config limit) n s = p.executed config n s := by
  have hplan : p.plan (limited config limit) n s.world = p.plan config n s.world := by
    simp only [Program.plan]
    rcases ht : Statement.ofType? n.type with fault | _ | statement
    · rfl
    · rfl
    cases statement with
    | wait => exact absurd ((Node.ofType?_eq_some (by decide)).1 ht) (by simp [hn])
    | _ => rfl
  simp only [executed, hplan]

/-- A step below the limit executes the node that a run is at. -/
theorem advance_executed (hlive : s.halted = false) (hwaiting : s.waiting = none)
    (hcurrent : s.current = some n.id) (hn : p.node? n.id = some n)
    (hlimit : s.steps < config.maxSteps) :
    p.advance config s = (p.executed config n (counted s)).map State.settled := by
  have hnode : p.currentNode? (counted s) = some n := by
    rw [currentNode?, show (counted s).current = some n.id from hcurrent]
    exact hn
  have hact : p.act config (counted s) = p.executed config n (counted s) := by
    simp only [act, show (counted s).waiting = none from hwaiting, hnode]
  rw [advance, if_neg (by simp [hlive]), if_neg (by simp [hcurrent]), if_neg (by omega)]
  exact congrArg _ hact

theorem steps_executed (h : p.executed config n s = .ok s') : s'.steps = s.steps := by
  obtain ⟨w, plan, -, hfollow⟩ := executed_ok h
  cases plan with
  | stop | rest =>
    cases hfollow
    rfl
  | goOn next entered => exact (steps_of_arrive hfollow).trans rfl

/-- **Where a run finishes, enough steps bring it to its end**, and it is the same end for every
limit that leaves room for them. -/
theorem advanceFor_of_finishes (hwait : ∀ n ∈ p.nodes, n.is .wait = false)
    (h : p.Finishes config s) : ∃ (k : Nat) (result : Except Fault State),
      (∀ s', result = .ok s' → ∃ e : Ending, s'.halt = some e.reason) ∧
      ∀ (limit : Int) (budget : Nat), s.steps + k ≤ limit → k ≤ budget →
        p.advanceFor (limited config limit) budget s = result := by
  have hstep {s : State} {n : Node} {limit : Int} (hlive : s.halted = false)
      (hwaiting : s.waiting = none) (hcurrent : s.current = some n.id) (hn : p.node? n.id = some n)
      (hlimit : s.steps < limit) : p.advance (limited config limit) s =
        (p.executed config n (counted s)).map State.settled := by
    rw [advance_executed hlive hwaiting hcurrent hn hlimit,
      executed_limited (hwait n (mem_of_findNode? hn))]
  induction h with
  | @ended s e hhalt =>
    refine ⟨0, .ok s, fun s' hs' => ⟨e, ?_⟩, fun limit budget _ _ => ?_⟩
    · cases hs'
      exact hhalt
    · exact advanceFor_of_halted (by simp [Snapshot.halted, hhalt]) budget
  | @nowhere s hlive hwaiting hcurrent =>
    refine ⟨1, .ok (s.ended .endOfProgram), fun s' hs' => ⟨.ranOut, ?_⟩,
      fun limit budget _ hbudget => ?_⟩
    · cases hs'
      rfl
    · obtain ⟨budget, rfl⟩ := Nat.exists_eq_add_of_le' hbudget
      rw [advanceFor_succ, advance, if_neg (by simp [hlive]), if_pos (by simp [hwaiting, hcurrent])]
      exact advanceFor_of_halted rfl budget
  | @fails s n fault hlive hwaiting hcurrent hn hexecuted =>
    refine ⟨1, .error fault, fun s' hs' => (by cases hs'), fun limit budget hlimit hbudget => ?_⟩
    obtain ⟨budget, rfl⟩ := Nat.exists_eq_add_of_le' hbudget
    rw [advanceFor_succ, hstep hlive hwaiting hcurrent hn (by omega), hexecuted]
    rfl
  | @step s s' n hlive hwaiting hcurrent hn hexecuted _ ih =>
    obtain ⟨k, result, hends, hrest⟩ := ih
    refine ⟨k + 1, result, hends, fun limit budget hlimit hbudget => ?_⟩
    obtain ⟨budget, rfl⟩ := Nat.exists_eq_add_of_le' (Nat.le_trans (Nat.le_add_left 1 k) hbudget)
    have hsteps : s'.settled.steps = s.steps + 1 := by
      rw [steps_settled, steps_executed hexecuted]
      rfl
    rw [advanceFor_succ, hstep hlive hwaiting hcurrent hn (by omega), hexecuted]
    refine hrest limit budget ?_ (by omega)
    rw [hsteps]
    omega

/-- From its start a run finishes. -/
theorem finishes_start (hp : p.Forward) (hbounded : ∀ n ∈ p.nodes, n.Bounded) (config : Config)
    (vars : Dict) : p.Finishes config (Machine.start p config vars).state := by
  rcases hentry : p.entry with _ | id
  · exact .nowhere rfl rfl hentry
  · have hsame : (Machine.start p config vars).state.settled =
        (Machine.start p config vars).state := State.settled_of_current hentry
    rw [← hsame]
    refine passable_of_leads hp hbounded hp.entry [] proceeds_nil
      (Machine.start p config vars).state rfl rfl rfl _ ?_
    rw [hentry]
    simp only [arrive, Machine.start, hentry]

/-- **Programs that neither wait nor loop with a condition finish.** For every program that is
compiled from what an editor draws and any variables there is a number of steps such that under every
limit from that on, a run comes to the same result: it fails, or it ends at a `stop` or with the
program, but it is never cut off. -/
theorem run_finishes {source : Source} (hsource : source.Drawn) (hcompile : source.compile = .ok p)
    (hbounded : ∀ n ∈ p.nodes, n.is .wait = false ∧ n.is .repeatUntil = false) (config : Config)
    (vars : Dict) : ∃ (enough : Nat) (result : Except Fault State),
      (∀ s, result = .ok s → s.halt = some .stopBlock ∨ s.halt = some .endOfProgram) ∧
      ∀ limit : Int, enough ≤ limit →
        outcome (p.run (limited config limit) none) (.start p (limited config limit) vars) =
          result := by
  have hp := forward_of_compile hsource hcompile
  obtain ⟨k, result, hends, hrun⟩ := advanceFor_of_finishes
    (fun n hn => (hbounded n hn).1) (finishes_start hp hbounded config vars)
  refine ⟨k, result.map cutOff, fun s hs => ?_, fun limit hlimit => ?_⟩
  · obtain ⟨s', hs', rfl⟩ := Fault.map_ok hs
    obtain ⟨e, hhalt⟩ := hends s' hs'
    rw [cutOff, if_pos (by simp [Snapshot.halted, hhalt]), hhalt]
    cases e with
    | stopped => exact .inl rfl
    | ranOut => exact .inr rfl
  · have hsteps : (Machine.start p config vars).state.steps = 0 := rfl
    rw [outcome_run]
    refine congrArg _ (hrun limit _ ?_ ?_)
    · rw [hsteps]
      omega
    · show k ≤ limit.toNat
      omega

/-- A loop in a loop. The inner one reads how often it has to go round from the variable that it
changes. -/
def doubling : ProgramGraph where
  blocks := [
    { id := "o", type := .str "repeat_times", inputs := .dict [(.str "times", .int 2)] },
    { id := "i", type := .str "repeat_times" },
    { id := "v", type := .str "variable", inputs := .dict [(.str "name", .str "n")] },
    { id := "c", type := .str "change_variable",
      inputs := .dict [(.str "name", .str "n"), (.str "delta", .int 1)] }]
  edges := [.toBranch "o" (some "body") "i", .toInput "i" (some "times") "v",
    .toBranch "i" (some "body") "c"]

/-- What it is compiled to. -/
def doublingProgram : Program where
  nodes := [
    { id := "o", type := .str "repeat_times", inputs := [(.str "times", .int 2)],
      branches := [("body", "i")] },
    { id := "i", type := .str "repeat_times", inputs := [(.str "times", .ref "v")],
      branches := [("body", "c")] },
    { id := "v", type := .str "variable", inputs := [(.str "name", .str "n")] },
    { id := "c", type := .str "change_variable",
      inputs := [(.str "name", .str "n"), (.str "delta", .int 1)] }]
  roots := ["o", "i", "v", "c"]
  entry := some "o"

/-- From one on, the inner loop doubles the variable each time, and the program comes to its end. -/
theorem run_finishes_doubling : ∃ (enough : Nat) (result : Except Fault State),
    (∀ limit : Int, enough ≤ limit → outcome (doublingProgram.run (limited {} limit) none)
      (.start doublingProgram (limited {} limit) [(.str "n", .int 1)]) = result) ∧
    (∀ s, result = .ok s → s.halt = some .stopBlock ∨ s.halt = some .endOfProgram) ∧
    (doublingProgram.run {} none (.start doublingProgram {} [(.str "n", .int 1)])).2.state.halt =
      some .endOfProgram ∧
    (Dict.named? (doublingProgram.run {} none
      (.start doublingProgram {} [(.str "n", .int 1)])).2.state.vars "n").bind Value.number? =
      some (.int 4) := by
  have hcompile : (Source.graph doubling).compile = .ok doublingProgram := by
    with_unfolding_all rfl
  have hbounded : ∀ n ∈ doublingProgram.nodes,
      n.is .wait = false ∧ n.is .repeatUntil = false := by decide +kernel
  have hdrawn : (Source.graph doubling).Drawn := trivial
  obtain ⟨enough, result, hends, hrun⟩ :=
    run_finishes hdrawn hcompile hbounded {} [(.str "n", .int 1)]
  exact ⟨enough, result, hrun, hends, by decide +kernel, by decide +kernel⟩

end Program

end BlockProgram
