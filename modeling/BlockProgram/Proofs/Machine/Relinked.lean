import BlockProgram.Proofs.Machine.Bypass
import BlockProgram.Proofs.Program.Links
import BlockProgram.Proofs.Run.Enders

/-!
# Leaving a node out that is passed through

The start, the enders and what is no statement do nothing when a run comes to them but go on at the
next node (`Node.Passes`). So a node before one of them may as well be linked to what comes after it
(`Program.relinked`). The node before may be anything: a statement that goes on there, a wait, or a
construct that goes on there once it has run out, and what comes after may be nothing at all.

The runs of the two programs pass through different states, whose frames remember different places
to resume at. But both follow the structured reading, which knows no frames. There the difference is
one application of one rule, at the node before (`Program.Reads.relinked`), so that both runs come to
the same end (`Program.run_relinked`).
-/

namespace BlockProgram

open Program

/-- A node that a run only passes through: an ender, the start, or what is no statement. -/
def Node.Passes (n : Node) : Prop :=
  n.closes = true ∨ n.is .start = true ∨ Statement.ofType? n.type = .ok none

namespace Program

variable {p q : Program} {config : Config} {n n' na nb : Node} {a b : String} {w w' : World}
  {e : Ending} {next : Option String}

theorem doing_of_passes (h : n.Passes) : p.doing config n w = .ok (.effect w) := by
  rcases h with hcloses | hstart | hnone
  · exact doing_of_closes hcloses
  · rw [doing, (Node.ofType?_eq_some (by decide)).2 hstart]
    show (p.effectOn n .start w).map Doing.effect = _
    rw [effectOn_eq]
    rfl
  · rw [doing, hnone]
    rfl

/-- A reading from a node that is passed through is one from the node after it. -/
theorem Reads.past (hn : p.node? a = some n) (hpasses : n.Passes)
    (h : p.Reads config (.chain (some a)) w e w') : p.Reads config (.chain n.next) w e w' := by
  have hdoing : p.doing config n w = .ok (.effect w) := doing_of_passes hpasses
  cases h with
  | effect hn' hd hrest =>
    obtain rfl := Option.some.inj (hn.symm.trans hn')
    cases hdoing.symm.trans hd
    exact hrest
  | stop hn' hd | construct hn' hd | constructStopped hn' hd =>
    obtain rfl := Option.some.inj (hn.symm.trans hn')
    cases hdoing.symm.trans hd

/-! ## Nodes that differ in their next node only -/

/-- **What a node contributes does not depend on the node after it**, as long as slots have the same
values. -/
theorem doing_congr (hvalues : ∀ vars slot, q.evaluate vars slot = p.evaluate vars slot)
    (next : Option String) : q.doing config { n with next } w = p.doing config n w := by
  have hnumber (socket : String) : q.numberIn { n with next } w socket = p.numberIn n w socket := by
    rw [numberIn, hvalues, numberIn]
    rfl
  have htext (socket : String) : q.textIn { n with next } w socket = p.textIn n w socket := by
    rw [textIn, hvalues, textIn]
    rfl
  have hinput (socket : String) : Node.input { n with next } socket = n.input socket := rfl
  have hafter (s : Statement) : q.worldAfter { n with next } w s = p.worldAfter n w s := by
    cases s <;> simp only [worldAfter, hnumber, htext, hvalues, hinput]
  have hdoing (s : Option Statement) :
      q.doingOf config { n with next } w s = p.doingOf config n w s := by
    rcases s with _ | s
    · rfl
    cases s <;>
      simp only [doingOf, effectOn_eq, hafter, duration, roundCount, hnumber, hvalues] <;> rfl
  simp only [doing, hdoing]

/-- A program with another node, or none, after one of its nodes. -/
def relinked (p : Program) (id : String) (next : Option String) : Program :=
  { p with nodes := p.nodes.map fun n => if n.id = id then { n with next } else n }

theorem node?_relinked (id : String) : (p.relinked a next).node? id =
    (p.node? id).map fun n => if id = a then { n with next } else n := by
  have hids : ((fun n : Node => n.id == id) ∘
      fun n : Node => if n.id = a then { n with next } else n) = fun n => n.id == id := by
    funext n
    rw [Function.comp]
    split <;> rfl
  rw [node?, findNode?, relinked, List.find?_map, hids]
  refine Option.map_congr fun n hn => ?_
  rw [findNode?_id hn]

/-- A node is there as before; only the one that is relinked has changed, in the node after it. -/
theorem exists_node?_relinked (a : String) (next : Option String) {id : String}
    (hn : p.node? id = some n) :
    ∃ after, (p.relinked a next).node? id = some { n with next := after } ∧
      (id = a → after = next) ∧ (id ≠ a → after = n.next) := by
  rw [node?_relinked, hn]
  by_cases hid : id = a
  · exact ⟨next, by simp [hid], fun _ => rfl, fun hne => absurd hid hne⟩
  · exact ⟨n.next, by simp [hid], fun heq => absurd heq hid, fun _ => rfl⟩

theorem leads_relinked {link : Option String} (h : p.Leads link) : (p.relinked a next).Leads link := by
  intro id hid
  obtain ⟨n, hn⟩ := h id hid
  obtain ⟨after, hn', -⟩ := exists_node?_relinked a next hn
  exact ⟨_, hn'⟩

theorem closed_relinked (hp : p.Closed) (hnext : p.Leads next) : (p.relinked a next).Closed := by
  have hnode {id : String} {n' : Node} (hn' : (p.relinked a next).node? id = some n') :
      ∃ n, p.node? id = some n ∧ n' = if id = a then { n with next } else n := by
    rw [node?_relinked, Option.map_eq_some_iff] at hn'
    obtain ⟨n, hn, rfl⟩ := hn'
    exact ⟨n, hn, rfl⟩
  refine ⟨leads_relinked hp.entry, fun id n' hn' => ?_, fun id n' hn' key => ?_⟩
  · obtain ⟨n, hn, rfl⟩ := hnode hn'
    split
    · exact leads_relinked hnext
    · exact leads_relinked (hp.next id n hn)
  · obtain ⟨n, hn, rfl⟩ := hnode hn'
    have hbranch : Node.branch? (if id = a then { n with next } else n) key = n.branch? key := by
      split <;> rfl
    rw [hbranch]
    exact leads_relinked (hp.branch id n hn key)

/-- The slots have the values that they had. -/
theorem evaluate_relinked (vars : Dict) (slot : Value) :
    (p.relinked a next).evaluate vars slot = p.evaluate vars slot := by
  have hsame : SameReporters (fun _ => False) p.nodes (p.relinked a next).nodes := by
    refine ⟨fun _ hgone => hgone.elim, fun id => ?_⟩
    change (Silent (p.node? id) ∧ Silent ((p.relinked a next).node? id)) ∨
      ∃ n n', p.node? id = some n ∧ (p.relinked a next).node? id = some n' ∧ _
    rcases hn : p.node? id with _ | n
    · exact .inl ⟨silent_none, by rw [node?_relinked, hn]; exact silent_none⟩
    · obtain ⟨after, hn', -⟩ := exists_node?_relinked a next hn
      exact .inr ⟨n, _, rfl, hn', rfl, fun _ => .inl rfl⟩
  exact (evaluate_eq hsame vars slot).symm

/-! ## Leaving a node out -/

/-- A node that is passed through, and the one in front of it. -/
structure Precedes (p : Program) (na nb : Node) : Prop where
  before : p.node? na.id = some na
  linked : na.next = some nb.id
  node : p.node? nb.id = some nb
  passes : nb.Passes

/-- **What can be read in a program can be read without a node that is passed through.** -/
theorem Reads.relinked (h : p.Precedes na nb) {part : Part} (hreads : p.Reads config part w e w') :
    (p.relinked na.id nb.next).Reads config part w e w' := by
  -- what a node contributes is the same, and what is read behind it is what was read there
  have hnode {id : String} {n : Node} {w : World} {d : Doing} (hn : p.node? id = some n)
      (hd : p.doing config n w = .ok d) : ∃ n', (p.relinked na.id nb.next).node? id = some n' ∧
        (p.relinked na.id nb.next).doing config n' w = .ok d ∧
        ∀ w' e w'', (p.relinked na.id nb.next).Reads config (.chain n.next) w' e w'' →
          (p.relinked na.id nb.next).Reads config (.chain n'.next) w' e w'' := by
    obtain ⟨after, hn', hhere, helse⟩ := exists_node?_relinked na.id nb.next hn
    refine ⟨_, hn', by rw [doing_congr evaluate_relinked, hd], fun w' e w'' hrest => ?_⟩
    by_cases hid : id = na.id
    · subst hid
      obtain rfl := Option.some.inj (h.before.symm.trans hn)
      rw [h.linked] at hrest
      obtain ⟨after', hb, hhere', helse'⟩ := exists_node?_relinked na.id nb.next h.node
      obtain rfl : after' = nb.next := by
        by_cases hsame : nb.id = na.id
        · exact hhere' hsame
        · exact helse' hsame
      have hpast := hrest.past hb h.passes
      rw [hhere rfl]
      exact hpast
    · rw [helse hid]
      exact hrest
  induction hreads with
  | nothing => exact .nothing
  | stop hn hd =>
    obtain ⟨n', hn', hd', -⟩ := hnode hn hd
    exact .stop hn' hd'
  | effect hn hd _ ih =>
    obtain ⟨n', hn', hd', hrest⟩ := hnode hn hd
    exact .effect hn' hd' (hrest _ _ _ ih)
  | construct hn hd _ _ ihinside ihrest =>
    obtain ⟨n', hn', hd', hrest⟩ := hnode hn hd
    exact .construct hn' hd' ihinside (hrest _ _ _ ihrest)
  | constructStopped hn hd _ ih =>
    obtain ⟨n', hn', hd', -⟩ := hnode hn hd
    exact .constructStopped hn' hd' ih
  | roundsEmpty => exact .roundsEmpty
  | roundsDone => exact .roundsDone
  | roundsNext _ _ ihbody ihrest => exact .roundsNext ihbody ihrest
  | roundsStopped _ ih => exact .roundsStopped ih
  | loopEmpty => exact .loopEmpty
  | loopDone htest =>
    refine .loopDone ?_
    rw [isTrue, evaluate_relinked]
    exact htest
  | loopNext htest _ _ ihbody ihrest =>
    refine .loopNext ?_ ihbody ihrest
    rw [isTrue, evaluate_relinked]
    exact htest
  | loopStopped htest _ ih =>
    refine .loopStopped ?_ ih
    rw [isTrue, evaluate_relinked]
    exact htest

/-- **A node that is passed through can be left out.** If a node is followed by one that does nothing,
the program in which it is followed by what comes after that one runs to the same variables, sprite,
outputs and reason to end, from any variables, where neither run is cut off or fails. What else leads
to the node that is left out, and whether links lead back, does not matter. -/
theorem run_relinked (hp : p.Closed) (h : p.Precedes na nb) (config : Config) (vars : Dict)
    {budget budget' : Option Int} {s s' : State}
    (hrun : outcome (p.run config budget) (.start p config vars) = .ok s)
    (hrun' : outcome ((p.relinked na.id nb.next).run config budget')
      (.start (p.relinked na.id nb.next) config vars) = .ok s')
    (hlimit : s.halt ≠ some .stepLimit) (hlimit' : s'.halt ≠ some .stepLimit) :
    s'.toSnapshot = s.toSnapshot := by
  have hclosed : (p.relinked na.id nb.next).Closed :=
    closed_relinked hp (hp.next nb.id nb h.node)
  obtain ⟨e, hreason, hreads⟩ := reads_of_outcome_run hp hrun hlimit
  obtain ⟨e', hreason', hreads'⟩ := reads_of_outcome_run hclosed hrun' hlimit'
  obtain ⟨rfl, hworld⟩ := hreads'.unique (hreads.relinked h)
  exact Snapshot.eq_of_world (hreason'.trans hreason.symm) hworld

/-- A loop whose body ends with an ender, like the loop itself. -/
def endersBlocks : List Block := [
  { id := "r", type := .str "repeat_times", inputs := .dict [(.str "times", .int 2)] },
  { id := "c", type := .str "change_variable",
    inputs := .dict [(.str "name", .str "n"), (.str "delta", .int 1)] },
  { id := "i", type := .str "if_branch_ender" },
  { id := "e", type := .str "repeat_loop_ender_1" }]

/-- The links of that loop. -/
def endersEdges : List Edge := [.toBranch "r" (some "body") "c", .stack "c" "i", .stack "r" "e"]

/-- The block of the body. -/
def endersCount : Node :=
  { id := "c", type := .str "change_variable",
    inputs := [(.str "name", .str "n"), (.str "delta", .int 1)], next := some "i" }

/-- The ender behind it. -/
def endersInner : Node := { id := "i", type := .str "if_branch_ender" }

/-- What the loop is compiled to. -/
def enders : Program where
  nodes := [
    { id := "r", type := .str "repeat_times", inputs := [(.str "times", .int 2)],
      next := some "e", branches := [("body", "c")] },
    endersCount, endersInner, { id := "e", type := .str "repeat_loop_ender_1" }]
  roots := ["r", "c"]
  entry := some "r"

/-- How a run from no variables ends, and what the variable is then. -/
def endersSummary (q : Program) : Option (Option HaltReason × Option Number) :=
  (outcome (q.run {} none) (.start q {} [])).toOption.map fun s =>
    (s.halt, (Dict.named? s.vars "n").bind Value.number?)

/-- Without the ender in its body the loop runs out one step earlier in each round, and counts to two
as before. -/
theorem run_relinked_enders : enders.Precedes endersCount endersInner ∧ ∃ s s' : State,
    outcome (enders.run {} none) (.start enders {} []) = .ok s ∧
      outcome ((enders.relinked "c" none).run {} none) (.start (enders.relinked "c" none) {} []) =
        .ok s' ∧
      s'.toSnapshot = s.toSnapshot ∧
      (Dict.named? s.vars "n").bind Value.number? = some (.int 2) := by
  have hends {q : Program} (h : endersSummary q = some (some .endOfProgram, some (.int 2))) :
      ∃ s, outcome (q.run {} none) (.start q {} []) = .ok s ∧ s.halt ≠ some .stepLimit ∧
        (Dict.named? s.vars "n").bind Value.number? = some (.int 2) := by
    rw [endersSummary] at h
    rcases hrun : outcome (q.run {} none) (.start q {} []) with fault | s <;> rw [hrun] at h
    · cases h
    · obtain ⟨hhalt, hvariable⟩ := Prod.mk.inj (Option.some.inj h)
      exact ⟨s, rfl, by rw [hhalt]; decide, hvariable⟩
  have hbuild : build endersBlocks endersEdges = .ok enders := rfl
  have hprecedes : enders.Precedes endersCount endersInner :=
    ⟨rfl, rfl, rfl, .inl (by decide +kernel)⟩
  obtain ⟨s, hrun, hlimit, hvariable⟩ := hends (q := enders) (by decide +kernel)
  obtain ⟨s', hrun', hlimit', -⟩ := hends (q := enders.relinked "c" none) (by decide +kernel)
  exact ⟨hprecedes, s, s', hrun, hrun',
    run_relinked (closed_build hbuild) hprecedes {} [] hrun hrun' hlimit hlimit', hvariable⟩

end Program

end BlockProgram
