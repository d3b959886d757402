import BlockProgram.Proofs.Run.Pacing
import BlockProgram.Proofs.Workspace.Sparing

/-!
# Runs before and after enders are kept up

A run of a workspace that comes to an end of its own follows the reading of the compiled program
(`Source.reads_of_run`), and this has one ending and one world only. So wherever pairing and deleting
enders leave a program that goes past some enders of the one before, both workspaces run alike
(`Workspace.syncEnders_runs`).

That is so if the program is spared (`Workspace.Spares`), as it is whenever nothing is deleted. It is
not so in general: a branch goes with the ender that it begins with, and the statements behind the
ender do not take its place (`Workspace.syncEnders_losesBranch`).
-/

namespace BlockProgram

open Relation Program Workspace

/-- A run that is not cut off has taken steps until it was over. -/
theorem Program.over_of_outcome_run {p : Program} {config : Config} {budget : Option Int}
    {m : Machine} {s : State} (h : outcome (p.run config budget) m = .ok s)
    (hlimit : s.halt ≠ some .stepLimit) :
    ∃ m' e, ReflTransGen (p.Steps config) m m' ∧ m'.state = s ∧ s.halt = some (Ending.reason e) := by
  rcases hfor : p.runFor config (budgetSteps config budget) m with ⟨fault | ⟨⟩, m'⟩
  · rw [outcome, run, Exec.bind_error hfor] at h
    cases h
  rw [outcome, run, Exec.bind_ok hfor] at h
  have hover : m'.state.halted = true := by
    by_contra hlive
    obtain ⟨⟨⟩, m'', hhalt, hended⟩ := does_halt .stepLimit (Bool.eq_false_iff.2 hlive)
    rw [hhalt] at h
    cases h
    rw [hended] at hlimit
    exact hlimit rfl
  rw [halt_apply_of_halted hover] at h
  cases h
  refine ⟨m', ?_⟩
  rcases hreason : m'.state.halt with _ | reason
  · rw [Snapshot.halted, hreason] at hover
    cases hover
  rw [hreason] at hlimit
  cases reason with
  | stopBlock => exact ⟨.stopped, steps_of_runFor hfor, rfl, rfl⟩
  | endOfProgram => exact ⟨.ranOut, steps_of_runFor hfor, rfl, rfl⟩
  | stepLimit => exact absurd rfl hlimit

/-- What a run reads from its start that is not cut off. -/
theorem Program.reads_of_outcome_run {p : Program} (hp : p.Closed) {config : Config}
    {budget : Option Int} {vars : Dict} {s : State}
    (h : outcome (p.run config budget) (.start p config vars) = .ok s)
    (hlimit : s.halt ≠ some .stepLimit) :
    ∃ e, s.halt = some (Ending.reason e) ∧
      p.Reads config (.chain p.entry) (Machine.start p config vars).state.world e s.world := by
  obtain ⟨m, e, hsteps, rfl, hreason⟩ := over_of_outcome_run h hlimit
  have hend : p.Meets config m.state e m.state.world := by
    rw [Meets, hreason]
    exact ⟨rfl, rfl⟩
  exact ⟨e, hreason, (meets_of_steps hp (placed_start hp config vars) hsteps hend).single⟩

/-- **A run that is not cut off follows the reading** of the program. -/
theorem Source.reads_of_run {ws : Workspace} {o : RunOptions} {s : State}
    (h : ((Source.workspace ws).run o).result = .ok s) (hlimit : s.halt ≠ some .stepLimit) :
    ∃ p e, build ws.blocks ws.edges = .ok p ∧ s.halt = some (Ending.reason e) ∧
      p.Reads o.config (.chain p.entry)
        ⟨ws.initialVars, { heading := o.config.initialHeading }, []⟩ e s.world := by
  have hsnapshot : (Source.workspace ws).snapshot = .ok ws.snapshot := rfl
  rw [run, hsnapshot] at h
  rcases hbuild : build ws.blocks ws.edges with fault | p
  · have hgraph : ws.snapshot.build = .error fault := hbuild
    simp only [hgraph] at h
    cases h
  have hgraph : ws.snapshot.build = .ok p := hbuild
  simp only [hgraph, Execution.result_ofProgram] at h
  obtain ⟨e, hreason, hreads⟩ := reads_of_outcome_run (closed_build hbuild) h hlimit
  exact ⟨p, e, rfl, hreason, hreads⟩

/-- What a host is shown at the end of a run is its ending and its world. -/
theorem Snapshot.eq_of_world {s s' : Snapshot} (hhalt : s.halt = s'.halt)
    (hworld : s.world = s'.world) : s = s' := by
  cases s
  cases s'
  cases hhalt
  cases hworld
  rfl

namespace Workspace

variable {ws ws' : Workspace}

/-- **Two workspaces run alike** if what is left of the one is compiled to a program that goes past
enders of the other. -/
theorem Tidied.runs {may : Workspace → Request → Prop} (hws : ReachableBy may ws)
    (htidied : Tidied ws ws') (hspares : ws.Spares ws') {o : RunOptions} {s s' : State}
    (hrun : ((Source.workspace ws).run o).result = .ok s)
    (hrun' : ((Source.workspace ws').run o).result = .ok s')
    (hlimit : s.halt ≠ some .stepLimit) (hlimit' : s'.halt ≠ some .stepLimit) :
    s'.toSnapshot = s.toSnapshot := by
  obtain ⟨p, e, hp, hreason, hreads⟩ := Source.reads_of_run hrun hlimit
  obtain ⟨q, e', hq, hreason', hreads'⟩ := Source.reads_of_run hrun' hlimit'
  have hvars : ws'.initialVars = ws.initialVars := by
    rw [initialVars, htidied.palette, initialVars]
  rw [hvars] at hreads'
  have hbypass := bypasses_of_spares hws.wellFormed hws.distinct htidied hspares hp hq
  obtain ⟨rfl, hworld⟩ := hreads'.unique (hbypass.reads hreads)
  exact Snapshot.eq_of_world (hreason'.trans hreason.symm) hworld

/-- **Pairing and deleting enders does not change what a program does**, if the program is spared:
where neither run meets the step limit or fails, both end for the same reason, with the same
variables, sprite and outputs. The program is spared whenever nothing is deleted. -/
theorem syncEnders_runs {may : Workspace → Request → Prop} (hws : ReachableBy may ws) {n : Nat}
    (h : syncEnders ws = (.ok n, ws')) :
    (n = 0 → ws.Spares ws') ∧
    (ws.Spares ws' → ∀ (o : RunOptions) (s s' : State),
      ((Source.workspace ws).run o).result = .ok s →
      ((Source.workspace ws').run o).result = .ok s' →
      s.halt ≠ some .stepLimit → s'.halt ≠ some .stepLimit →
      s'.toSnapshot = s.toSnapshot) := by
  refine ⟨fun hnone => ?_, fun hspares o s s' => ?_⟩
  · obtain ⟨ws₁, hpaired, -, rfl, rfl⟩ := syncEnders_ok h
    rw [List.eq_nil_of_length_eq_zero hnone]
    exact spares_of_kept (pairedAll_of_ok hws.distinct hpaired).has
  · exact (tidied_of_ok hws.wellFormed hws.distinct h).runs hws hspares

/-- A loop below an ender whose owner is gone. The ender of the loop has the type of one for an
`if_else`. -/
def orphanOnTop : Workspace where
  blocks := [
    { id := "o", type := .str "if_branch_ender", data := .dict [(.str pairKey, .str "gone")] },
    { id := "r", type := .str "repeat_times", inputs := .dict [(.str "times", .int 2)] },
    { id := "e", type := .str "if_branch_ender", data := .dict [(.str pairKey, .str "r")] },
    { id := "t", type := .str "say", inputs := .dict [(.str "text", .str "hi")] }]
  edges := [.stack "o" "r", .toBranch "r" (some "body") "t", .stack "r" "e"]

/-- What a call leaves of it: the loop is on top, and its ender has got the type that fits. -/
def orphanCut : Workspace where
  blocks := [
    { id := "r", type := .str "repeat_times", inputs := .dict [(.str "times", .int 2)] },
    { id := "e", type := .str "repeat_loop_ender_1",
      data := .dict [(.str pairKey, .str "r"), (.str variantKey, .int 1)] },
    { id := "t", type := .str "say", inputs := .dict [(.str "text", .str "hi")] }]
  edges := [.toBranch "r" (some "body") "t", .stack "r" "e"]

theorem reachable_orphanOnTop : Reachable orphanOnTop := by
  have hgraph : ofGraph orphanOnTop.snapshot = .ok orphanOnTop := by
    with_unfolding_all rfl
  exact .drawn 0 hgraph

theorem reachable_orphanCut : Reachable orphanCut := by
  have hgraph : ofGraph orphanCut.snapshot = .ok orphanCut := by
    with_unfolding_all rfl
  exact .drawn 0 hgraph

/-- The deleted ender stood on top of the stack, in front of the loop. -/
theorem spares_orphanOnTop : orphanOnTop.Spares orphanCut := by
  have honly (id : String) (hgone : Gone orphanOnTop orphanCut id) : id = "o" := by
    obtain ⟨hknown, hdeleted⟩ := hgone
    simp [has, orphanOnTop, orphanCut] at hknown hdeleted
    tauto
  have htargets : ∀ e ∈ orphanOnTop.edges, e.target ≠ "o" := by decide
  have hnames : ∀ link ∈ stackLinks orphanOnTop.edges, link.1 ≠ "" ∧ link.2 ≠ "" := by decide
  have hstart : orphanOnTop.start? = some "o" := by decide +kernel
  have hstart' : orphanCut.start? = some "r" := by decide +kernel
  refine ⟨fun e he _ hgone => ?_, fun e he _ hgone => ?_, fun link hlink _ => hnames link hlink,
    fun _ => ?_⟩
  · exact absurd (honly _ hgone) (htargets e he)
  · exact absurd (honly _ hgone) (htargets e he)
  · rw [hstart, hstart']
    exact .past rfl (by decide) .here

/-- How the run of a workspace ends, and its outputs. -/
def summary (ws : Workspace) : Option (Option HaltReason × List Output) :=
  ((Source.workspace ws).run {}).result.toOption.map fun s => (s.halt, s.outputs)

theorem exists_of_summary {halt : Option HaltReason} {outputs : List Output}
    (h : ws.summary = some (halt, outputs)) :
    ∃ s, ((Source.workspace ws).run {}).result = .ok s ∧ s.halt = halt ∧ s.outputs = outputs := by
  rw [summary] at h
  rcases hrun : ((Source.workspace ws).run {}).result with fault | s <;> rw [hrun] at h
  · cases h
  · cases h
    exact ⟨s, rfl, rfl, rfl⟩

/-- Both runs say something twice. Another call deletes nothing. -/
theorem syncEnders_runs_orphanOnTop : syncEnders orphanOnTop = (.ok 1, orphanCut) ∧
    (∃ s s', ((Source.workspace orphanOnTop).run {}).result = .ok s ∧
      ((Source.workspace orphanCut).run {}).result = .ok s' ∧
      s.outputs = [⟨"say", "hi"⟩, ⟨"say", "hi"⟩] ∧ s'.toSnapshot = s.toSnapshot) ∧
    syncEnders orphanCut = (.ok 0, orphanCut) ∧ orphanCut.Spares orphanCut := by
  have hcall : syncEnders orphanOnTop = (.ok 1, orphanCut) := by
    with_unfolding_all rfl
  have hcall' : syncEnders orphanCut = (.ok 0, orphanCut) := by
    with_unfolding_all rfl
  have hsummary : orphanOnTop.summary = some (some .endOfProgram, [⟨"say", "hi"⟩, ⟨"say", "hi"⟩]) := by
    decide +kernel
  have hsummary' : orphanCut.summary = some (some .endOfProgram, [⟨"say", "hi"⟩, ⟨"say", "hi"⟩]) := by
    decide +kernel
  obtain ⟨s, hrun, hhalt, houtputs⟩ := exists_of_summary hsummary
  obtain ⟨s', hrun', hhalt', -⟩ := exists_of_summary hsummary'
  obtain ⟨-, hruns⟩ := syncEnders_runs reachable_orphanOnTop hcall
  obtain ⟨hspares, -⟩ := syncEnders_runs reachable_orphanCut hcall'
  refine ⟨hcall, ⟨s, s', hrun, hrun', houtputs, ?_⟩, hcall', hspares rfl⟩
  refine hruns spares_orphanOnTop {} s s' hrun hrun' ?_ ?_
  · rw [hhalt]
    rintro ⟨⟩
  · rw [hhalt']
    rintro ⟨⟩

/-- A branch that begins with an ender whose owner is gone. -/
def orphanAhead : Workspace where
  blocks := [
    { id := "c", type := .str "if_else", inputs := .dict [(.str "condition", .bool true)] },
    { id := "o", type := .str "if_branch_ender", data := .dict [(.str pairKey, .str "gone")] },
    { id := "s", type := .str "say", inputs := .dict [(.str "text", .str "hi")] },
    { id := "e", type := .str "if_branch_ender", data := .dict [(.str pairKey, .str "c")] }]
  edges := [.toBranch "c" (some "true") "o", .stack "o" "s"]

/-- The same workspace without the ender, and without the branch. -/
def branchLost : Workspace :=
  { orphanAhead with blocks := orphanAhead.blocks.eraseIdx 1, edges := [] }

/-- **A branch that is lost**: it goes with the ender that it begins with, so that the run, which has
said something before, says nothing any more. -/
theorem syncEnders_losesBranch : ∃ (ws ws' : Workspace) (s s' : State), Reachable ws ∧
    syncEnders ws = (.ok 1, ws') ∧
    ((Source.workspace ws).run {}).result = .ok s ∧ s.halt = some .endOfProgram ∧
    s.outputs = [⟨"say", "hi"⟩] ∧
    ((Source.workspace ws').run {}).result = .ok s' ∧ s'.halt = some .endOfProgram ∧
    s'.outputs = [] := by
  have hgraph : ofGraph orphanAhead.snapshot = .ok orphanAhead := by
    with_unfolding_all rfl
  have hcall : syncEnders orphanAhead = (.ok 1, branchLost) := by
    with_unfolding_all rfl
  have hsummary : orphanAhead.summary = some (some .endOfProgram, [⟨"say", "hi"⟩]) := by
    decide +kernel
  have hsummary' : branchLost.summary = some (some .endOfProgram, []) := by
    decide +kernel
  obtain ⟨s, hrun, hends, hsays⟩ := exists_of_summary hsummary
  obtain ⟨s', hrun', hends', hsays'⟩ := exists_of_summary hsummary'
  exact ⟨_, _, s, s', .drawn 0 hgraph, hcall, hrun, hends, hsays, hrun', hends', hsays'⟩

end Workspace

end BlockProgram
