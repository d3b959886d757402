import BlockProgram.Proofs.Machine.Structured
import BlockProgram.Proofs.Workspace.Pairing
import BlockProgram.Proofs.Workspace.StackWalk

/-!
# The variant of a loop's ender

The ender of a loop counts the blocks of a body, and a program runs a body. Each finds its body on
its own.

* The ender counts the blocks below the head that the editor shows (`Workspace.countedBody?`). Where
  the edges close no cycle, the walk that counts them is the way down
  (`Workspace.downFrom_stackWalk`).
* A program runs the nodes that come one after another from the head on (`Program.Chain`), and these
  are the blocks on the way down (`Workspace.chain_of_downFrom`).

A loop runs a branch `true` where it has no `body`, which the ender does not count, and a body whose
head has an empty id counts as none (`Workspace.Uncounted`). Those are the only loops with at most
one `body` whose ender has another variant than that of the body that is run
(`Workspace.ensureRepeatEnder_counts`).
-/

namespace BlockProgram

open Relation

variable {ws ws' : Workspace} {id x y : String} {ids : List String}

/-! ## Running -/

namespace Program

variable {p : Program} {link : Option String}

/-- The ids of the nodes that come one after another from where a link leads. -/
inductive Chain (p : Program) : Option String → List String → Prop
  | none : Chain p none []
  | some {x : String} {n : Node} {ids : List String} : p.node? x = some n → Chain p n.next ids →
    Chain p (some x) (x :: ids)

theorem Chain.unique {ids' : List String} (h : p.Chain link ids) (h' : p.Chain link ids') :
    ids = ids' := by
  induction h generalizing ids' with
  | none =>
    cases h'
    rfl
  | some hn _ ih =>
    cases h' with
    | some hn' hrest =>
      cases hn.symm.trans hn'
      rw [ih hrest]

end Program

namespace Workspace

open Program

variable {p : Program}

/-- **The way down a stack is what a program runs.** -/
theorem chain_of_downFrom (h : WellFormed ws) (hdistinct : Distinct ws)
    (hp : build ws.blocks ws.edges = .ok p) (hx : ws.has x = true) (hdown : ws.DownFrom x ids) :
    p.Chain (some x) ids := by
  have hnode {x : String} (hx : ws.has x = true) :
      ∃ n, p.node? x = some n ∧ n.next = ws.successor? x := by
    obtain ⟨n, hn⟩ := Option.isSome_iff_exists.1 ((isSome_node?_build hp x).trans hx)
    obtain ⟨b, hb, hnode⟩ := exists_nodeOf h hdistinct hp hn
    exact ⟨n, hn, hnode.next.trans (by rw [block?_id hb])⟩
  induction hdown with
  | last hlast =>
    obtain ⟨n, hn, hnext⟩ := hnode hx
    refine .some hn ?_
    rw [hnext, hlast]
    exact .none
  | next hbelow _ ih =>
    obtain ⟨n, hn, hnext⟩ := hnode hx
    refine .some hn ?_
    rw [hnext, hbelow]
    obtain ⟨e, he, -, rfl⟩ := joins_successor? hbelow
    exact ih (h.ends e he).2

/-- Where a link leads to a node, the nodes from there on are those of the walk that counts them. -/
theorem chain_stackWalk (h : WellFormed ws) (hdistinct : Distinct ws)
    (hp : build ws.blocks ws.edges = .ok p) {n : Node} (hx : p.node? x = some n) :
    p.Chain (some x) (stackWalk ws.edges x) := by
  refine chain_of_downFrom h hdistinct hp ?_ (downFrom_stackWalk h x)
  exact (isSome_node?_build hp x).symm.trans (Option.isSome_of_eq_some hx)

theorem exists_chain (h : WellFormed ws) (hdistinct : Distinct ws)
    (hp : build ws.blocks ws.edges = .ok p) {link : Option String} (hleads : p.Leads link) :
    ∃ ids, p.Chain link ids := by
  rcases link with _ | x
  · exact ⟨[], .none⟩
  · obtain ⟨n, hn⟩ := hleads x rfl
    exact ⟨_, chain_stackWalk h hdistinct hp hn⟩

/-! ## The body that is counted -/

/-- The head of a loop's body as its ender counts it. An empty id is no head. -/
def countedBody? (ws : Workspace) (id : String) : Option String :=
  (ws.branchHead? id defaultBranch).filter (· != "")

/-- Whether a loop runs a body that its ender does not count. -/
def Uncounted (ws : Workspace) (id : String) : Prop :=
  ws.branchHead? id defaultBranch = some "" ∨
    ws.branchHead? id defaultBranch = none ∧ (ws.branchHead? id "true").isSome = true

/-- **What is counted** are the nodes from the head on that the editor shows. -/
theorem chain_countedBody (h : WellFormed ws) (hdistinct : Distinct ws)
    (hp : build ws.blocks ws.edges = .ok p) (id : String) :
    ∃ ids, p.Chain (ws.countedBody? id) ids ∧ ws.bodyLength id = ids.length := by
  rw [countedBody?, bodyLength]
  rcases hhead : ws.branchHead? id defaultBranch with _ | head
  · exact ⟨[], .none, rfl⟩
  by_cases hempty : head = ""
  · subst hempty
    exact ⟨[], .none, rfl⟩
  · obtain ⟨e, he, rfl⟩ := Option.map_eq_some_iff.1 hhead
    have hknown := (h.ends e (List.mem_of_find?_eq_some he)).2
    refine ⟨_, ?_, if_neg (by simpa using hempty)⟩
    rw [Option.filter_some, if_pos (by simpa using hempty)]
    exact chain_of_downFrom h hdistinct hp hknown (downFrom_stackWalk h _)

namespace NodeOf

variable {b : Block} {n : Node}

/-- Where one edge at most fills a slot, the editor shows the branch that the program has. -/
theorem branch?_eq {key : String} (hnode : ws.NodeOf b n)
    (hsingle : Single (fillsBranch b.id (some key)) ws.edges) :
    n.branch? key = ws.branchHead? b.id key := by
  rw [hnode.branch, ← find?_eq_getLast?_filter hsingle]
  rfl

/-- The editor shows some branch of a slot exactly if the program has one. -/
theorem isSome_branch? (hnode : ws.NodeOf b n) (key : String) :
    (n.branch? key).isSome = (ws.branchHead? b.id key).isSome := by
  have hshown : (ws.branchHead? b.id key).isSome =
      ((ws.edges.filter (fillsBranch b.id (some key))).head?.map (·.target)).isSome := by
    rw [List.head?_filter]
    rfl
  rw [hnode.branch, hshown]
  rcases ws.edges.filter (fillsBranch b.id (some key)) with _ | ⟨e, rest⟩
  · rfl
  · rw [List.getLast?_cons]
    rfl

/-- **The body that is run is the one that is counted**, or none is counted, if no two edges compete
for `body`. -/
theorem loopBody_cases (hnode : ws.NodeOf b n)
    (hsingle : Single (fillsBranch b.id (some defaultBranch)) ws.edges) :
    ¬ ws.Uncounted b.id ∧ loopBody n = ws.countedBody? b.id ∨
      ws.Uncounted b.id ∧ (loopBody n).isSome = true ∧ ws.countedBody? b.id = none := by
  have hbody : n.branch? "body" = ws.branchHead? b.id defaultBranch := hnode.branch?_eq hsingle
  have htrue := hnode.isSome_branch? "true"
  rw [loopBody, hbody, countedBody?, Uncounted, ← htrue]
  rcases ws.branchHead? b.id defaultBranch with _ | head
  · rcases n.branch? "true" with _ | other
    · exact .inl ⟨by simp, rfl⟩
    · exact .inr ⟨.inr ⟨rfl, rfl⟩, rfl, rfl⟩
  · by_cases hempty : head = ""
    · exact .inr ⟨.inl (congrArg some hempty), rfl, by simp [hempty]⟩
    · have hnamed : (head != "") = true := by simpa using hempty
      exact .inl ⟨by simp [hempty], by rw [Option.some_or, Option.filter_some, if_pos hnamed]⟩

end NodeOf

/-! ## The type of the ender -/

theorem repeatEnderType_eq (size : Nat) :
    repeatEnderType size = "repeat_loop_ender_" ++ Nat.repr (min 7 size) := by
  have hvariant : clampVariant size = min 7 size := by
    rw [clampVariant, maxVariant]
    omega
  rw [repeatEnderType, hvariant]
  rfl

/-- Two sizes have the same type if they are the same or both as large as the largest variant. -/
theorem repeatEnderType_inj {m n : Nat} :
    repeatEnderType m = repeatEnderType n ↔ min 7 m = min 7 n := by
  have hrepr : ∀ a ≤ 7, ∀ b ≤ 7, Nat.repr a = Nat.repr b → a = b := by decide
  rw [repeatEnderType_eq, repeatEnderType_eq, String.append_right_inj]
  exact ⟨hrepr _ (Nat.min_le_left 7 m) _ (Nat.min_le_left 7 n), congrArg _⟩

/-! ## The whole call -/

/-- **The ender of a loop counts the body that is shown.** When a call has gone through for a loop in
a workspace that an editor can come to, the ender that is answered is of the variant for the body
that the editor shows under `body`, if the head of this has a name, and as large as the largest
variant at most. Where no two edges compete for the body, that is the variant for the body that the
compiled program runs, exactly unless the head of the body has an empty id or the loop has no `body`
and runs the branch `true` instead. -/
theorem ensureRepeatEnder_counts (hws : Reachable ws) {r : Block} (hr : r ∈ ws.blocks)
    (hloop : r.type = .str "repeat_times" ∨ r.type = .str "repeat_until")
    (h : ensureRepeatEnder r.id ws = (.ok id, ws')) {p : Program}
    (hp : build ws'.blocks ws'.edges = .ok p) :
    ∃ ender n counted run, ws'.block? id = some ender ∧ p.node? r.id = some n ∧
      p.Chain (ws'.countedBody? r.id) counted ∧
      ender.type = .str ("repeat_loop_ender_" ++ Nat.repr (min 7 counted.length)) ∧
      p.Chain (loopBody n) run ∧
      (Single (fillsBranch r.id (some defaultBranch)) ws'.edges →
        (ender.type = .str ("repeat_loop_ender_" ++ Nat.repr (min 7 run.length)) ↔
          ¬ ws'.Uncounted r.id)) := by
  have hpairing : pairing? r.type = .ok (some .loop) := by
    rcases hloop with hloop | hloop <;> rw [hloop] <;> rfl
  obtain ⟨hpaired, ender, hender, rfl, htype⟩ := paired_of_ensureRepeatEnder hpairing h
  have hdistinct := hpaired.distinct hws.distinct
  have hwf : WellFormed ws' := hws.wellFormed.keep hpaired.edges fun _ => hpaired.has
  obtain ⟨n, hn⟩ := Option.isSome_iff_exists.1
    ((isSome_node?_build hp r.id).trans (hpaired.has (has_of_mem hr)))
  obtain ⟨b, hb, hnode⟩ := exists_nodeOf hwf hdistinct hp hn
  obtain ⟨counted, hcounted, hsize⟩ := chain_countedBody hwf hdistinct hp r.id
  obtain ⟨run, hrun⟩ := exists_chain hwf hdistinct hp (leads_loopBody (closed_build hp) hn)
  rw [← wantedType_congr hpaired.edges, wantedType, hsize] at htype
  refine ⟨ender, n, counted, run, block?_of_mem hdistinct hender, hn, hcounted, ?_, hrun,
    fun hsingle => ?_⟩
  · rw [htype, repeatEnderType_eq]
  rw [htype, ← repeatEnderType_eq, Value.str.injEq, repeatEnderType_inj]
  rw [← block?_id hb] at hsingle hcounted ⊢
  rcases hnode.loopBody_cases hsingle with ⟨hcount, hsame⟩ | ⟨hmissed, hsome, hnone⟩
  · rw [hsame] at hrun
    rw [hcounted.unique hrun]
    exact iff_of_true rfl hcount
  · obtain ⟨x, hx⟩ := Option.isSome_iff_exists.1 hsome
    rw [hx] at hrun
    rw [hnone] at hcounted
    cases hcounted
    cases hrun
    refine iff_of_false ?_ (not_not.2 hmissed)
    rw [List.length_nil, List.length_cons]
    omega

/-- A loop around two blocks, which it has under a given key. -/
def loopOver (key : String) : Workspace where
  blocks := [
    { id := "r", type := .str "repeat_times" },
    { id := "s", type := .str "say" },
    { id := "t", type := .str "clear" }]
  edges := [.toBranch "r" (some key) "s", .stack "s" "t"]

/-- Under `body` the loop runs both blocks, and both are counted. -/
theorem ensureRepeatEnder_loopOver_body : ∃ ws' p id ender n,
    ensureRepeatEnder "r" (loopOver "body") = (.ok id, ws') ∧
    build ws'.blocks ws'.edges = .ok p ∧ ws'.block? id = some ender ∧ p.node? "r" = some n ∧
    p.Chain (loopBody n) ["s", "t"] ∧ ender.type = .str "repeat_loop_ender_2" := by
  have hdrawn : ofGraph (loopOver "body").snapshot = .ok (loopOver "body") := by
    with_unfolding_all rfl
  obtain ⟨ws', id, p, n, hcall, hedges, hp, hn, hchain⟩ : ∃ ws' id p n,
      ensureRepeatEnder "r" (loopOver "body") = (.ok id, ws') ∧
      ws'.edges = (loopOver "body").edges ∧ build ws'.blocks ws'.edges = .ok p ∧
      p.node? "r" = some n ∧ p.Chain (loopBody n) ["s", "t"] :=
    ⟨_, _, _, _, rfl, rfl, rfl, rfl, .some rfl (.some rfl .none)⟩
  obtain ⟨ender, n', -, run, hender, hn', -, -, hrun, htype⟩ :=
    ensureRepeatEnder_counts (.drawn 0 hdrawn) List.mem_cons_self (.inl rfl) hcall hp
  obtain rfl := Option.some.inj (hn.symm.trans hn')
  obtain rfl := hchain.unique hrun
  refine ⟨ws', p, id, ender, n, hcall, hp, hender, hn, hchain, (htype ?_).2 ?_⟩
  · rw [hedges]
    decide
  · rw [Uncounted, branchHead?, branchHead?, target?, target?, hedges]
    decide

/-- **Under `true` the loop runs them, and none is counted.** -/
theorem ensureRepeatEnder_loopOver_true : Reachable (loopOver "true") ∧ ∃ ws' p id ender n,
    ensureRepeatEnder "r" (loopOver "true") = (.ok id, ws') ∧
    build ws'.blocks ws'.edges = .ok p ∧ ws'.block? id = some ender ∧ p.node? "r" = some n ∧
    p.Chain (loopBody n) ["s", "t"] ∧ ender.type = .str "repeat_loop_ender_0" := by
  have hdrawn : ofGraph (loopOver "true").snapshot = .ok (loopOver "true") := by
    with_unfolding_all rfl
  refine ⟨.drawn 0 hdrawn, _, _, _, _, _, rfl, rfl, rfl, rfl, ?_, ?_⟩
  · exact .some rfl (.some rfl .none)
  · rfl

end Workspace

end BlockProgram
