import BlockProgram.Proofs.Program.Compile
import BlockProgram.Proofs.Program.Stacks
import BlockProgram.Proofs.Workspace.Failure

/-!
# Blocks that end the program

A workspace is **terminal** (`Workspace.Terminal`) if no edge leaves a block that ends the program.
No edge is drawn that does, not even by joining the stack around a deleted block. But the guard
looks at types only when an edge is proposed: an update can turn the source of an edge into a `stop`
block (`Request.StopsSource`). This is the one request that leaves a workspace that is not terminal
(`Workspace.terminal_perform_iff`).

Drawing a terminal workspace anew keeps its stack edges in order (`Workspace.stackLinks_redrawn`).
So the program that is compiled from the drawn one starts at the same block and goes on alike.
-/

namespace BlockProgram

namespace Workspace

variable {ws ws' : Workspace} {id : String}

/-- No edge leaves a block that ends the program. -/
def Terminal (ws : Workspace) : Prop := ∀ e ∈ ws.edges, ws.isStop e.source = false

/-! ## Altered blocks -/

theorem block?_modifyBlock {f : Block → Block} (hf : ∀ b, b.id = id → (f b).id = id)
    (other : String) : (ws.modifyBlock id f).block? other =
      (ws.block? other).map fun b => if b.id == id then f b else b := by
  have hids : ((fun b : Block => b.id == other) ∘ fun b => if b.id == id then f b else b) =
      fun b => b.id == other := by
    funext b
    simp only [Function.comp]
    split
    · rename_i hid
      rw [beq_iff_eq] at hid
      rw [hf b hid, hid]
    · rfl
  rw [block?, modifyBlock, List.find?_map, hids]
  rfl

theorem isStop_modifyBlock_of_ne {f : Block → Block} (hf : ∀ b, b.id = id → (f b).id = id)
    {other : String} (hne : other ≠ id) :
    (ws.modifyBlock id f).isStop other = ws.isStop other := by
  simp only [isStop, block?_modifyBlock hf]
  rcases hb : ws.block? other with _ | b
  · rfl
  · have hid : b.id ≠ id := by rwa [block?_id hb]
    simp [hid]

theorem StaysRunning.isStop {f : Block → Block} (h : ws.StaysRunning id f)
    (hf : ∀ b, b.id = id → (f b).id = id) {other : String} (hrunning : ws.isStop other = false) :
    (ws.modifyBlock id f).isStop other = false := by
  by_cases hother : other = id
  · subst hother
    simp only [Workspace.isStop, block?_modifyBlock hf] at hrunning ⊢
    rcases hb : ws.block? other with _ | b
    · rfl
    · simp only [hb] at hrunning
      have hid : (b.id == other) = true := by simpa using block?_id hb
      simp only [Option.map_some, hid, if_true]
      exact Bool.eq_false_iff.2 fun hstop => Bool.eq_false_iff.1 hrunning (h b hb hstop)
  · rw [isStop_modifyBlock_of_ne hf hother]
    exact hrunning

/-! ## What changes keep -/

theorem isStop_append_of_has (b : Block) {other : String} (hknown : ws.has other = true) :
    isStop { ws with blocks := ws.blocks ++ [b] } other = ws.isStop other := by
  obtain ⟨b', hb'⟩ := Option.isSome_iff_exists.1
    (show (ws.block? other).isSome = true from List.find?_isSome.2 (List.any_eq_true.1 hknown))
  have hfound : block? { ws with blocks := ws.blocks ++ [b] } other = some b' := by
    rw [block?, List.find?_append, show ws.blocks.find? (·.id == other) = some b' from hb',
      Option.some_or]
  rw [isStop, isStop, hb', hfound]

theorem block?_lacking (id other : String) :
    (ws.lacking id).block? other = if other = id then none else ws.block? other := by
  change (ws.blocks.filter (·.id != id)).find? (·.id == other) = _
  rw [List.find?_filter]
  split
  · rename_i hother
    rw [List.find?_eq_none]
    rintro b - hb
    simp [hother] at hb
  · rename_i hother
    rw [block?]
    congr 1
    funext b
    by_cases hid : b.id = other
    · simp [hid, hother]
    · simp [hid]

theorem isStop_lacking (id : String) {other : String} (h : ws.isStop other = false) :
    (ws.lacking id).isStop other = false := by
  rw [isStop, block?_lacking]
  split
  · rename_i b hb
    rw [isStop, (Option.ite_none_left_eq_some.1 hb).2] at h
    exact h
  · rfl

theorem Terminal.replace (h : Terminal ws) {rivals : Edge → Bool} {e : Edge}
    (hrunning : ws.isStop e.source = false) : Terminal (ws.replaceEdges rivals e) := by
  intro e' he'
  rcases List.mem_append.1 he' with he' | he'
  · exact h e' (List.mem_filter.1 he').1
  · rw [List.mem_singleton.1 he']
    exact hrunning

theorem Terminal.lacking (h : Terminal ws) (id : String) : Terminal (ws.lacking id) := by
  intro e he
  rw [edges_lacking] at he
  exact isStop_lacking id (h e (List.mem_filter.1 he).1)

/-- The stack around a deleted block is joined by an edge from where one came before. -/
theorem Terminal.delete (h : Terminal ws) (id : String) : Terminal (ws.deleteBlock id).2 := by
  rcases deleteBlock_cases ws id with hsame | hgone | ⟨above, below, habove, -, hjoined⟩
  · rw [hsame]
    exact h
  · rw [hgone]
    exact h.lacking id
  · obtain ⟨e, he, rfl⟩ := Option.map_eq_some_iff.1 habove
    rw [hjoined]
    exact (h.lacking id).replace (isStop_lacking id (h e (List.mem_of_find?_eq_some he)))

/-- **Changes that turn no block into one that ends the program keep a workspace terminal.** -/
theorem Terminal.plain (h : Terminal ws) (hws : WellFormed ws) (hchange : Plain False ws ws') :
    Terminal ws' := by
  cases hchange with
  | keep hblocks hedges _ =>
    intro e he
    rw [hedges] at he
    rw [isStop, block?, hblocks]
    exact h e he
  | alter hf hstays => exact fun e he => (hstays.resolve_left id).isStop hf (h e he)
  | add _ =>
    intro e he
    rw [isStop_append_of_has _ (hws.ends e he).1]
    exact h e he
  | remove p => exact fun e he => h e (List.mem_filter.1 he).1
  | stack hcan => exact h.replace (canConnect_iff.1 hcan).2.2.1
  | branch _ hcan => exact h.replace (canConnect_iff.1 hcan).2.2.1
  | plugIn _ hcan => exact h.replace (canConnect_iff.1 hcan).2.2.1
  | delete id => exact h.delete id

end Workspace

/-- An update that turns a block into one that ends the program while an edge leaves it. -/
def Request.StopsSource (r : Request) (ws : Workspace) : Prop :=
  ∃ id updates, r = .updateBlock (.str id) updates ∧ (r.perform ws).2.isStop id = true ∧
    ∃ e ∈ ws.edges, e.source = id

namespace Workspace

variable {ws ws' : Workspace}

/-- **Requests other than updates** keep a workspace terminal. -/
theorem Terminal.perform (h : Terminal ws) (hws : WellFormed ws) {r : Request}
    (hr : ∀ id updates, r ≠ .updateBlock id updates) : Terminal (r.perform ws).2 := by
  have hplain {ws ws' : Workspace} (h : WellFormed ws ∧ Terminal ws)
      (hchange : Plain False ws ws') : WellFormed ws' ∧ Terminal ws' :=
    ⟨h.1.plain hchange, h.2.plain h.1 hchange⟩
  have hbranch {ws : Workspace} {parent child : String} {key : Option String}
      (h : WellFormed ws ∧ Terminal ws) (hcan : ws.canConnect parent child = true) :
      WellFormed (ws.replaceEdges (fillsBranch parent key) (.toBranch parent key child)) ∧
        Terminal (ws.replaceEdges (fillsBranch parent key) (.toBranch parent key child)) :=
    ⟨wellFormed_branch h.1 hcan, h.2.replace (canConnect_iff.1 hcan).2.2.1⟩
  exact (kept_perform hplain hbranch ⟨hws, h⟩ hr).2

/-- **An update keeps a workspace terminal** unless it stops the source of an edge. -/
theorem Terminal.update (h : Terminal ws) {id updates : Value}
    (hr : ¬ (Request.updateBlock id updates).StopsSource ws) :
    Terminal ((Request.updateBlock id updates).perform ws).2 := by
  rcases Request.update_cases id updates ws with
    ⟨_, hrefused⟩ | ⟨name, entries, rfl, rfl, hentries, hname⟩
  · rw [hrefused]
    exact h
  · have hset := congrArg Prod.snd (Request.perform_updateBlock hentries hname)
    intro e he
    have hedge : e ∈ ws.edges := by rwa [hset] at he
    by_cases hsource : e.source = name
    · refine Bool.eq_false_iff.2 fun hstop => hr ⟨name, _, rfl, ?_, e, hedge, hsource⟩
      rwa [hsource] at hstop
    · rw [hset, isStop_modifyBlock_of_ne (fun b hid => (b.id_assignAll _).trans hid) hsource]
      exact h e hedge

/-- **A request leaves a terminal workspace terminal exactly if it does not stop the source of an
edge.** -/
theorem terminal_perform_iff (h : Terminal ws) (hws : WellFormed ws) (r : Request) :
    Terminal (r.perform ws).2 ↔ ¬ r.StopsSource ws := by
  constructor
  · rintro hterminal ⟨id, updates, rfl, hstop, e, he, hsource⟩
    have hedge : e ∈ ((Request.updateBlock (.str id) updates).perform ws).2.edges := by
      rcases Request.update_cases (.str id) updates ws with
        ⟨_, hrefused⟩ | ⟨_, _, hid, rfl, hentries, hname⟩
      · rwa [hrefused]
      · rwa [hid, Request.perform_updateBlock hentries hname]
    have hrunning := hterminal e hedge
    rw [hsource, hstop] at hrunning
    cases hrunning
  · intro hr
    by_cases hupdate : ∃ id updates, r = .updateBlock id updates
    · obtain ⟨id, updates, rfl⟩ := hupdate
      exact h.update hr
    · exact h.perform hws fun id updates hr => hupdate ⟨id, updates, hr⟩

theorem ReachableBy.terminal (h : ReachableBy (fun ws r => ¬ r.StopsSource ws) ws) :
    Terminal ws := by
  induction h with
  | @drawn g ws issued hdrawn =>
    obtain ⟨-, rfl⟩ := ofGraph_ok hdrawn
    exact (redrawn_foldl g.blocks g.edges).running
  | @asked ws r hws hr ih => exact (terminal_perform_iff ih hws.wellFormed r).2 hr

/-! ## Drawing a workspace anew -/

theorem stackLinks_trimmed (e : Edge) : stackLinks [e.trimmed] = stackLinks [e] := by
  simp only [stackLinks, List.filter_cons, List.filter_nil, Edge.kind_trimmed]
  split
  · simp only [List.map_cons, List.map_nil, Edge.source_trimmed, Edge.target_trimmed]
  · rfl

/-- Stack edges stay where none of them gives way. -/
theorem stackLinks_drawnIn {edges : List Edge} {e : Edge} (hstay : ∀ e' ∈ edges,
      e'.kind = .stack → e.connection.replaces e.source e.target e' = false) :
    stackLinks (e.connection.drawnIn e.source e.target edges) = stackLinks (edges ++ [e]) := by
  have hkept : stackLinks (edges.filter fun e' => !e.connection.replaces e.source e.target e') =
      stackLinks edges := by
    rw [stackLinks, List.filter_filter, stackLinks]
    congr 1
    refine List.filter_congr fun e' he' => ?_
    by_cases hkind : e'.kind = .stack
    · rw [hstay e' he' hkind, hkind]
      rfl
    · rw [beq_eq_false_iff_ne.2 hkind, Bool.false_and]
  rw [Connection.drawnIn, stackLinks_append, stackLinks_append, hkept]
  exact congrArg _ (stackLinks_trimmed e)

/-- No stack edge gives way to an edge that comes after it. -/
theorem WellFormed.stack_stays (hws : WellFormed ws) {done rest : List Edge} {e e' : Edge}
    (hedges : ws.edges = done ++ e :: rest) (hkind' : e'.kind = .stack)
    (hlink : (e'.source, e'.target) ∈ stackLinks done) :
    e.connection.replaces e.source e.target e' = false := by
  obtain ⟨e₀, he₀, hkind₀, hsource₀, htarget₀⟩ := mem_stackLinks.1 hlink
  have hbefore : e₀ ∈ done ++ rest := List.mem_append_left _ he₀
  rcases hkind : e.kind
  all_goals simp only [Edge.connection, hkind, Connection.replaces]
  · have hsuccessor := hws.successor e.source
    have hpredecessor := hws.predecessor e.target
    rw [hedges, single_split_iff (by simp [hkind])] at hsuccessor hpredecessor
    have hout := hsuccessor e₀ hbefore
    have hin := hpredecessor e₀ hbefore
    rw [hkind₀, hsource₀] at hout
    rw [hkind₀, htarget₀] at hin
    rw [rivalsStack, hkind', Bool.and_or_distrib_left, hout, hin]
    rfl
  · simp [fillsBranch, hkind']
  · simp [fillsSocket, hkind']

/-- **The stack edges of a terminal workspace are drawn again and stay**, in their order. -/
theorem stackLinks_redrawn (h : Terminal ws) (hws : WellFormed ws) {done rest : List Edge}
    (hedges : ws.edges = done ++ rest) :
    stackLinks (done.foldl redraw { blocks := ws.blocks }).edges = stackLinks done := by
  induction done using List.reverseRecOn generalizing rest with
  | nil => rfl
  | append_singleton done e ih =>
    rw [List.append_assoc] at hedges
    have hsame := ih hedges
    have hmem : e ∈ ws.edges := by simp [hedges]
    have hcan := hws.canConnect_redrawn (redrawn_foldl ws.blocks done) hedges (h e hmem)
    have hstay (e' : Edge) (he' : e' ∈ (done.foldl redraw { blocks := ws.blocks }).edges)
        (hkind : e'.kind = .stack) : e.connection.replaces e.source e.target e' = false := by
      refine hws.stack_stays hedges hkind ?_
      rw [← hsame]
      exact mem_stackLinks.2 ⟨e', he', hkind, rfl, rfl⟩
    rw [List.foldl_append]
    change stackLinks (redraw _ e).edges = _
    rw [redraw, if_pos hcan]
    change stackLinks (e.connection.drawnIn _ _ _) = _
    rw [stackLinks_drawnIn hstay, stackLinks_append, hsame, ← stackLinks_append]

/-! ## Compiling a workspace and its snapshot -/

/-- A terminal workspace and the one drawn anew from its snapshot start alike and go on alike. -/
theorem sameStacks_of_compile (h : Terminal ws) (hws : WellFormed ws) {p q : Program}
    (hp : (Source.workspace ws).compile = .ok p)
    (hq : (Source.graph ws.snapshot).compile = .ok q) : Program.SameStacks p q := by
  simp only [Source.compile, Source.snapshot, ProgramGraph.repaired] at hq
  rcases hdrawn : ofGraph ws.snapshot with fault | ws' <;> rw [hdrawn] at hq
  · cases hq
  obtain ⟨-, rfl⟩ := ofGraph_ok hdrawn
  obtain ⟨sockets, -, hblocks⟩ := (redrawn_foldl ws.blocks ws.edges).blocks
  refine Program.sameStacks_of_build hp hq ?_ ?_
  · change (List.foldl redraw { blocks := ws.blocks } ws.edges).blocks.map Block.label = _
    rw [hblocks, List.map_map]
    refine List.map_congr_left fun b _ => ?_
    rw [Function.comp, Block.label, Block.id_blank, Block.type_blank, Block.label]
  · exact stackLinks_redrawn h hws (List.append_nil ws.edges).symm

/-- With blocks in order, both can be compiled. -/
theorem exists_compile (hdistinct : Distinct ws) (hblocks : ∀ b ∈ ws.blocks, b.InOrder) :
    ∃ p q, (Source.workspace ws).compile = .ok p ∧
      (Source.graph ws.snapshot).compile = .ok q := by
  have hdrawable : Drawable { blocks := ws.snapshot.blocks } :=
    ⟨hdistinct, fun b hb => (hblocks b hb).2.1⟩
  obtain ⟨sockets, -, hdrawn⟩ := (redrawn_foldl ws.blocks ws.edges).blocks
  obtain ⟨p, hp⟩ := Program.exists_build hblocks ws.edges
  obtain ⟨q, hq⟩ : ∃ q, (ws.edges.foldl redraw { blocks := ws.blocks }).snapshot.build = .ok q := by
    refine Program.exists_build (fun b hb => ?_) _
    have hmem : b ∈ ws.blocks.map fun b => b.blank (sockets b.id) := hdrawn ▸ hb
    obtain ⟨b₀, hb₀, rfl⟩ := List.mem_map.1 hmem
    exact (hblocks b₀ hb₀).blank _
  refine ⟨p, q, hp, ?_⟩
  rw [Source.compile, Source.snapshot, ProgramGraph.repaired, ofGraph_eq hdrawable]
  exact hq

/-- **No edge leaves a block that ends the program** as long as no update stops the source of an
edge. Then a program starts alike and goes on alike before and after its workspace is drawn anew,
and the next request leaves an edge from such a block exactly if it is such an update. -/
theorem terminal_of_reachableBy (h : ReachableBy (fun ws r => ¬ r.StopsSource ws) ws) :
    (∀ e ∈ ws.edges, ws.isStop e.source = false) ∧
      (∀ p q, (Source.workspace ws).compile = .ok p →
        (Source.graph ws.snapshot).compile = .ok q → Program.SameStacks p q) ∧
      ((∀ b ∈ ws.blocks, b.InOrder) → ∃ p q, (Source.workspace ws).compile = .ok p ∧
        (Source.graph ws.snapshot).compile = .ok q) ∧
      ∀ r : Request, (∀ e ∈ (r.perform ws).2.edges, (r.perform ws).2.isStop e.source = false) ↔
        ¬ r.StopsSource ws := by
  have hterminal : Terminal ws := h.terminal
  refine ⟨hterminal, fun p q hp hq => sameStacks_of_compile hterminal h.wellFormed hp hq,
    exists_compile h.distinct, terminal_perform_iff hterminal h.wellFormed⟩

/-- A block that a program starts at, in the stack of another one. -/
def startBelow : Workspace where
  blocks := [{ id := "a", type := .str "say" }, { id := "b", type := .str "start" }]
  edges := [.stack "a" "b"]

theorem reachable_startBelow {may : Workspace → Request → Prop} : ReachableBy may startBelow := by
  have hdrawable : Drawable { blocks := startBelow.blocks } := by
    refine ⟨?_, ?_⟩
    · simp [Distinct, startBelow]
    · simp [startBelow, Block.HasInputs]
  have hcan : canConnect { blocks := startBelow.blocks } "a" "b" = true := by decide +kernel
  have hgraph : ofGraph startBelow.snapshot = .ok startBelow :=
    (ofGraph_eq hdrawable).trans (congrArg Except.ok (if_pos hcan))
  exact .drawn 0 hgraph

/-- An update of a type. -/
def setType (id type : String) : Request :=
  .updateBlock (.str id) (.dict [(.str "type", .str type)])

/-- The block below may end the program, the one above may not. -/
theorem terminal_startBelow : Terminal ((setType "b" "stop").perform startBelow).2 ∧
    ¬ Terminal ((setType "a" "stop").perform startBelow).2 := by
  obtain ⟨-, -, -, hiff⟩ := terminal_of_reachableBy reachable_startBelow
  refine ⟨(hiff _).2 ?_, fun hterminal => (hiff _).1 hterminal ?_⟩
  · rintro ⟨id, updates, hr, -, e, he, hsource⟩
    cases hr
    rw [List.mem_singleton.1 he] at hsource
    exact absurd hsource (by decide)
  · exact ⟨"a", _, rfl, by decide +kernel, .stack "a" "b", List.mem_singleton_self _, rfl⟩

/-- **An edge that leaves a `stop` block**: the program of the workspace starts at that block and
goes on from there, the one of the workspace drawn anew starts elsewhere. -/
theorem compile_retyped : ∃ ws, Reachable ws ∧ (∃ e ∈ ws.edges, ws.isStop e.source = true) ∧
    ∃ p q, (Source.workspace ws).compile = .ok p ∧ (Source.graph ws.snapshot).compile = .ok q ∧
      p.entry = some "a" ∧ q.entry = some "b" ∧
      (p.node? "a").bind (·.next) = some "b" ∧ (q.node? "a").bind (·.next) = none := by
  refine ⟨((setType "a" "stop").perform startBelow).2, .asked reachable_startBelow trivial,
    ⟨.stack "a" "b", List.mem_singleton_self _, by decide +kernel⟩, ?_⟩
  exact ⟨_, _, rfl, rfl, rfl, rfl, rfl, rfl⟩

end Workspace

end BlockProgram
