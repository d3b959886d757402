import BlockProgram.Run.Execution
import BlockProgram.Proofs.Program.Evaluate
import BlockProgram.Proofs.Workspace.Orderly

/-!
# Compiling an orderly graph

A bare graph is drawn anew before it is compiled. The edges of an orderly graph all come through,
but with only the fields of their kinds, and sockets that are plugged in hold the empty text.
Neither can be told from the program:

* a link reads nothing of an edge but the fields of its kind (`Program.linkAll_trimmed`);
* a link to a reporter is stored over what the socket held before. The empty text only gives the
  socket its place among the inputs, and edges plug in in the same order as they are linked
  (`Program.linkAll_node_blank`).

So compiling an orderly graph gives the program that is built from it directly
(`ProgramGraph.Orderly.compile_eq_build`).
-/

namespace BlockProgram

/-! ## The nodes of blocks -/

/-- A node with other inputs. -/
def Node.withInputs (n : Node) (inputs : Dict) : Node := { n with inputs }

namespace Block

variable {b : Block}

/-- The unlinked node of a block that is in order. -/
def node (b : Block) : Node where
  id := b.id
  type := b.type
  inputs := (b.inputs.dict?.getD []).map fun (socket, raw) => (socket, slotValue socket raw)

theorem InOrder.nodeOfBlock_eq (h : b.InOrder) : Program.nodeOfBlock b = .ok b.node := by
  obtain ⟨-, ⟨inputs, hinputs⟩, ⟨data, hdata⟩⟩ := h
  simp only [Program.nodeOfBlock, node, hinputs, hdata]
  rfl

theorem InOrder.blank (h : b.InOrder) (sockets : List String) : (b.blank sockets).InOrder := by
  obtain ⟨htype, ⟨inputs, hinputs⟩, hdata⟩ := h
  rw [inputs_blank hinputs]
  exact ⟨htype, ⟨_, rfl⟩, hdata⟩

theorem node_blank (h : b.HasInputs) (sockets : List String) : (b.blank sockets).node =
    b.node.withInputs (Dict.setAll b.node.inputs
      (sockets.map fun s => (s, slotValue (.str s) (.str "")))) := by
  obtain ⟨inputs, hinputs⟩ := h
  have hmap := Dict.map_setAll slotValue inputs (sockets.map fun s => (s, .str ""))
  rw [List.map_map] at hmap
  simp only [inputs_blank hinputs, node, hinputs, Value.dict?, Option.getD_some, hmap]
  rfl

end Block

namespace Program

variable {blocks : List Block} {nodes : List Node} {edges : List Edge} {id : String}

theorem putNode_of_new {n : Node} (h : nodes.any (·.id == n.id) = false) :
    putNode nodes n = nodes ++ [n] := by
  induction nodes with
  | nil => rfl
  | cons m rest ih =>
    rw [List.any_cons, Bool.or_eq_false_iff] at h
    rw [putNode, h.1, ih h.2]
    rfl

/-- Blocks with distinct ids have a node each, in their order. -/
theorem nodesOfBlocks_eq (hids : (blocks.map (·.id)).Nodup) (h : ∀ b ∈ blocks, b.InOrder) :
    nodesOfBlocks blocks = .ok (blocks.map Block.node) := by
  suffices ∀ done, ((done ++ blocks).map (·.id)).Nodup →
      blocks.foldlM (fun nodes b => (nodeOfBlock b).map (putNode nodes)) (done.map Block.node) =
        .ok ((done ++ blocks).map Block.node) from this [] hids
  intro done hnodup
  clear hids
  induction blocks generalizing done with
  | nil => rw [List.append_nil]; rfl
  | cons b rest ih =>
    have hnew : (done.map Block.node).any (·.id == b.node.id) = false := by
      rw [List.map_append, List.nodup_append] at hnodup
      rw [List.any_map, List.any_eq_false]
      intro b' hb' hid
      refine hnodup.2.2 b'.id (List.mem_map_of_mem hb') b.id
        (List.mem_map_of_mem List.mem_cons_self) ?_
      exact beq_iff_eq.1 hid
    have hput : (nodeOfBlock b).map (putNode (done.map Block.node)) =
        .ok ((done ++ [b]).map Block.node) := by
      rw [(h b List.mem_cons_self).nodeOfBlock_eq, Except.map, putNode_of_new hnew, List.map_append]
      rfl
    rw [List.append_cons] at hnodup ⊢
    rw [List.foldlM_cons, hput]
    exact ih (fun b' hb' => h b' (List.mem_cons_of_mem _ hb')) _ hnodup

/-! ## Links of trimmed edges -/

theorem linkNode_trimmed {e : Edge} (h : e.Named) (n : Node) :
    linkNode e.trimmed n = linkNode e n := by
  rcases hkind : e.kind
  all_goals simp only [linkNode, Edge.kind_trimmed, hkind, Edge.target_trimmed]
  · rw [Edge.branch_trimmed hkind, Edge.branchKey_branchKey]
  · obtain ⟨socket, hsocket⟩ := Option.isSome_iff_exists.1 (h hkind)
    rw [Edge.socket_trimmed hkind, hsocket, Option.getD_some]

theorem linkAll_trimmed (h : ∀ e ∈ edges, e.Named) (n : Node) :
    linkAll (edges.map Edge.trimmed) n = linkAll edges n := by
  induction edges generalizing n with
  | nil => rfl
  | cons e rest ih =>
    rw [List.map_cons, linkAll, List.foldl_cons, linkNode_trimmed (h e List.mem_cons_self)]
    exact ih (fun e' he' => h e' (List.mem_cons_of_mem _ he')) _

/-! ## Links to reporters -/

/-- What an edge stores at a socket. -/
def references (e : Edge) : List (String × Value) :=
  match e.kind, e.socket with
  | .input, some socket => [(socket, .ref e.target)]
  | _, _ => []

theorem linkNode_withInputs (e : Edge) (n : Node) (d : Dict) :
    linkNode e (n.withInputs d) =
      (linkNode e n).withInputs (Dict.setAll d (references e)) := by
  rcases hkind : e.kind
  all_goals simp only [linkNode, references, hkind]
  · rfl
  · rfl
  · cases e.socket <;> rfl

/-- The inputs of a linked node are those before, with the links stored over them. -/
theorem linkAll_withInputs (n : Node) (d : Dict) : linkAll edges (n.withInputs d) =
    (linkAll edges n).withInputs (Dict.setAll d (edges.flatMap references)) := by
  induction edges generalizing n d with
  | nil => rfl
  | cons e rest ih =>
    rw [List.flatMap_cons, Dict.setAll_append, linkAll, List.foldl_cons, linkNode_withInputs]
    exact ih (linkNode e n) _

/-- Edges plug in at sockets in the order in which they are linked. -/
theorem plugsOf_eq (h : ∀ e ∈ edges, e.Named) : ProgramGraph.plugsOf edges id =
    ((leaving edges id).flatMap references).map (·.1) := by
  induction edges with
  | nil => rfl
  | cons e rest ih =>
    have hrest := ih fun e' he' => h e' (List.mem_cons_of_mem _ he')
    rw [ProgramGraph.plugsOf, List.flatMap_cons]
    refine (congrArg (e.connection.plugs e.source id ++ ·) hrest).trans ?_
    simp only [leaving, List.filter_cons]
    by_cases hid : e.source = id
    · have hplugs : e.connection.plugs e.source id = (references e).map (·.1) := by
        rcases hkind : e.kind
        all_goals simp only [Edge.connection, Connection.plugs, references, hkind]
        · rfl
        · rfl
        · obtain ⟨socket, hsocket⟩ := Option.isSome_iff_exists.1 (h e List.mem_cons_self hkind)
          simp [hsocket, hid]
      rw [if_pos (beq_iff_eq.2 hid), List.flatMap_cons, List.map_append, hplugs]
    · have hnone : e.connection.plugs e.source id = [] := by
        refine List.eq_nil_iff_forall_not_mem.2 fun socket hsocket => ?_
        exact hid (Workspace.mem_plugs.1 hsocket).2.symm
      rw [if_neg (mt beq_iff_eq.1 hid), hnone, List.nil_append]

/-- **Blanking the sockets that are plugged in does not show in the linked node.** -/
theorem linkAll_node_blank {b : Block} (hinputs : b.HasInputs) (h : ∀ e ∈ edges, e.Named) :
    linkAll (leaving edges b.id) (b.blank (ProgramGraph.plugsOf edges b.id)).node =
      linkAll (leaving edges b.id) b.node := by
  have hnode : b.node.withInputs b.node.inputs = b.node := rfl
  rw [Block.node_blank hinputs, plugsOf_eq h, List.map_map, linkAll_withInputs]
  refine (congrArg (linkAll _ b.node).withInputs (Dict.setAll_setAll b.node.inputs _
    fun s => slotValue (.str s) (.str ""))).trans ?_
  rw [← linkAll_withInputs, hnode]

/-! ## The whole program -/

/-- The program of blocks with distinct ids and of edges between them. -/
def linked (blocks : List Block) (edges : List Edge) : Program :=
  let nodes := blocks.map fun b => linkAll (leaving edges b.id) b.node
  let roots := (blocks.map (·.id)).filter fun id =>
    !edges.any fun e => e.kind == .stack && e.target == id
  ⟨nodes, roots, chooseEntry nodes roots⟩

theorem build_eq_linked (hids : (blocks.map (·.id)).Nodup) (hblocks : ∀ b ∈ blocks, b.InOrder)
    (hends : ∀ e ∈ edges, blocks.any (·.id == e.source) = true ∧
      blocks.any (·.id == e.target) = true) :
    build blocks edges = .ok (linked blocks edges) := by
  have hknown (e : Edge) (he : e ∈ edges) : isKnown (blocks.map Block.node) e = true := by
    rw [isKnown, List.any_map, List.any_map, Bool.and_eq_true]
    exact hends e he
  have hleaving (id : String) : outEdges (blocks.map Block.node) edges id = leaving edges id := by
    refine List.filter_congr fun e he => ?_
    rw [hknown e he, Bool.and_true]
  have hentered (id : String) : isEntered (blocks.map Block.node) edges id =
      edges.any fun e => e.kind == .stack && e.target == id := by
    rw [isEntered, Bool.eq_iff_iff, List.any_eq_true, List.any_eq_true]
    refine exists_congr fun e => and_congr_right fun he => ?_
    rw [hknown e he, Bool.and_true]
  have hnodes : edges.foldl linkEdge (blocks.map Block.node) =
      blocks.map fun b => linkAll (leaving edges b.id) b.node := by
    rw [foldl_linkEdge, List.map_map]
    simp only [hleaving]
    rfl
  simp only [build, nodesOfBlocks_eq hids hblocks]
  simp only [bind, Except.bind, hnodes, hentered]
  rfl

/-- Neither trimming edges nor blanking the sockets that they plug in at shows in the program. -/
theorem linked_trimmed (hinputs : ∀ b ∈ blocks, b.HasInputs) (h : ∀ e ∈ edges, e.Named) :
    linked (blocks.map fun b => b.blank (ProgramGraph.plugsOf edges b.id))
      (edges.map Edge.trimmed) = linked blocks edges := by
  have hleaving (id : String) : leaving (edges.map Edge.trimmed) id =
      (leaving edges id).map Edge.trimmed := by
    rw [leaving, List.filter_map]
    simp only [Function.comp_def, Edge.source_trimmed]
    rfl
  have hnodes : (blocks.map fun b => b.blank (ProgramGraph.plugsOf edges b.id)).map
      (fun b => linkAll (leaving (edges.map Edge.trimmed) b.id) b.node) =
      blocks.map fun b => linkAll (leaving edges b.id) b.node := by
    rw [List.map_map]
    refine List.map_congr_left fun b hb => ?_
    have hnamed : ∀ e ∈ leaving edges b.id, e.Named := fun e he => h e (List.mem_filter.1 he).1
    rw [Function.comp, Block.id_blank, hleaving, linkAll_trimmed hnamed,
      linkAll_node_blank (hinputs b hb) h]
  have hids : (blocks.map fun b => b.blank (ProgramGraph.plugsOf edges b.id)).map (·.id) =
      blocks.map (·.id) := by
    simp only [List.map_map, Function.comp_def, Block.id_blank]
  have hentered (id : String) :
      ((edges.map Edge.trimmed).any fun e => e.kind == .stack && e.target == id) =
        edges.any fun e => e.kind == .stack && e.target == id := by
    simp only [List.any_map, Function.comp_def, Edge.kind_trimmed, Edge.target_trimmed]
  simp only [linked, hnodes, hids, hentered]

end Program

namespace ProgramGraph

variable {g : ProgramGraph}

/-- **Compiling an orderly graph and building it as it is give the same program.** -/
theorem Orderly.compile_eq_build (h : g.Orderly) (hids : (g.blocks.map (·.id)).Nodup)
    (hblocks : ∀ b ∈ g.blocks, b.InOrder) :
    ∃ p, (Source.graph g).compile = .ok p ∧ g.build = .ok p := by
  have hinputs : ∀ b ∈ g.blocks, b.HasInputs := fun b hb => (hblocks b hb).2.1
  have hbuild : g.build = .ok (Program.linked g.blocks g.edges) :=
    Program.build_eq_linked hids hblocks h.ends
  have hdrawn : (g.drawnAll g.edges).snapshot.build =
      .ok (Program.linked (g.drawnAll g.edges).blocks (g.drawnAll g.edges).edges) := by
    have hids : ((g.drawnAll g.edges).blocks.map (·.id)).Nodup := by
      rw [ids_drawnAll]
      exact hids
    refine Program.build_eq_linked hids (fun b hb => ?_) fun e he => ?_
    · obtain ⟨b₀, hb₀, rfl⟩ := List.mem_map.1 hb
      exact (hblocks b₀ hb₀).blank _
    · obtain ⟨e₀, he₀, rfl⟩ := List.mem_map.1 he
      obtain ⟨hsource, htarget⟩ := h.ends e₀ he₀
      rw [Edge.source_trimmed, Edge.target_trimmed]
      exact ⟨(has_drawnAll _).trans hsource, (has_drawnAll _).trans htarget⟩
  refine ⟨_, ?_, hbuild⟩
  rw [Source.compile, Source.snapshot, h.repaired_eq ⟨hids, hinputs⟩]
  exact hdrawn.trans (congrArg Except.ok (Program.linked_trimmed hinputs h.named))

/-- A graph with slots left out, fields that are not of an edge's kind, and reporters plugged in
over typed-in text and where nothing was. -/
def loosely : ProgramGraph where
  blocks := [
    { id := "a", type := .str "start" },
    { id := "r", type := .str "repeat_times", inputs := .dict [(.str "times", .str "3")] },
    { id := "s", type := .str "say", inputs := .dict [] },
    { id := "z", type := .str "stop" },
    { id := "v", type := .str "variable", inputs := .dict [(.str "name", .str "n")] }]
  edges := [
    { kind := .stack, source := "a", target := "r", branch := some "then", socket := some "x" },
    .toBranch "r" none "s",
    .toInput "r" (some "times") "v",
    .toInput "s" (some "text") "v",
    .stack "r" "z"]

/-- What that graph is compiled to. -/
def looselyProgram : Program where
  nodes := [
    { id := "a", type := .str "start", next := some "r" },
    { id := "r", type := .str "repeat_times", inputs := [(.str "times", .ref "v")],
      next := some "z", branches := [("body", "s")] },
    { id := "s", type := .str "say", inputs := [(.str "text", .ref "v")] },
    { id := "z", type := .str "stop" },
    { id := "v", type := .str "variable", inputs := [(.str "name", .str "n")] }]
  roots := ["a", "s", "v"]
  entry := some "a"

/-- Either way leads to the same links, branches and inputs. -/
theorem compile_loosely : (Source.graph loosely).compile = .ok looselyProgram ∧
    loosely.build = .ok looselyProgram := by
  have horderly : loosely.Orderly := by decide +kernel
  have hinOrder : ∀ b ∈ loosely.blocks, b.InOrder := by
    simp [loosely, Block.InOrder]
  obtain ⟨p, hcompile, hbuild⟩ := horderly.compile_eq_build (by decide) hinOrder
  have hprogram : loosely.build = .ok looselyProgram := by with_unfolding_all rfl
  obtain rfl : p = looselyProgram := Except.ok.inj (hbuild.symm.trans hprogram)
  exact ⟨hcompile, hbuild⟩

end ProgramGraph

end BlockProgram
