import BlockProgram.Proofs.Workspace.Exclusive
import Mathlib.Data.List.Find

/-!
# What a workspace is compiled to

In a well-formed workspace the edges of a block are found by looking for them, and a compiled
program has the links that are found (`Workspace.exists_nodeOf`): the next node is the successor in
the stack, a branch is the last edge drawn under its key, and a slot refers to the reporter that is
plugged in, or holds what is stored. The program starts at the first `start` block on top of a stack,
or else at the first block there is on top of one (`Workspace.entry_eq`).
-/

namespace BlockProgram

/-- What a slot of a block holds where no reporter is plugged in. -/
def Block.typedIn (b : Block) (socket : String) : Value :=
  ((b.stored? (some socket)).map (slotValue (.str socket))).getD .null

/-- The only edge with a property is the one that is found. -/
theorem find?_of_single {p : Edge → Bool} {edges : List Edge} {e : Edge} (h : Single p edges)
    (he : e ∈ edges) (hp : p e = true) : edges.find? p = some e := by
  have hmem : e ∈ edges.filter p := List.mem_filter.2 ⟨he, hp⟩
  rw [Workspace.find?_eq_getLast?_filter h]
  rw [Single] at h
  rcases hfilter : edges.filter p with _ | ⟨e', _ | ⟨e'', rest⟩⟩ <;> rw [hfilter] at hmem h
  · cases hmem
  · rw [List.mem_singleton.1 hmem]
    rfl
  · simp at h

namespace Program

variable {edges : List Edge} {n : Node}

/-- The last reporter that is plugged in at a socket is what a slot refers to. -/
theorem input_linkAll_eq (n : Node) (socket : String) : (linkAll edges n).input socket =
    ((edges.filter (isInputAt socket)).getLast?.map fun e => Value.ref e.target).getD
      (n.input socket) := by
  rw [Node.input, named?_linkAll, Node.input]
  cases (edges.filter (isInputAt socket)).getLast? <;> rfl

/-- What a node holds before it is linked is what is typed in. -/
theorem input_nodeOfBlock_eq {b : Block} (h : nodeOfBlock b = .ok n) (socket : String) :
    n.input socket = b.typedIn socket := by
  simp only [nodeOfBlock] at h
  rcases hinputs : blockInputs b.inputs with fault | inputs <;> rw [hinputs] at h
  · cases h
  rcases hdata : checkData b.data with fault | ⟨⟩ <;> rw [hdata] at h
  · cases h
  cases h
  have hstored : Dict.named? inputs socket = b.stored? (some socket) := by
    simp only [blockInputs] at hinputs
    split at hinputs
    · rename_i entries hentries
      cases hinputs
      rw [Block.stored?_eq hentries]
      rfl
    · rename_i hother
      split at hinputs
      · cases hinputs
      · cases hinputs
        refine (Block.stored?_eq_none ?_ _).symm
        rintro ⟨entries, hentries⟩
        exact hother entries hentries
  rw [Node.input, Dict.named?_map, hstored]
  rfl

end Program

namespace Workspace

open Program

variable {ws : Workspace} {p : Program} {n : Node} {id : String}

theorem block?_of_mem (h : Distinct ws) {b : Block} (hb : b ∈ ws.blocks) :
    ws.block? b.id = some b := by
  obtain ⟨b', hb'⟩ : ∃ b', ws.block? b.id = some b' := by
    rw [← Option.isSome_iff_exists, block?, List.find?_isSome]
    exact ⟨b, hb, BEq.rfl⟩
  rw [hb', List.inj_on_of_nodup_map h (List.mem_of_find?_eq_some hb') hb (block?_id hb')]

/-! ## Nodes -/

/-- The node of a block in the program of a workspace. -/
structure NodeOf (ws : Workspace) (b : Block) (n : Node) : Prop where
  type : n.type = b.type
  next : n.next = ws.successor? b.id
  branch : ∀ key, n.branch? key =
    (ws.edges.filter (fillsBranch b.id (some key))).getLast?.map (·.target)
  input : ∀ socket, n.input socket =
    ((ws.inputSource? b.id (some socket)).map Value.ref).getD (b.typedIn socket)

/-- **The node of an id is the node of the block with this id.** -/
theorem exists_nodeOf (h : WellFormed ws) (hdistinct : Distinct ws)
    (hp : build ws.blocks ws.edges = .ok p) (hn : p.node? id = some n) :
    ∃ b, ws.block? id = some b ∧ ws.NodeOf b n := by
  obtain ⟨unlinked, hu, hnodes, -⟩ := build_ok hp
  rw [node?_build hnodes, Option.map_eq_some_iff] at hn
  obtain ⟨m, hm, rfl⟩ := hn
  obtain ⟨b, hb, hnode⟩ := forall_nodesOfBlocks
    (P := fun m => ∃ b ∈ ws.blocks, nodeOfBlock b = .ok m) (fun b hb m hm => ⟨b, hb, hm⟩) hu m
    (mem_of_findNode? hm)
  obtain rfl : b.id = id := (id_nodeOfBlock hnode).symm.trans (findNode?_id hm)
  have hknown (e : Edge) (he : e ∈ ws.edges) : isKnown unlinked e = true := by
    rw [isKnown, any_nodesOfBlocks hu, any_nodesOfBlocks hu, Bool.and_eq_true]
    exact h.ends e he
  -- the links of a node are looked for among all edges
  have hout (keep : Edge → Bool) : (outEdges unlinked ws.edges b.id).filter keep =
      ws.edges.filter fun e => e.source == b.id && keep e := by
    rw [outEdges, List.filter_filter]
    refine List.filter_congr fun e he => ?_
    rw [hknown e he, Bool.and_true, Bool.and_comm]
  obtain ⟨hnext, hbranches⟩ := unlinked_nodesOfBlocks hu m (mem_of_findNode? hm)
  refine ⟨b, block?_of_mem hdistinct hb, ⟨?_, ?_, fun key => ?_, fun socket => ?_⟩⟩
  · have hlabel := congrArg Prod.snd (label_linkAll (outEdges unlinked ws.edges b.id) m)
    exact hlabel.trans (congrArg Prod.snd (label_nodeOfBlock hnode))
  · have hsame : (fun e : Edge => e.source == b.id && e.kind == .stack) =
        fun e => e.kind == .stack && e.source == b.id := by
      funext e
      exact Bool.and_comm _ _
    rw [next_linkAll, hnext, Option.or_none, hout, hsame, successor?, target?,
      find?_eq_getLast?_filter (h.successor b.id)]
  · have hnone : m.branch? key = none := by
      rw [Node.branch?, hbranches]
      rfl
    have hsame : (fun e => e.source == b.id && isBranchOf key e) = fillsBranch b.id (some key) := by
      funext e
      rw [Bool.eq_iff_iff, fillsBranch_iff]
      simp [isBranchOf, and_left_comm]
    rw [branch?_linkAll, hnone, Option.or_none, hout, hsame]
  · have hsame : (fun e => e.source == b.id && isInputAt socket e) =
        fillsSocket b.id (some socket) := by
      funext e
      rw [Bool.eq_iff_iff, fillsSocket_iff]
      simp [isInputAt, and_left_comm]
    have hsource : ws.inputSource? b.id (some socket) =
        (ws.edges.find? (fillsSocket b.id (some socket))).map (·.target) := rfl
    rw [input_linkAll_eq, hout, hsame, hsource, find?_eq_getLast?_filter (h.socket b.id _),
      Option.map_map, input_nodeOfBlock_eq hnode]
    rfl

/-- Every block has a node. -/
theorem exists_compiled (h : WellFormed ws) (hdistinct : Distinct ws)
    (hp : build ws.blocks ws.edges = .ok p) {b : Block} (hb : ws.block? id = some b) :
    ∃ n, p.node? id = some n ∧ ws.NodeOf b n := by
  obtain ⟨n, hn⟩ : ∃ n, p.node? id = some n := by
    rw [← Option.isSome_iff_exists, isSome_node?_build hp]
    exact has_of_block? hb
  obtain ⟨b', hb', hnode⟩ := exists_nodeOf h hdistinct hp hn
  obtain rfl := Option.some.inj (hb.symm.trans hb')
  exact ⟨n, hn, hnode⟩

/-! ## Where a program starts -/

/-- The blocks on top of a stack. -/
def tops (ws : Workspace) : List Block := ws.blocks.filter fun b => (ws.predecessor? b.id).isNone

/-- The block at which a program starts. -/
def start? (ws : Workspace) : Option String :=
  ((ws.tops.find? (·.type.isStr startType)).or ws.tops.head?).map (·.id)

/-- **The roots of a program** are the blocks on top of a stack. -/
theorem roots_eq (h : WellFormed ws) (hp : build ws.blocks ws.edges = .ok p) :
    p.roots = ws.tops.map (·.id) := by
  obtain ⟨unlinked, hu, -, hroots, -⟩ := build_ok hp
  have hentered (id : String) : isEntered unlinked ws.edges id = (ws.predecessor? id).isSome := by
    rw [predecessor?, Option.isSome_map, Bool.eq_iff_iff, isEntered, List.any_eq_true,
      List.find?_isSome]
    refine exists_congr fun e => and_congr_right fun he => ?_
    rw [isKnown, any_nodesOfBlocks hu, any_nodesOfBlocks hu,
      show ws.blocks.any (·.id == e.source) = true from (h.ends e he).1,
      show ws.blocks.any (·.id == e.target) = true from (h.ends e he).2, Bool.and_true,
      Bool.and_true]
  rw [hroots, List.filter_map, tops]
  refine congrArg (List.map _) (List.filter_congr fun b _ => ?_)
  rw [Function.comp, hentered, Option.not_isSome]

/-- **The entry of a program** is the first `start` block on top of a stack, or else the first block
on top of one. -/
theorem entry_eq (h : WellFormed ws) (hdistinct : Distinct ws)
    (hp : build ws.blocks ws.edges = .ok p) : p.entry = ws.start? := by
  obtain ⟨unlinked, hu, -, -, hentry⟩ := build_ok hp
  have hstart (b : Block) (hb : b ∈ ws.tops) :
      isStart p.nodes b.id = b.type.isStr startType := by
    have hfirst := block?_of_mem hdistinct (List.mem_filter.1 hb).1
    obtain ⟨n, hn, hnode⟩ := exists_compiled h hdistinct hp hfirst
    have hfound : findNode? p.nodes b.id = some n := hn
    rw [isStart, hfound, ← hnode.type]
  have hfirst : ws.tops.find? (isStart p.nodes ∘ (·.id)) =
      ws.tops.find? (·.type.isStr startType) := List.find?_congr hstart
  rw [hentry, roots_eq h hp, chooseEntry, start?, List.find?_map, List.head?_map, hfirst]
  generalize ws.tops.find? _ = found
  cases found <;> rfl

end Workspace

end BlockProgram
