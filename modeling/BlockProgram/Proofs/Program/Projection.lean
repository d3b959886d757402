import BlockProgram.Proofs.Program.Links
import BlockProgram.Proofs.Program.Stacks
import BlockProgram.Proofs.Workspace.Invariant

/-!
# A program is a projection of its lists

Building goes through the blocks and the edges once and overwrites as it goes. What comes out can be
read from the two lists without going through them (`Program.Projection`): of several blocks with
one id the last one counts, in the place of the first; of several edges that fill the same slot the
last one counts, as long as both its ends are blocks; and a root is what no such stack edge enters,
also one that was overwritten later.

* The nodes are read from the blocks from behind (`Program.ids_placed`, `Program.findNode?_placed`).
* A link is the target of the last edge that fills it (`Program.lastTarget?`), by what linking gives
  a single node.
* Where no two edges fill the same slot there is no last one, and the order of the edges does not
  matter (`Program.lastTarget?_perm`). All that is left to it is the order in which sockets and
  branches are listed.
-/

namespace BlockProgram

/-- What is typed in at a socket of a block, as it is read. -/
def Block.literal? (b : Block) (socket : String) : Option Value :=
  (b.inputs.dict?.bind fun entries => Dict.named? entries socket).map (slotValue (.str socket))

theorem Block.named?_node (b : Block) (socket : String) :
    Dict.named? b.node.inputs socket = b.literal? socket := by
  rw [node, Dict.named?_map, literal?]
  rcases b.inputs.dict? with _ | entries <;> rfl

namespace Program

variable {blocks : List Block} {edges edges' : List Edge} {p q : Program}

/-! ## Nodes -/

/-- The last block with an id. -/
def lastBlock? (blocks : List Block) (id : String) : Option Block :=
  (blocks.filter (·.id == id)).getLast?

/-- The nodes of blocks, one after the other put in place. -/
def placed (blocks : List Block) : List Node :=
  blocks.foldl (fun nodes b => putNode nodes b.node) []

theorem placed_append (blocks : List Block) (b : Block) :
    placed (blocks ++ [b]) = putNode (placed blocks) b.node := by
  rw [placed, List.foldl_append, placed]
  rfl

theorem nodesOfBlocks_eq_placed (h : ∀ b ∈ blocks, b.InOrder) :
    nodesOfBlocks blocks = .ok (placed blocks) := by
  suffices ∀ start, blocks.foldlM (fun nodes b => (nodeOfBlock b).map (putNode nodes)) start =
      .ok (blocks.foldl (fun nodes b => putNode nodes b.node) start) from this []
  induction blocks with
  | nil => exact fun start => rfl
  | cons b rest ih =>
    intro start
    have hfirst : (nodeOfBlock b).map (putNode start) = .ok (putNode start b.node) := by
      rw [(h b List.mem_cons_self).nodeOfBlock_eq]
      rfl
    rw [List.foldlM_cons, hfirst]
    exact ih (fun b' hb' => h b' (List.mem_cons_of_mem _ hb')) _

theorem findNode?_putNode (nodes : List Node) (n : Node) (id : String) :
    findNode? (putNode nodes n) id = if n.id = id then some n else findNode? nodes id := by
  induction nodes with
  | nil =>
    by_cases h : n.id = id <;> simp [putNode, findNode?, h]
  | cons m rest ih =>
    simp only [putNode]
    by_cases hm : m.id = n.id
    · by_cases h : n.id = id <;> simp [findNode?, hm, h]
    · rw [if_neg (by simpa using hm)]
      by_cases hid : m.id = id
      · have hne : n.id ≠ id := fun heq => hm (hid.trans heq.symm)
        simp [findNode?, hid, hne]
      · have hskip (nodes : List Node) : findNode? (m :: nodes) id = findNode? nodes id :=
          List.find?_cons_of_neg (by simpa using hid)
        rw [hskip, hskip, ih]

theorem ids_putNode (nodes : List Node) (n : Node) : (putNode nodes n).map (·.id) =
    if n.id ∈ nodes.map (·.id) then nodes.map (·.id) else nodes.map (·.id) ++ [n.id] := by
  induction nodes with
  | nil => rfl
  | cons m rest ih =>
    simp only [putNode]
    by_cases hm : m.id = n.id
    · simp [hm]
    · rw [if_neg (by simpa using hm), List.map_cons, ih]
      have hne : n.id ≠ m.id := fun heq => hm heq.symm
      by_cases hmem : n.id ∈ rest.map (·.id) <;> simp [hmem, hne]

/-- **There is one node for every id**, in the order in which the ids first came. -/
theorem ids_placed (blocks : List Block) :
    (placed blocks).map (·.id) = (blocks.map (·.id)).eraseDups := by
  induction blocks using List.reverseRecOn with
  | nil => rfl
  | append_singleton blocks b ih =>
    have hid : b.node.id = b.id := rfl
    rw [placed_append, ids_putNode, ih, List.map_append, List.eraseDups_append, hid]
    by_cases hmem : b.id ∈ blocks.map (·.id) <;>
      simp [List.removeAll, List.eraseDups_cons, hmem, -List.mem_map]

/-- **The node of an id is that of the last block with it.** -/
theorem findNode?_placed (blocks : List Block) (id : String) :
    findNode? (placed blocks) id = (lastBlock? blocks id).map Block.node := by
  induction blocks using List.reverseRecOn with
  | nil => rfl
  | append_singleton blocks b ih =>
    have hid : b.node.id = b.id := rfl
    rw [placed_append, findNode?_putNode, ih, hid, lastBlock?, lastBlock?, List.filter_append,
      List.getLast?_append]
    by_cases h : b.id = id <;> simp [h]

/-! ## Links -/

/-- Whether both ends of an edge are blocks. -/
def joinsBlocks (blocks : List Block) (e : Edge) : Bool :=
  blocks.any (·.id == e.source) && blocks.any (·.id == e.target)

/-- Whether an edge leads to the block after a given one. -/
def isNextOf (id : String) (e : Edge) : Bool := e.kind == .stack && e.source == id

/-- Whether an edge leads to the head of a branch of a block. -/
def isHeadOf (id key : String) (e : Edge) : Bool :=
  e.kind == .branch && e.source == id && e.slot == some key

/-- Whether an edge leads to what is plugged in at a socket of a block. -/
def isPlugOf (id socket : String) (e : Edge) : Bool :=
  e.kind == .input && e.source == id && e.slot == some socket

theorem isHeadOf_eq (id key : String) (e : Edge) :
    isHeadOf id key e = (e.source == id && isBranchOf key e) := by
  rcases hkind : e.kind <;> simp only [isHeadOf, isBranchOf, Edge.slot, hkind] <;>
    cases e.source == id <;> rfl

theorem isPlugOf_eq (id socket : String) (e : Edge) :
    isPlugOf id socket e = (e.source == id && isInputAt socket e) := by
  rcases hkind : e.kind <;> simp only [isPlugOf, isInputAt, Edge.slot, hkind] <;>
    cases e.source == id <;> rfl

/-- The target of the last edge with a property, of those that join blocks. -/
def lastTarget? (blocks : List Block) (edges : List Edge) (fills : Edge → Bool) : Option String :=
  (edges.filter fun e => joinsBlocks blocks e && fills e).getLast?.map (·.target)

theorem isKnown_eq {unlinked : List Node} (hu : nodesOfBlocks blocks = .ok unlinked) (e : Edge) :
    isKnown unlinked e = joinsBlocks blocks e := by
  rw [isKnown, any_nodesOfBlocks hu, any_nodesOfBlocks hu, joinsBlocks]

/-- The links of a node are read from the edges that leave it, and so from all edges. -/
theorem lastTarget?_eq {unlinked : List Node} (hu : nodesOfBlocks blocks = .ok unlinked)
    {id : String} {fills keep : Edge → Bool}
    (hfills : ∀ e, fills e = (e.source == id && keep e)) :
    ((outEdges unlinked edges id).filter keep).getLast?.map (·.target) =
      lastTarget? blocks edges fills := by
  rw [lastTarget?, outEdges, List.filter_filter]
  congr 2
  refine List.filter_congr fun e _ => ?_
  rw [isKnown_eq hu, hfills]
  cases joinsBlocks blocks e <;> cases e.source == id <;> simp

/-- A node with the type of a block, its literals and the last edges that leave it. -/
structure Projects (blocks : List Block) (edges : List Edge) (b : Block) (n : Node) : Prop where
  type : n.type = b.type
  next : n.next = lastTarget? blocks edges (isNextOf b.id)
  branch : ∀ key, n.branch? key = lastTarget? blocks edges (isHeadOf b.id key)
  input : ∀ socket, Dict.named? n.inputs socket =
    ((lastTarget? blocks edges (isPlugOf b.id socket)).map Value.ref).or
      (b.literal? socket)

/-- **What a program of blocks and edges is**, read from the two lists. -/
structure Projection (blocks : List Block) (edges : List Edge) (p : Program) : Prop where
  /-- one node for every id, in the order in which the ids first came -/
  ids : p.nodes.map (·.id) = (blocks.map (·.id)).eraseDups
  /-- the node of an id is that of the last block with it -/
  node : ∀ id b, lastBlock? blocks id = some b →
    ∃ n, p.node? id = some n ∧ Projects blocks edges b n
  /-- a root is a block that no stack edge between blocks enters -/
  roots : p.roots = (blocks.map (·.id)).filter fun id =>
    !edges.any fun e => joinsBlocks blocks e && (e.kind == .stack && e.target == id)
  /-- the first start among the roots, or else the first root -/
  entry : p.entry = (p.roots.find? fun id => (p.node? id).any (·.is .start)).or p.roots.head?

/-- **A built program is the projection of its lists.** -/
theorem projection_build (hblocks : ∀ b ∈ blocks, b.InOrder) (hp : build blocks edges = .ok p) :
    Projection blocks edges p := by
  obtain ⟨unlinked, hu, hnodes, hroots, hentry⟩ := build_ok hp
  have hplaced : unlinked = placed blocks :=
    Except.ok.inj (hu.symm.trans (nodesOfBlocks_eq_placed hblocks))
  have hnode (id : String) : p.node? id =
      (lastBlock? blocks id).map fun b => linkAll (outEdges unlinked edges id) b.node := by
    rw [node?_build hnodes, hplaced, findNode?_placed, Option.map_map]
    rfl
  refine ⟨?_, fun id b hb => ?_, ?_, ?_⟩
  · rw [hnodes, foldl_linkEdge, List.map_map, ← ids_placed, hplaced]
    exact List.map_congr_left fun n _ => id_linkAll n
  · have hid : b.id = id := by
      have hmem := List.mem_of_getLast? hb
      exact beq_iff_eq.1 (List.mem_filter.1 hmem).2
    subst hid
    refine ⟨linkAll (outEdges unlinked edges b.id) b.node, by rw [hnode, hb]; rfl, ?_, ?_,
      fun key => ?_, fun socket => ?_⟩
    · exact congrArg Prod.snd (label_linkAll (outEdges unlinked edges b.id) b.node)
    · have hnone : b.node.next = none := rfl
      rw [next_linkAll, hnone, Option.or_none]
      exact lastTarget?_eq hu fun e => Bool.and_comm _ _
    · have hnone : b.node.branch? key = none := rfl
      rw [branch?_linkAll, hnone, Option.or_none]
      exact lastTarget?_eq hu (isHeadOf_eq b.id key)
    · rw [named?_linkAll, b.named?_node, ← lastTarget?_eq hu (isPlugOf_eq b.id socket),
        Option.map_map]
      rfl
  · rw [hroots]
    refine List.filter_congr fun id _ => ?_
    rw [isEntered]
    congr 2
    funext e
    rw [isKnown_eq hu, Bool.and_comm]
  · have hstart : isStart p.nodes = fun id => (p.node? id).any (·.is .start) := by
      funext id
      rw [isStart, node?]
      cases findNode? p.nodes id <;> rfl
    rw [hentry, chooseEntry, hstart]
    cases p.roots.find? fun id => (p.node? id).any (·.is .start) <;> rfl

/-! ## Any order of edges -/

/-- No two of the edges that join blocks fill the same slot. -/
structure OnePerSlot (blocks : List Block) (edges : List Edge) : Prop where
  next : ∀ id, Single (fun e => joinsBlocks blocks e && isNextOf id e) edges
  head : ∀ id key, Single (fun e => joinsBlocks blocks e && isHeadOf id key e) edges
  plug : ∀ id socket, Single (fun e => joinsBlocks blocks e && isPlugOf id socket e) edges

/-- Two programs with the same nodes and links, which may list sockets and branches in another
order. -/
structure SameLinks (p q : Program) : Prop where
  ids : q.nodes.map (·.id) = p.nodes.map (·.id)
  node : ∀ id n, p.node? id = some n → ∃ n', q.node? id = some n' ∧ n'.type = n.type ∧
    n'.next = n.next ∧ (∀ key, n'.branch? key = n.branch? key) ∧
    ∀ socket, Dict.named? n'.inputs socket = Dict.named? n.inputs socket
  roots : q.roots = p.roots
  entry : q.entry = p.entry

/-- The only edge with a property is the last one in any order. -/
theorem lastTarget?_perm {fills : Edge → Bool} (hperm : edges'.Perm edges)
    (hsingle : Single (fun e => joinsBlocks blocks e && fills e) edges) :
    lastTarget? blocks edges' fills = lastTarget? blocks edges fills := by
  have hkept := hperm.filter fun e => joinsBlocks blocks e && fills e
  have hsame : (edges'.filter fun e => joinsBlocks blocks e && fills e) =
      edges.filter fun e => joinsBlocks blocks e && fills e := by
    rw [Single] at hsingle
    rcases hfilter : edges.filter fun e => joinsBlocks blocks e && fills e with
      _ | ⟨e, _ | ⟨e', rest⟩⟩ <;> rw [hfilter] at hkept hsingle
    · exact List.perm_nil.1 hkept
    · exact List.perm_singleton.1 hkept
    · simp at hsingle
  rw [lastTarget?, hsame, lastTarget?]

theorem isSome_node? (p : Program) (id : String) :
    (p.node? id).isSome = (p.nodes.map (·.id)).any (· == id) := by
  rw [node?, findNode?_isSome, List.any_map]
  rfl

theorem Projects.perm {b : Block} {n n' : Node} (hone : OnePerSlot blocks edges)
    (hperm : edges'.Perm edges) (h : Projects blocks edges b n) (h' : Projects blocks edges' b n') :
    n'.type = n.type ∧ n'.next = n.next ∧ (∀ key, n'.branch? key = n.branch? key) ∧
      ∀ socket, Dict.named? n'.inputs socket = Dict.named? n.inputs socket := by
  refine ⟨h'.type.trans h.type.symm, ?_, fun key => ?_, fun socket => ?_⟩
  · rw [h'.next, h.next, lastTarget?_perm hperm (hone.next b.id)]
  · rw [h'.branch, h.branch, lastTarget?_perm hperm (hone.head b.id key)]
  · rw [h'.input, h.input, lastTarget?_perm hperm (hone.plug b.id socket)]

/-- **The order of edges that fill different slots does not matter.** -/
theorem Projection.sameLinks (hone : OnePerSlot blocks edges) (hperm : edges'.Perm edges)
    (hp : Projection blocks edges p) (hq : Projection blocks edges' q) : SameLinks p q := by
  have hids := hq.ids.trans hp.ids.symm
  have hnode : ∀ id n, p.node? id = some n → ∃ n', q.node? id = some n' ∧ n'.type = n.type ∧
      n'.next = n.next ∧ (∀ key, n'.branch? key = n.branch? key) ∧
      ∀ socket, Dict.named? n'.inputs socket = Dict.named? n.inputs socket := by
    intro id n hn
    have hknown : id ∈ blocks.map (·.id) := by
      rw [← List.mem_eraseDups, ← hp.ids]
      exact List.mem_map.2 ⟨n, mem_of_findNode? hn, findNode?_id hn⟩
    obtain ⟨b, hb⟩ : ∃ b, lastBlock? blocks id = some b := by
      obtain ⟨b, hb, hid⟩ := List.mem_map.1 hknown
      have hmem : b ∈ blocks.filter (·.id == id) := List.mem_filter.2 ⟨hb, beq_iff_eq.2 hid⟩
      exact ⟨_, List.getLast?_eq_some_getLast (List.ne_nil_of_mem hmem)⟩
    obtain ⟨m, hm, hprojects⟩ := hp.node id b hb
    obtain ⟨n', hn', hprojects'⟩ := hq.node id b hb
    obtain rfl := Option.some.inj (hn.symm.trans hm)
    exact ⟨n', hn', hprojects.perm hone hperm hprojects'⟩
  have hroots : q.roots = p.roots := by
    rw [hq.roots, hp.roots]
    refine List.filter_congr fun id _ => ?_
    rw [hperm.any_eq]
  refine ⟨hids, hnode, hroots, ?_⟩
  -- a node starts the one program if it starts the other
  have hstart : (fun id => (q.node? id).any (·.is .start)) =
      fun id => (p.node? id).any (·.is .start) := by
    funext id
    rcases hn : p.node? id with _ | n
    · have hnone : (q.node? id).isSome = false := by
        rw [isSome_node?, hids, ← isSome_node?, hn]
        rfl
      rw [Option.isSome_eq_false_iff, Option.isNone_iff_eq_none] at hnone
      rw [hnone]
    · obtain ⟨n', hn', htype, -⟩ := hnode id n hn
      rw [hn', Option.any_some, Option.any_some, Node.is, htype, Node.is]
  rw [hq.entry, hp.entry, hroots, hstart]

/-- **Building is a projection.** For all blocks that are in order and all edges, whatever ids come
twice, whatever ends are unknown and whatever cycles there are, building gives the program that can
be read from the two lists; and where no two edges between blocks fill the same slot, it gives the
same links, inputs, roots and entry for any order of the edges. -/
theorem build_projection (hblocks : ∀ b ∈ blocks, b.InOrder) (edges : List Edge) :
    ∃ p, build blocks edges = .ok p ∧ Projection blocks edges p ∧
      (OnePerSlot blocks edges → ∀ edges', edges'.Perm edges →
        ∃ q, build blocks edges' = .ok q ∧ SameLinks p q) := by
  obtain ⟨p, hp⟩ := exists_build hblocks edges
  have hprojection := projection_build hblocks hp
  refine ⟨p, hp, hprojection, fun hone edges' hperm => ?_⟩
  obtain ⟨q, hq⟩ := exists_build hblocks edges'
  exact ⟨q, hq, hprojection.sameLinks hone hperm (projection_build hblocks hq)⟩

/-- Blocks of which two have the same id. -/
def twiceBlocks : List Block := [
  { id := "a", type := .str "say" },
  { id := "b", type := .str "say",
    inputs := .dict [(.str "text", .str "5"), (.str "pause", .str " 5 "), (.str "name", .str "5")] },
  { id := "v", type := .str "variable" },
  { id := "a", type := .str "start" }]

/-- Edges between them, to a block that is not there and to no socket. -/
def twiceEdges : List Edge := [
  .stack "a" "b", .toBranch "b" none "v", .stack "b" "gone", .toInput "b" (some "text") "v",
  .toInput "b" none "v"]

/-- What they are built to. -/
def twice : Program where
  nodes := [
    { id := "a", type := .str "start", next := some "b" },
    { id := "b", type := .str "say", branches := [("body", "v")],
      inputs := [(.str "text", .ref "v"), (.str "pause", .int 5), (.str "name", .str "5")] },
    { id := "v", type := .str "variable" }]
  roots := ["a", "v", "a"]
  entry := some "a"

/-- The block that comes twice has one node, which is a start, and is a root twice. A text at a socket
where nothing is plugged in is read, but not a name. The links are the same with the edges in
reverse. -/
theorem build_twice : build twiceBlocks twiceEdges = .ok twice ∧
    ∃ q, build twiceBlocks twiceEdges.reverse = .ok q ∧ SameLinks twice q := by
  have hblocks : ∀ b ∈ twiceBlocks, b.InOrder := by
    simp [twiceBlocks, Block.InOrder]
  -- of every kind there is one edge between blocks, apart from the one to no socket
  have hone : OnePerSlot twiceBlocks twiceEdges := by
    refine ⟨fun id => ?_, fun id key => ?_, fun id socket => ?_⟩
    · have hsingle : Single (fun e => joinsBlocks twiceBlocks e && e.kind == .stack)
        twiceEdges := by decide
      exact hsingle.mono fun e _ => by simp +contextual [isNextOf]
    · have hsingle : Single (fun e => joinsBlocks twiceBlocks e && e.kind == .branch)
        twiceEdges := by decide
      exact hsingle.mono fun e _ => by simp +contextual [isHeadOf]
    · have hsingle : Single (fun e => joinsBlocks twiceBlocks e && (e.kind == .input &&
        e.slot.isSome)) twiceEdges := by decide
      exact hsingle.mono fun e _ => by simp +contextual [isPlugOf]
  obtain ⟨p, hp, -, hany⟩ := build_projection hblocks twiceEdges
  obtain ⟨q, hq, hsame⟩ := hany hone twiceEdges.reverse (List.reverse_perm _)
  have hprogram : build twiceBlocks twiceEdges = .ok twice := by with_unfolding_all rfl
  obtain rfl : p = twice := Except.ok.inj (hp.symm.trans hprogram)
  exact ⟨hp, q, hq, hsame⟩

end Program

end BlockProgram
