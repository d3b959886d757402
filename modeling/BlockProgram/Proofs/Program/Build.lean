import BlockProgram.Program.Build
import BlockProgram.Proofs.Value.Dict

/-!
# What a built program is linked to

Building first makes an unlinked node for every block and then goes through the edges. Read from
the result:

* the node of an id is the unlinked node of that id with the links of all edges that leave it
  between known blocks, in order (`Program.node?_build`);
* hence its `next` is the target of the last such stack edge (`Program.next_linked`), and its
  branch of a key the target of the last such branch edge with that key
  (`Program.branch?_linked`), and what it holds at a socket a reference to the target of the last
  such input edge there, or else what it held before (`Program.named?_linkAll`);
* every link of a built program leads to a node (`Program.Closed`, `Program.closed_build`).
-/

namespace BlockProgram

namespace Program

variable {nodes : List Node} {edges : List Edge}

/-! ## Unlinked nodes -/

theorem findNode?_id {id : String} {n : Node} (h : findNode? nodes id = some n) : n.id = id := by
  simpa using List.find?_some h

theorem mem_of_findNode? {id : String} {n : Node} (h : findNode? nodes id = some n) : n ∈ nodes :=
  List.mem_of_find?_eq_some h

theorem findNode?_isSome {id : String} :
    (findNode? nodes id).isSome = nodes.any fun n => n.id == id := by
  rw [Bool.eq_iff_iff, findNode?, List.find?_isSome, List.any_eq_true]

/-- Putting a node into the list adds it or takes the place of the one with its id. -/
theorem mem_putNode {n m : Node} (h : m ∈ putNode nodes n) : m = n ∨ m ∈ nodes := by
  induction nodes with
  | nil => exact .inl (by simpa [putNode] using h)
  | cons k rest ih =>
    simp only [putNode] at h
    split at h
    · rcases List.mem_cons.1 h with rfl | h
      · exact .inl rfl
      · exact .inr (List.mem_cons_of_mem _ h)
    · rcases List.mem_cons.1 h with rfl | h
      · exact .inr List.mem_cons_self
      · exact (ih h).imp_right (List.mem_cons_of_mem _)

/-- It makes one id known. -/
theorem any_putNode (n : Node) (id : String) :
    (putNode nodes n).any (·.id == id) = ((n.id == id) || nodes.any (·.id == id)) := by
  induction nodes with
  | nil => simp [putNode]
  | cons k rest ih =>
    simp only [putNode]
    split
    · rename_i h
      rw [beq_iff_eq] at h
      simp [h]
    · rw [List.any_cons, ih, List.any_cons, Bool.or_left_comm]

/-- What holds of the node of every block holds of all unlinked nodes. -/
theorem forall_nodesOfBlocks {P : Node → Prop} {blocks : List Block}
    (hP : ∀ b ∈ blocks, ∀ n, nodeOfBlock b = .ok n → P n) (h : nodesOfBlocks blocks = .ok nodes) :
    ∀ n ∈ nodes, P n := by
  simp only [nodesOfBlocks] at h
  suffices ∀ start, (∀ n ∈ start, P n) →
      blocks.foldlM (fun nodes b => (nodeOfBlock b).map (putNode nodes)) start = .ok nodes →
      ∀ n ∈ nodes, P n from this [] (by simp) h
  clear h
  induction blocks with
  | nil =>
    intro start hstart h
    cases h
    exact hstart
  | cons b rest ih =>
    intro start hstart h
    rw [List.foldlM_cons] at h
    rcases hb : nodeOfBlock b with fault | n <;> rw [hb] at h
    · cases h
    · refine ih (fun b' hb' => hP b' (List.mem_cons_of_mem _ hb')) _ ?_ h
      intro m hm
      rcases mem_putNode hm with rfl | hm
      · exact hP b List.mem_cons_self _ hb
      · exact hstart m hm

theorem id_nodeOfBlock {b : Block} {n : Node} (h : nodeOfBlock b = .ok n) : n.id = b.id := by
  simp only [nodeOfBlock] at h
  rcases hi : blockInputs b.inputs with fault | inputs <;> rw [hi] at h
  · cases h
  · rcases hd : checkData b.data with fault | ⟨⟩ <;> rw [hd] at h
    · cases h
    · cases h
      rfl

/-- The ids of the unlinked nodes are those of the blocks. -/
theorem any_nodesOfBlocks {blocks : List Block} (h : nodesOfBlocks blocks = .ok nodes)
    (id : String) : nodes.any (·.id == id) = blocks.any (·.id == id) := by
  simp only [nodesOfBlocks] at h
  suffices ∀ start,
      blocks.foldlM (fun nodes b => (nodeOfBlock b).map (putNode nodes)) start = .ok nodes →
      nodes.any (·.id == id) = (start.any (·.id == id) || blocks.any (·.id == id)) by
    simpa using this [] h
  clear h
  induction blocks with
  | nil =>
    intro start h
    cases h
    simp
  | cons b rest ih =>
    intro start h
    rw [List.foldlM_cons] at h
    rcases hb : nodeOfBlock b with fault | n <;> rw [hb] at h
    · cases h
    · rw [ih _ h, any_putNode, id_nodeOfBlock hb, List.any_cons]
      grind

/-- Before the edges are gone through, no node has a link to another. -/
theorem unlinked_nodesOfBlocks {blocks : List Block} (h : nodesOfBlocks blocks = .ok nodes) :
    ∀ n ∈ nodes, n.next = none ∧ n.branches = [] := by
  refine forall_nodesOfBlocks (fun b _ n hn => ?_) h
  simp only [nodeOfBlock] at hn
  rcases hi : blockInputs b.inputs with fault | inputs <;> rw [hi] at hn
  · cases hn
  · rcases hd : checkData b.data with fault | ⟨⟩ <;> rw [hd] at hn
    · cases hn
    · cases hn
      exact ⟨rfl, rfl⟩

/-! ## Linking -/

@[simp] theorem id_linkNode (e : Edge) (n : Node) : (linkNode e n).id = n.id := by
  simp only [linkNode]
  split
  · rfl
  · rfl
  · split <;> rfl

@[simp] theorem type_linkNode (e : Edge) (n : Node) : (linkNode e n).type = n.type := by
  simp only [linkNode]
  split
  · rfl
  · rfl
  · split <;> rfl

/-- A node with the links of edges that leave it. -/
def linkAll (edges : List Edge) (n : Node) : Node := edges.foldl (fun n e => linkNode e n) n

/-- Linking makes no id known or unknown. -/
theorem any_linkEdge (e : Edge) (id : String) :
    (linkEdge nodes e).any (·.id == id) = nodes.any (·.id == id) := by
  simp only [linkEdge]
  split
  · rw [List.any_map]
    congr 1
    funext n
    simp only [Function.comp]
    split <;> simp
  · rfl

/-- So whether the ends of an edge are known does not depend on the edges linked before it. -/
theorem isKnown_linkEdge (e e' : Edge) : isKnown (linkEdge nodes e) e' = isKnown nodes e' := by
  simp only [isKnown, any_linkEdge]

/-- The edges between known blocks that leave a block, in order. -/
def outEdges (nodes : List Node) (edges : List Edge) (id : String) : List Edge :=
  edges.filter fun e => e.source == id && isKnown nodes e

/-- The edges out of a node are those that start there and have known ends. -/
theorem mem_outEdges {id : String} {e : Edge} :
    e ∈ outEdges nodes edges id ↔ e ∈ edges ∧ e.source = id ∧ isKnown nodes e = true := by
  simp [outEdges]

@[simp] theorem id_linkAll (n : Node) : (linkAll edges n).id = n.id := by
  induction edges generalizing n with
  | nil => rfl
  | cons e rest ih => exact (ih _).trans (id_linkNode e n)

/-- Linking an edge changes the node that it starts from and no other. -/
theorem linkEdge_eq_map (e : Edge) : linkEdge nodes e = nodes.map fun n =>
    if e.source == n.id && isKnown nodes e then linkNode e n else n := by
  simp only [linkEdge]
  split
  · rename_i hknown
    refine List.map_congr_left fun n _ => ?_
    rw [hknown, Bool.and_true, Bool.beq_comm]
  · rename_i hunknown
    simp [hunknown]

/-- **Linking gives every node the links of the edges that leave it.** -/
theorem foldl_linkEdge : edges.foldl linkEdge nodes =
    nodes.map fun n => linkAll (outEdges nodes edges n.id) n := by
  induction edges generalizing nodes with
  | nil => exact (List.map_id' nodes).symm
  | cons e rest ih =>
    -- linking changes no id, so the edges still to come leave the same nodes
    have hrest (id : String) : outEdges (linkEdge nodes e) rest id = outEdges nodes rest id := by
      simp only [outEdges, isKnown_linkEdge]
    rw [List.foldl_cons, ih]
    simp only [hrest]
    rw [linkEdge_eq_map, List.map_map]
    refine List.map_congr_left fun n _ => ?_
    simp only [Function.comp, outEdges, List.filter_cons]
    split
    · rw [id_linkNode]
      rfl
    · rfl

/-- The node of an id after linking. -/
theorem findNode?_foldl_linkEdge (id : String) :
    findNode? (edges.foldl linkEdge nodes) id =
      (findNode? nodes id).map (linkAll (outEdges nodes edges id)) := by
  have hids : ((fun n : Node => n.id == id) ∘ fun n => linkAll (outEdges nodes edges n.id) n) =
      fun n => n.id == id := by
    funext n
    rw [Function.comp, id_linkAll]
  rw [foldl_linkEdge, findNode?, List.find?_map, hids]
  refine Option.map_congr fun n hn => ?_
  rw [findNode?_id hn]

/-- The last stack edge gives the next node. -/
theorem next_linkAll (n : Node) : (linkAll edges n).next =
    ((edges.filter fun e => e.kind == .stack).getLast?.map (·.target)).or n.next := by
  induction edges generalizing n with
  | nil => rfl
  | cons e rest ih =>
    refine (ih (linkNode e n)).trans ?_
    rcases hk : e.kind
    all_goals simp only [linkNode, hk, List.filter_cons]
    · simp only [beq_self_eq_true, if_true, List.getLast?_cons, Option.map_some]
      cases (rest.filter fun e => e.kind == .stack).getLast? <;> rfl
    · rfl
    · cases e.socket <;> rfl

theorem branch?_putBranch (n : Node) (key head key' : String) :
    Node.branch? { n with branches := putBranch n.branches key head } key' =
      if key = key' then some head else n.branch? key' := by
  simp only [Node.branch?]
  induction n.branches with
  | nil => by_cases h : key = key' <;> simp [putBranch, h]
  | cons entry rest ih =>
    simp only [putBranch]
    by_cases hentry : entry.1 = key
    · by_cases h : key = key' <;> simp [hentry, h]
    · simp only [beq_iff_eq, hentry, if_false, List.find?_cons]
      by_cases h : entry.1 = key'
      · have hne : key ≠ key' := fun hkey => hentry (h.trans hkey.symm)
        simp [h, hne]
      · rw [show (entry.1 == key') = false from by simpa using h]
        exact ih

/-- Whether an edge is a branch with a key. -/
def isBranchOf (key : String) (e : Edge) : Bool :=
  e.kind == .branch && Edge.branchKey e.branch == key

/-- The last branch edge with a key gives the head of that branch. -/
theorem branch?_linkAll (n : Node) (key : String) : (linkAll edges n).branch? key =
    ((edges.filter (isBranchOf key)).getLast?.map (·.target)).or (n.branch? key) := by
  induction edges generalizing n with
  | nil => rfl
  | cons e rest ih =>
    refine (ih (linkNode e n)).trans ?_
    rcases hk : e.kind
    all_goals simp only [linkNode, hk, List.filter_cons, isBranchOf]
    · rfl
    · rw [branch?_putBranch]
      by_cases h : Edge.branchKey e.branch = key
      · simp only [h, beq_self_eq_true, Bool.and_self, if_true, List.getLast?_cons, Option.map_some]
        cases (rest.filter (isBranchOf key)).getLast? <;> rfl
      · simp [h]
    · cases e.socket <;> rfl

/-- Whether an edge plugs in at a socket. -/
def isInputAt (socket : String) (e : Edge) : Bool := e.kind == .input && e.socket == some socket

/-- The last input edge at a socket gives what is held there. -/
theorem named?_linkAll (n : Node) (socket : String) :
    Dict.named? (linkAll edges n).inputs socket =
      ((edges.filter (isInputAt socket)).getLast?.map fun e => .ref e.target).or
        (Dict.named? n.inputs socket) := by
  induction edges generalizing n with
  | nil => rfl
  | cons e rest ih =>
    refine (ih (linkNode e n)).trans ?_
    rcases hk : e.kind
    all_goals simp only [linkNode, hk, List.filter_cons, isInputAt]
    · rfl
    · rfl
    · rcases hsocket : e.socket with _ | other
      · rfl
      · rw [Dict.named?_setNamed]
        by_cases h : other = socket
        · simp only [h, BEq.rfl, Bool.and_self, if_true, List.getLast?_cons, Option.map_some]
          cases (rest.filter (isInputAt socket)).getLast? <;> rfl
        · simp [h]

/-! ## Built programs -/

variable {blocks : List Block} {p : Program}

/-- Building succeeds where every block can be read as a node, and links those nodes. -/
theorem build_ok (h : build blocks edges = .ok p) :
    ∃ unlinked, nodesOfBlocks blocks = .ok unlinked ∧ p.nodes = edges.foldl linkEdge unlinked ∧
      p.roots = (blocks.map (·.id)).filter (fun id => !isEntered unlinked edges id) ∧
      p.entry = chooseEntry p.nodes p.roots := by
  simp only [build] at h
  rcases hu : nodesOfBlocks blocks with fault | unlinked <;> rw [hu] at h
  · cases h
  · cases h
    exact ⟨unlinked, rfl, rfl, rfl, rfl⟩

/-- **The node of an id** is the unlinked one with the links of the edges that leave it. -/
theorem node?_build {unlinked : List Node} (hp : p.nodes = edges.foldl linkEdge unlinked)
    (id : String) : p.node? id =
      (findNode? unlinked id).map (linkAll (outEdges unlinked edges id)) := by
  rw [node?, hp, findNode?_foldl_linkEdge]

/-- A program has a node for an id exactly if there is a block with it. -/
theorem isSome_node?_build (h : build blocks edges = .ok p) (id : String) :
    (p.node? id).isSome = blocks.any (·.id == id) := by
  obtain ⟨unlinked, hu, hp, -⟩ := build_ok h
  rw [node?_build hp, Option.isSome_map, findNode?_isSome, any_nodesOfBlocks hu]

/-- The last stack edge out of a node gives its successor. -/
theorem next_linked {unlinked : List Node} {id : String} {n : Node}
    (hu : nodesOfBlocks blocks = .ok unlinked) (hp : p.nodes = edges.foldl linkEdge unlinked)
    (hn : p.node? id = some n) : n.next =
      ((outEdges unlinked edges id).filter fun e => e.kind == .stack).getLast?.map (·.target) := by
  rw [node?_build hp, Option.map_eq_some_iff] at hn
  obtain ⟨m, hm, rfl⟩ := hn
  rw [next_linkAll, (unlinked_nodesOfBlocks hu m (mem_of_findNode? hm)).1, Option.or_none]

/-- The last edge for a branch gives its head. -/
theorem branch?_linked {unlinked : List Node} {id : String} {n : Node}
    (hu : nodesOfBlocks blocks = .ok unlinked) (hp : p.nodes = edges.foldl linkEdge unlinked)
    (hn : p.node? id = some n) (key : String) : n.branch? key =
      ((outEdges unlinked edges id).filter (isBranchOf key)).getLast?.map (·.target) := by
  rw [node?_build hp, Option.map_eq_some_iff] at hn
  obtain ⟨m, hm, rfl⟩ := hn
  have hbranches := (unlinked_nodesOfBlocks hu m (mem_of_findNode? hm)).2
  rw [branch?_linkAll, show m.branch? key = none by simp [Node.branch?, hbranches], Option.or_none]

/-! ## Links lead to nodes -/

/-- A link that leads nowhere or to a node. -/
def Leads (p : Program) (link : Option String) : Prop :=
  ∀ id, link = some id → ∃ n, p.node? id = some n

theorem leads_none : Leads p none := fun _ h => nomatch h

/-- Every link of a program leads to a node. -/
structure Closed (p : Program) : Prop where
  entry : p.Leads p.entry
  next : ∀ id n, p.node? id = some n → p.Leads n.next
  branch : ∀ id n, p.node? id = some n → ∀ key, p.Leads (n.branch? key)

/-- The entry is one of the roots. -/
theorem chooseEntry_mem {roots : List String} {id : String}
    (h : chooseEntry nodes roots = some id) : id ∈ roots := by
  simp only [chooseEntry] at h
  split at h
  · cases h
    exact List.mem_of_find?_eq_some ‹_›
  · exact List.mem_of_head? h

/-- **A built program is closed.** -/
theorem closed_build (h : build blocks edges = .ok p) : p.Closed := by
  obtain ⟨unlinked, hu, hp, hroots, hentry⟩ := build_ok h
  have hknown (id : String) (hid : unlinked.any (·.id == id) = true) :
      ∃ n, p.node? id = some n := by
    rw [← Option.isSome_iff_exists, isSome_node?_build h, ← any_nodesOfBlocks hu]
    exact hid
  -- a link is the target of an edge whose ends are both known
  have htarget {id target : String} {keep : Edge → Bool}
      (hlink : ((outEdges unlinked edges id).filter keep).getLast?.map (·.target) = some target) :
      ∃ n, p.node? target = some n := by
    obtain ⟨e, he, rfl⟩ := Option.map_eq_some_iff.1 hlink
    have hmem := (List.mem_filter.1 (List.mem_of_getLast? he)).1
    have hboth := (mem_outEdges.1 hmem).2.2
    exact hknown _ (Bool.and_eq_true_iff.1 hboth).2
  refine ⟨fun id hid => ?_, fun id n hn target ht => ?_, fun id n hn key target ht => ?_⟩
  · rw [hentry] at hid
    have hmem := chooseEntry_mem hid
    rw [hroots] at hmem
    have hblock := (List.mem_filter.1 hmem).1
    refine hknown id ?_
    rw [any_nodesOfBlocks hu, List.any_eq_true]
    obtain ⟨b, hb, rfl⟩ := List.mem_map.1 hblock
    exact ⟨b, hb, beq_self_eq_true _⟩
  · exact htarget ((next_linked hu hp hn).symm.trans ht)
  · exact htarget ((branch?_linked hu hp hn key).symm.trans ht)

end Program

end BlockProgram
