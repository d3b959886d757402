import BlockProgram.Proofs.Program.Build

/-!
# What roots, entry and succession depend on

Which blocks are roots, where a program starts and what follows what is settled by the ids and types
of the blocks (`Block.label`) and by the ends of the stack edges (`stackLinks`). Neither inputs nor
branches count, nor what edges of other kinds there are (`Program.sameStacks_of_build`).
-/

namespace BlockProgram

/-- What of a block counts for its place in a stack. -/
def Block.label (b : Block) : String × Value := (b.id, b.type)

/-- The same of a node. -/
def Node.label (n : Node) : String × Value := (n.id, n.type)

/-- The ends of the stack edges, in order. -/
def stackLinks (edges : List Edge) : List (String × String) :=
  (edges.filter fun e => e.kind == .stack).map fun e => (e.source, e.target)

theorem stackLinks_append (edges edges' : List Edge) :
    stackLinks (edges ++ edges') = stackLinks edges ++ stackLinks edges' := by
  rw [stackLinks, List.filter_append, List.map_append]
  rfl

theorem mem_stackLinks {edges : List Edge} {a b : String} :
    (a, b) ∈ stackLinks edges ↔ ∃ e ∈ edges, e.kind = .stack ∧ e.source = a ∧ e.target = b := by
  simp [stackLinks, and_assoc]

namespace Program

variable {blocks blocks' : List Block} {nodes nodes' : List Node} {edges edges' : List Edge}
  {p q : Program}

/-! ## Labels -/

theorem label_nodeOfBlock {b : Block} {n : Node} (h : nodeOfBlock b = .ok n) :
    n.label = b.label := by
  simp only [nodeOfBlock] at h
  rcases hinputs : blockInputs b.inputs with fault | inputs <;> rw [hinputs] at h
  · cases h
  · rcases hdata : checkData b.data with fault | ⟨⟩ <;> rw [hdata] at h
    · cases h
    · cases h
      rfl

theorem labels_putNode {n n' : Node} (h : nodes.map Node.label = nodes'.map Node.label)
    (hn : n.label = n'.label) :
    (putNode nodes n).map Node.label = (putNode nodes' n').map Node.label := by
  have hid : n.id = n'.id := congrArg Prod.fst hn
  induction nodes generalizing nodes' with
  | nil =>
    obtain rfl := List.map_eq_nil_iff.1 h.symm
    simp [putNode, hn]
  | cons m rest ih =>
    obtain ⟨m', rest', rfl, hm, hrest⟩ := List.map_eq_cons_iff.1 h.symm
    have hmid : m.id = m'.id := congrArg Prod.fst hm.symm
    simp only [putNode, ← hmid, ← hid]
    split
    · rw [List.map_cons, List.map_cons, hn, hrest]
    · rw [List.map_cons, List.map_cons, hm, ih hrest.symm]

/-- Blocks of the same labels have nodes of the same labels. -/
theorem labels_nodesOfBlocks (h : nodesOfBlocks blocks = .ok nodes)
    (h' : nodesOfBlocks blocks' = .ok nodes')
    (hlabels : blocks'.map Block.label = blocks.map Block.label) :
    nodes'.map Node.label = nodes.map Node.label := by
  simp only [nodesOfBlocks] at h h'
  suffices ∀ start start' : List Node, start'.map Node.label = start.map Node.label →
      blocks.foldlM (fun nodes b => (nodeOfBlock b).map (putNode nodes)) start = .ok nodes →
      blocks'.foldlM (fun nodes b => (nodeOfBlock b).map (putNode nodes)) start' = .ok nodes' →
      nodes'.map Node.label = nodes.map Node.label from this [] [] rfl h h'
  clear h h'
  induction blocks generalizing blocks' with
  | nil =>
    obtain rfl := List.map_eq_nil_iff.1 hlabels
    intro start start' hstart h h'
    cases h
    cases h'
    exact hstart
  | cons b rest ih =>
    obtain ⟨b', rest', rfl, hb, hrest⟩ := List.map_eq_cons_iff.1 hlabels
    intro start start' hstart h h'
    rw [List.foldlM_cons] at h h'
    rcases hn : nodeOfBlock b with fault | n <;> rw [hn] at h
    · cases h
    rcases hn' : nodeOfBlock b' with fault | n' <;> rw [hn'] at h'
    · cases h'
    refine ih hrest _ _ (labels_putNode hstart ?_) h h'
    rw [label_nodeOfBlock hn, label_nodeOfBlock hn', hb]

theorem label_linkAll (edges : List Edge) (n : Node) : (linkAll edges n).label = n.label := by
  induction edges generalizing n with
  | nil => rfl
  | cons e rest ih =>
    refine (ih (linkNode e n)).trans ?_
    rw [Node.label, id_linkNode, type_linkNode, Node.label]

theorem labels_foldl_linkEdge (nodes : List Node) (edges : List Edge) :
    (edges.foldl linkEdge nodes).map Node.label = nodes.map Node.label := by
  rw [foldl_linkEdge, List.map_map]
  exact List.map_congr_left fun n _ => label_linkAll _ n

/-! ## What labels and stack links settle -/

theorem any_of_labels (h : nodes'.map Node.label = nodes.map Node.label) (id : String) :
    nodes'.any (·.id == id) = nodes.any (·.id == id) := by
  have hany (nodes : List Node) :
      nodes.any (·.id == id) = (nodes.map Node.label).any (·.1 == id) := by
    rw [List.any_map]
    rfl
  rw [hany, hany, h]

theorem isStart_of_labels (h : nodes'.map Node.label = nodes.map Node.label) (id : String) :
    isStart nodes' id = isStart nodes id := by
  have hstart (nodes : List Node) : isStart nodes id =
      ((nodes.map Node.label).find? (·.1 == id)).any (·.2.isStr startType) := by
    rw [isStart, findNode?, List.find?_map]
    simp only [Function.comp_def, Node.label]
    cases nodes.find? fun n => n.id == id <;> rfl
  rw [hstart, hstart, h]

/-- Whether both ends of a stack link are nodes. -/
def isKnownLink (nodes : List Node) (link : String × String) : Bool :=
  nodes.any (·.id == link.1) && nodes.any (·.id == link.2)

theorem isEntered_eq (nodes : List Node) (edges : List Edge) (id : String) :
    isEntered nodes edges id =
      (stackLinks edges).any fun link => link.2 == id && isKnownLink nodes link := by
  rw [isEntered, stackLinks, List.any_map, List.any_filter]
  congr 1
  funext e
  rw [Bool.and_assoc]
  rfl

theorem target_last_eq (nodes : List Node) (edges : List Edge) (id : String) :
    ((outEdges nodes edges id).filter fun e => e.kind == .stack).getLast?.map (·.target) =
      ((stackLinks edges).filter fun link =>
        link.1 == id && isKnownLink nodes link).getLast?.map (·.2) := by
  rw [stackLinks, List.filter_map, List.getLast?_map, Option.map_map, outEdges,
    List.filter_filter, List.filter_filter]
  congr 2
  exact List.filter_congr fun e _ => Bool.and_comm _ _

/-- What follows a node, if there is one. -/
theorem next_build {unlinked : List Node} (hu : nodesOfBlocks blocks = .ok unlinked)
    (hp : p.nodes = edges.foldl linkEdge unlinked) (id : String) :
    (p.node? id).map (·.next) = if unlinked.any (·.id == id) then
      some (((stackLinks edges).filter fun link =>
        link.1 == id && isKnownLink unlinked link).getLast?.map (·.2)) else none := by
  have hsome : (p.node? id).isSome = unlinked.any (·.id == id) := by
    rw [node?_build hp, Option.isSome_map, findNode?_isSome]
  rw [← hsome, ← target_last_eq]
  rcases hn : p.node? id with _ | n
  · rfl
  · rw [Option.map_some, next_linked hu hp hn]
    rfl

/-- Two programs that start alike and go on alike. -/
structure SameStacks (p q : Program) : Prop where
  roots : q.roots = p.roots
  entry : q.entry = p.entry
  next : ∀ id, (q.node? id).map (·.next) = (p.node? id).map (·.next)

/-- **Labels and stack links settle roots, entry and succession.** -/
theorem sameStacks_of_build (hp : build blocks edges = .ok p) (hq : build blocks' edges' = .ok q)
    (hlabels : blocks'.map Block.label = blocks.map Block.label)
    (hlinks : stackLinks edges' = stackLinks edges) : SameStacks p q := by
  obtain ⟨unlinked, hu, hnodes, hroots, hentry⟩ := build_ok hp
  obtain ⟨unlinked', hu', hnodes', hroots', hentry'⟩ := build_ok hq
  have hsame := labels_nodesOfBlocks hu hu' hlabels
  have hknown : isKnownLink unlinked' = isKnownLink unlinked := by
    funext link
    rw [isKnownLink, any_of_labels hsame, any_of_labels hsame, isKnownLink]
  have hids : blocks'.map (·.id) = blocks.map (·.id) := by
    have hfirst := congrArg (List.map Prod.fst) hlabels
    rwa [List.map_map, List.map_map] at hfirst
  have hsameRoots : q.roots = p.roots := by
    rw [hroots, hroots', hids]
    simp only [isEntered_eq, hlinks, hknown]
  refine ⟨hsameRoots, ?_, fun id => ?_⟩
  · have hstart : isStart q.nodes = isStart p.nodes := by
      funext id
      refine isStart_of_labels ?_ id
      rw [hnodes, hnodes', labels_foldl_linkEdge, labels_foldl_linkEdge, hsame]
    rw [hentry, hentry', chooseEntry, chooseEntry, hstart, hsameRoots]
  · rw [next_build hu hnodes, next_build hu' hnodes', hlinks, hknown, any_of_labels hsame]

end Program

end BlockProgram
