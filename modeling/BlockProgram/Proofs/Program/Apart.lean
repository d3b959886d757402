import BlockProgram.Proofs.Program.Labels
import BlockProgram.Proofs.Program.Legible

/-!
# Programs told apart by their flowcharts

In a flowchart a node goes by a name, which is its id with an underscore for every character that is
neither a letter nor a digit. So two nodes go by the same name exactly if their ids look alike: at
each place they have the same character, or neither has a letter or a digit
(`Flowchart.nodeName_eq_iff`).

If no two ids of a program look alike, its flowchart shows it up to a renaming of its nodes: any
program with the same lines of nodes and arrows has the same nodes with the same links, by other ids,
and with the same style also the same entry (`Program.flowchart_apart`). The names pair the nodes of the two programs (`Flowchart.counterpart`),
what belongs to a name are the marks of its node in both, and all links lead to nodes
(`Flowchart.Grounded`), so they are those of the paired nodes.

Else the arrows of nodes that look alike cannot be told apart (`Program.flowchart_alike`).
-/

namespace BlockProgram

namespace Flowchart

variable {p q : Program} {n m : Node} {a b id : String} {blocks : List Block} {edges : List Edge}

/-! ## Names -/

/-- Two ids with the same letters and digits at the same places and something else between them. -/
def Lookalike (a b : String) : Prop := List.Forall₂ (fun c d => c = d ∨
  (c.isAlphanum = false ∧ d.isAlphanum = false)) a.toList b.toList

theorem isNameChar_eq (c : Char) : isNameChar c = (c.isAlphanum || c == '_') := by
  have hupper : (decide ('A' ≤ c) && decide (c ≤ 'Z')) = c.isUpper := (Bool.decide_and _ _).symm
  rw [isNameChar, hupper]
  rfl

/-- What stands in a name for a character tells which letter or digit it is. -/
theorem nameChar_eq_iff (c d : Char) :
    (if isNameChar c then c else '_') = (if isNameChar d then d else '_') ↔
      c = d ∨ (c.isAlphanum = false ∧ d.isAlphanum = false) := by
  have hname (c : Char) : (if isNameChar c then c else '_') = if c.isAlphanum then c else '_' := by
    rw [isNameChar_eq]
    cases c.isAlphanum with
    | true => rfl
    | false =>
      rw [Bool.false_or, if_neg Bool.false_ne_true]
      split
      · rename_i hc
        exact beq_iff_eq.1 hc
      · rfl
  have hfiller {c : Char} (hc : c.isAlphanum = true) : c ≠ '_' := by
    rintro rfl
    revert hc
    decide
  rw [hname, hname]
  rcases hc : c.isAlphanum <;> rcases hd : d.isAlphanum
  · simp
  · have hne : c ≠ d := fun heq => by rw [heq, hd] at hc; cases hc
    simpa [hne] using (hfiller hd).symm
  · have hne : c ≠ d := fun heq => by rw [heq, hd] at hc; cases hc
    simpa [hne] using hfiller hc
  · simp

/-- **Nodes go by the same name exactly if their ids look alike.** -/
theorem nodeName_eq_iff (a b : String) : nodeName a = nodeName b ↔ Lookalike a b := by
  rw [nodeName, nodeName, String.ofList_inj, ← List.forall₂_eq_eq_eq, List.forall₂_map_left_iff,
    List.forall₂_map_right_iff, Lookalike]
  simp only [nameChar_eq_iff]

/-! ## Nodes and links -/

theorem mem_putBranch {branches : List (String × String)} {key head : String} {b : String × String}
    (h : b ∈ Program.putBranch branches key head) : b = (key, head) ∨ b ∈ branches := by
  induction branches with
  | nil => exact .inl (List.mem_singleton.1 h)
  | cons entry rest ih =>
    simp only [Program.putBranch] at h
    split at h
    · exact (List.mem_cons.1 h).imp_right (List.mem_cons_of_mem entry)
    · rcases List.mem_cons.1 h with rfl | h
      · exact .inr List.mem_cons_self
      · exact (ih h).imp_right (List.mem_cons_of_mem entry)

theorem mem_branches_linkNode {e : Edge} {b : String × String}
    (h : b ∈ (Program.linkNode e n).branches) : b ∈ n.branches ∨ e.target = b.2 := by
  rcases hkind : e.kind <;> simp only [Program.linkNode, hkind] at h
  · exact .inl h
  · rcases mem_putBranch h with rfl | h
    · exact .inr rfl
    · exact .inl h
  · split at h <;> exact .inl h

/-- The head of a branch of a linked node is one that it had or the target of an edge. -/
theorem mem_branches_linkAll {b : String × String} (h : b ∈ (Program.linkAll edges n).branches) :
    b ∈ n.branches ∨ ∃ e ∈ edges, e.target = b.2 := by
  induction edges generalizing n with
  | nil => exact .inl h
  | cons e rest ih =>
    rcases ih h with hmem | ⟨e', he', htarget⟩
    · exact (mem_branches_linkNode hmem).imp_right fun htarget => ⟨e, List.mem_cons_self, htarget⟩
    · exact .inr ⟨e', List.mem_cons_of_mem e he', htarget⟩

theorem node?_isSome_of_mem_plugs {s : Value × String} (h : s ∈ plugs p n) :
    (p.node? s.2).isSome := by
  obtain ⟨⟨socket, value⟩, -, hs⟩ := List.mem_filterMap.1 h
  cases value with
  | ref block =>
    simp only at hs
    split at hs
    · rename_i hblock
      cases hs
      exact hblock
    · cases hs
  | _ => cases hs

/-- All links that are drawn of a program lead to its nodes. -/
structure Grounded (p : Program) : Prop where
  entry : ∀ id, p.entry = some id → id ∈ p.nodes.map (·.id)
  next : ∀ n ∈ p.nodes, ∀ id, n.next = some id → id ∈ p.nodes.map (·.id)
  head : ∀ n ∈ p.nodes, ∀ b ∈ n.branches, b.2 ∈ p.nodes.map (·.id)
  plug : ∀ n ∈ p.nodes, ∀ s ∈ plugs p n, s.2 ∈ p.nodes.map (·.id)

/-- **The links of a built program lead to its nodes.** -/
theorem grounded_build (hp : Program.build blocks edges = .ok p) : Grounded p := by
  obtain ⟨unlinked, hu, hnodes, -⟩ := Program.build_ok hp
  have hids {id : String} (h : (p.node? id).isSome) : id ∈ p.nodes.map (·.id) := by
    obtain ⟨n, hn⟩ := Option.isSome_iff_exists.1 h
    exact List.mem_map.2 ⟨n, Program.mem_of_findNode? hn, Program.findNode?_id hn⟩
  -- only edges between known blocks are drawn
  have htarget {id : String} {e : Edge} (he : e ∈ Program.outEdges unlinked edges id) :
      e.target ∈ p.nodes.map (·.id) := by
    have hboth := (Program.mem_outEdges.1 he).2.2
    refine hids ?_
    rw [Program.isSome_node?_build hp, ← Program.any_nodesOfBlocks hu]
    exact (Bool.and_eq_true_iff.1 hboth).2
  have hlinked {n : Node} (hn : n ∈ p.nodes) : ∃ m : Node, m.next = none ∧ m.branches = [] ∧
      n = Program.linkAll (Program.outEdges unlinked edges m.id) m := by
    rw [hnodes, Program.foldl_linkEdge] at hn
    obtain ⟨m, hm, rfl⟩ := List.mem_map.1 hn
    exact ⟨m, (Program.unlinked_nodesOfBlocks hu m hm).1,
      (Program.unlinked_nodesOfBlocks hu m hm).2, rfl⟩
  refine ⟨fun id hid => ?_, fun n hn id hid => ?_, fun n hn b hb => ?_, fun n _ s hs => ?_⟩
  · obtain ⟨n, hn⟩ := (Program.closed_build hp).entry id hid
    exact hids (by rw [hn]; rfl)
  · obtain ⟨m, hnext, -, rfl⟩ := hlinked hn
    rw [Program.next_linkAll, hnext, Option.or_none] at hid
    obtain ⟨e, he, rfl⟩ := Option.map_eq_some_iff.1 hid
    exact htarget (List.mem_filter.1 (List.mem_of_getLast? he)).1
  · obtain ⟨m, -, hbranches, rfl⟩ := hlinked hn
    rcases mem_branches_linkAll hb with hb | ⟨e, he, heq⟩
    · rw [hbranches] at hb
      cases hb
    · exact heq ▸ htarget he
  · exact hids (node?_isSome_of_mem_plugs hs)

theorem nodup_ids_placed (blocks : List Block) : ((Program.placed blocks).map (·.id)).Nodup := by
  induction blocks using List.reverseRecOn with
  | nil => exact List.nodup_nil
  | append_singleton blocks b ih =>
    rw [Program.placed_append, Program.ids_putNode]
    split
    · exact ih
    · rename_i hnew
      exact List.nodup_append'.2 ⟨ih, List.nodup_singleton _, List.disjoint_singleton.2 hnew⟩

/-- The nodes of a built program have distinct ids. -/
theorem nodup_ids_build (hblocks : ∀ b ∈ blocks, b.InOrder)
    (hp : Program.build blocks edges = .ok p) : (p.nodes.map (·.id)).Nodup := by
  rw [(Program.projection_build hblocks hp).ids, ← Program.ids_placed]
  exact nodup_ids_placed blocks

/-- If no two ids look alike, the names of the nodes are distinct as well. -/
theorem nodup_names (hids : (p.nodes.map (·.id)).Nodup)
    (hunlike : ∀ n ∈ p.nodes, ∀ m ∈ p.nodes, Lookalike n.id m.id → n.id = m.id) :
    (p.nodes.map fun n => nodeName n.id).Nodup := by
  refine List.Nodup.map_on (fun n hn m hm hname => ?_) hids.of_map
  exact List.inj_on_of_nodup_map hids hn hm (hunlike n hn m hm ((nodeName_eq_iff _ _).1 hname))

/-- What is drawn of a node is its name, its type, its literals and whether it branches. -/
theorem nodeMark_congr (hname : nodeName m.id = nodeName n.id) (htype : m.type = n.type)
    (hliterals : literals m = literals n) (hbranches : m.branches.isEmpty = n.branches.isEmpty) :
    nodeMark m = nodeMark n := by
  rw [nodeMark, nodeMark, label, label, hname, htype, hliterals, hbranches]

/-! ## Counterparts -/

/-- The id among those of a program that goes by the same name as another. -/
def counterpart (q : Program) (id : String) : String :=
  ((q.nodes.map (·.id)).find? fun other => nodeName other == nodeName id).getD id

theorem counterpart_eq (hnames : (q.nodes.map fun n => nodeName n.id).Nodup)
    (ha : a ∈ q.nodes.map (·.id)) (hname : nodeName a = nodeName id) : counterpart q id = a := by
  have hfound : ((q.nodes.map (·.id)).find? fun other => nodeName other == nodeName id).isSome :=
    List.find?_isSome.2 ⟨a, ha, beq_iff_eq.2 hname⟩
  obtain ⟨other, hother⟩ := Option.isSome_iff_exists.1 hfound
  have hsame : nodeName other = nodeName id := by simpa using List.find?_some hother
  rw [counterpart, hother, Option.getD_some]
  rw [← Function.comp_def nodeName, ← List.map_map] at hnames
  exact List.inj_on_of_nodup_map hnames (List.mem_of_find?_eq_some hother) ha
    (hsame.trans hname.symm)

end Flowchart

open Flowchart

namespace Program

variable {blocks : List Block} {p q : Program} {n m : Node}

/-- Two nodes with the same label and the same links, up to a renaming. The keys of branches are the
same as far as these are called the same. -/
structure RenamesNode (rename : String → String) (p q : Program) (n m : Node) : Prop where
  id : m.id = rename n.id
  label : label m.type.plain m = label n.type.plain n
  next : m.next = n.next.map rename
  heads : m.branches.map (fun b => (branchLabel b.1, b.2)) =
    n.branches.map fun b => (branchLabel b.1, rename b.2)
  plugs : (plugs q m).map (fun s => (s.1.plain, s.2)) =
    (plugs p n).map fun s => (s.1.plain, rename s.2)

/-- Two programs with the same nodes and links, up to a renaming of the nodes. -/
structure Relinks (rename : String → String) (p q : Program) : Prop where
  injective : ∀ n ∈ p.nodes, ∀ m ∈ p.nodes, rename n.id = rename m.id → n.id = m.id
  ids : q.nodes.map (·.id) = p.nodes.map fun n => rename n.id
  node : ∀ n ∈ p.nodes, ∃ m ∈ q.nodes, RenamesNode rename p q n m

/-- Two programs that also start at the same node, up to the renaming. -/
structure Renames (rename : String → String) (p q : Program) : Prop extends
    Relinks rename p q where
  entry : q.entry = p.entry.map rename

/-- Ids of nodes are the counterparts of the ids that go by the same names. -/
theorem list_counterpart {ids others : List String}
    (hnames : (q.nodes.map fun n => nodeName n.id).Nodup)
    (hknown : ∀ id ∈ ids, id ∈ q.nodes.map (·.id)) (h : ids.map nodeName = others.map nodeName) :
    ids = others.map (counterpart q) := by
  induction ids generalizing others with
  | nil =>
    rw [List.map_nil, eq_comm, List.map_eq_nil_iff] at h
    rw [h, List.map_nil]
  | cons id rest ih =>
    rcases others with _ | ⟨other, others⟩
    · cases h
    · obtain ⟨hname, hrest⟩ := List.cons.inj h
      rw [List.map_cons, counterpart_eq hnames (hknown id List.mem_cons_self) hname,
        ← ih (fun id hid => hknown id (List.mem_cons_of_mem _ hid)) hrest]

theorem option_counterpart {link other : Option String}
    (hnames : (q.nodes.map fun n => nodeName n.id).Nodup)
    (hknown : ∀ id, link = some id → id ∈ q.nodes.map (·.id))
    (h : (link.map nodeName).toList = (other.map nodeName).toList) :
    link = other.map (counterpart q) := by
  rcases link with _ | a <;> rcases other with _ | b
  · rfl
  · cases h
  · cases h
  · rw [Option.map_some, counterpart_eq hnames (hknown a rfl) (List.cons.inj h).1]

theorem links_counterpart {α : Type} {label target : α → String} {links others : List α}
    (hnames : (q.nodes.map fun n => nodeName n.id).Nodup)
    (hknown : ∀ link ∈ links, target link ∈ q.nodes.map (·.id))
    (h : links.map (fun link => (label link, nodeName (target link))) =
      others.map fun link => (label link, nodeName (target link))) :
    links.map (fun link => (label link, target link)) =
      others.map fun link => (label link, counterpart q (target link)) := by
  have hlabels : links.map label = others.map label := by
    simpa [Function.comp_def] using congrArg (List.map Prod.fst) h
  have htargets : (links.map target).map nodeName = (others.map target).map nodeName := by
    simpa [Function.comp_def] using congrArg (List.map Prod.snd) h
  have hcounterparts := list_counterpart hnames (List.forall_mem_map.2 hknown) htargets
  rw [List.map_map] at hcounterparts
  rw [← List.zip_map', hlabels, hcounterparts, List.zip_map']
  rfl

/-- Programs that draw the same nodes declare the same names. -/
theorem names_of_drawn_eq (h : drawn q = drawn p) :
    (q.nodes.map fun n => nodeName n.id) = p.nodes.map fun n => nodeName n.id := by
  rw [← filterMap_declared?_drawn, ← filterMap_declared?_drawn, h]

/-- **Programs that draw the same nodes and arrows have the same nodes and links up to a renaming**, if
no two nodes go by one name. -/
theorem relinks_of_drawn_eq (hnames : (p.nodes.map fun n => nodeName n.id).Nodup)
    (hground : Grounded q) (h : drawn q = drawn p) : Relinks (counterpart q) p q := by
  have hsame := names_of_drawn_eq h
  have hnames' : (q.nodes.map fun n => nodeName n.id).Nodup := hsame ▸ hnames
  have hpaired {n : Node} (hn : n ∈ p.nodes) :
      ∃ m ∈ q.nodes, nodeName m.id = nodeName n.id := by
    have hmem : nodeName n.id ∈ p.nodes.map fun n => nodeName n.id := List.mem_map.2 ⟨n, hn, rfl⟩
    rw [← hsame] at hmem
    exact List.mem_map.1 hmem
  have hids : q.nodes.map (·.id) = p.nodes.map fun n => counterpart q n.id := by
    have hlists : (q.nodes.map (·.id)).map nodeName = (p.nodes.map (·.id)).map nodeName := by
      rw [List.map_map, List.map_map]
      exact hsame
    rw [list_counterpart hnames' (fun id hid => hid) hlists, List.map_map]
    rfl
  refine ⟨fun n hn m hm heq => ?_, hids, fun n hn => ?_⟩
  · -- the counterparts go by the names of the ids
    obtain ⟨n', hn', hname⟩ := hpaired hn
    obtain ⟨m', hm', hname'⟩ := hpaired hm
    rw [counterpart_eq hnames' (List.mem_map.2 ⟨n', hn', rfl⟩) hname,
      counterpart_eq hnames' (List.mem_map.2 ⟨m', hm', rfl⟩) hname'] at heq
    rw [List.inj_on_of_nodup_map hnames hn hm (hname.symm.trans (heq ▸ hname'))]
  · obtain ⟨m, hm, hname⟩ := hpaired hn
    have hmarks : nodeMark m :: arrowMarks q m = nodeMark n :: arrowMarks p n := by
      rw [← filter_owner_drawn hnames' hm, ← filter_owner_drawn hnames hn, h, hname]
    obtain ⟨hnode, harrows⟩ := List.cons.inj hmarks
    refine ⟨m, hm, ?_, (Mark.node.inj hnode).2.2, ?_, ?_, ?_⟩
    · exact (counterpart_eq hnames' (List.mem_map.2 ⟨m, hm, rfl⟩) hname).symm
    · refine option_counterpart hnames' (hground.next m hm) ?_
      rw [← filterMap_successor?_arrowMarks q, ← filterMap_successor?_arrowMarks p, harrows]
    · refine links_counterpart hnames' (hground.head m hm) ?_
      rw [← filterMap_head?_arrowMarks q, ← filterMap_head?_arrowMarks p, harrows]
    · refine links_counterpart hnames' (hground.plug m hm) ?_
      rw [← filterMap_plug?_arrowMarks, ← filterMap_plug?_arrowMarks, harrows]

/-- With the style, they also start at the same node. -/
theorem renames_of_marks_eq (hnames : (p.nodes.map fun n => nodeName n.id).Nodup)
    (hground : Grounded q) (h : marks q = marks p) : Renames (counterpart q) p q := by
  have hdrawn : drawn q = drawn p := by rw [← filter_styled?_marks, ← filter_styled?_marks, h]
  have hnames' : (q.nodes.map fun n => nodeName n.id).Nodup := names_of_drawn_eq hdrawn ▸ hnames
  refine ⟨relinks_of_drawn_eq hnames hground hdrawn, option_counterpart hnames' hground.entry ?_⟩
  rw [← filterMap_styled?_marks, ← filterMap_styled?_marks, h]

/-- **What a flowchart tells of its program.** Two nodes go by the same name exactly if their ids look
alike. For every program of blocks that are in order of which no two ids look alike, the lines
of the nodes and arrows determine its nodes and links up to a renaming: if another program, whatever
its ids, has the same such lines, it has the same nodes with the same labels, and as the links of each
node the same successor, the same heads of branches and the same reporters at the same sockets, by
other ids. All lines, the style among them, determine the entry as well. The text determines the lines
where no text of a user breaks them. -/
theorem flowchart_apart (hblocks : ∀ b ∈ blocks, b.InOrder) (edges : List Edge) :
    ∃ p, build blocks edges = .ok p ∧
      (∀ n ∈ p.nodes, ∀ m ∈ p.nodes, nodeName n.id = nodeName m.id ↔ Lookalike n.id m.id) ∧
      ((∀ n ∈ p.nodes, ∀ m ∈ p.nodes, Lookalike n.id m.id → n.id = m.id) →
        ∀ blocks' edges' q, (∀ b ∈ blocks', b.InOrder) → build blocks' edges' = .ok q →
          (drawnLines q = drawnLines p → ∃ rename, Relinks rename p q) ∧
          (lines q = lines p → ∃ rename, Renames rename p q) ∧
          ((∀ n ∈ p.nodes, breaks p n = 0) → (∀ n ∈ q.nodes, breaks q n = 0) →
            q.flowchart = p.flowchart → ∃ rename, Renames rename p q)) := by
  obtain ⟨p, hp⟩ := exists_build hblocks edges
  have htyped := typed_of_build hblocks hp
  refine ⟨p, hp, fun n _ m _ => nodeName_eq_iff n.id m.id,
    fun hunlike blocks' edges' q hblocks' hq => ?_⟩
  have htyped' := typed_of_build hblocks' hq
  have hnames := nodup_names (nodup_ids_build hblocks hp) hunlike
  have hground := grounded_build hq
  have hrenames (hlines : lines q = lines p) : ∃ rename, Renames rename p q :=
    ⟨counterpart q, renames_of_marks_eq hnames hground (marks_eq_of_lines_eq htyped htyped' hlines)⟩
  refine ⟨fun hdrawn => ?_, hrenames, fun hbreaks hbreaks' htext => ?_⟩
  · exact ⟨counterpart q,
      relinks_of_drawn_eq hnames hground (drawn_eq_of_drawnLines_eq htyped htyped' hdrawn)⟩
  · exact hrenames (lines_eq_of_flowchart_eq htyped htyped' hbreaks hbreaks' htext)

/-- A condition with its answer and a reporter. -/
def askedBlocks (condition : String) : List Block := [
  { id := condition, type := .str "if_else" },
  { id := "yes", type := .str "say", inputs := .dict [(.str "text", .str "y")] },
  { id := "v", type := .str "variable" }]

/-- The links between them. -/
def askedEdges (condition : String) : List Edge := [
  .toInput condition (some "condition") "v", .toBranch condition (some "true") "yes"]

/-- What is built of them. -/
def askedProgram (condition : String) : Program where
  nodes := [
    { id := condition, type := .str "if_else", inputs := [(.str "condition", .ref "v")],
      branches := [("true", "yes")] },
    { id := "yes", type := .str "say", inputs := [(.str "text", .str "y")] },
    { id := "v", type := .str "variable" }]
  roots := [condition, "yes", "v"]
  entry := some condition

/-- With a dash or an underscore in its id the condition has the same flowchart, which shows that the
programs differ in nothing else. -/
theorem flowchart_asked : (∀ b ∈ askedBlocks "if-1", b.InOrder) ∧
    build (askedBlocks "if-1") (askedEdges "if-1") = .ok (askedProgram "if-1") ∧
    build (askedBlocks "if_1") (askedEdges "if_1") = .ok (askedProgram "if_1") ∧
    (∀ n ∈ (askedProgram "if-1").nodes, ∀ m ∈ (askedProgram "if-1").nodes,
      Lookalike n.id m.id → n.id = m.id) ∧
    lines (askedProgram "if_1") = lines (askedProgram "if-1") ∧
    ∃ rename, Renames rename (askedProgram "if-1") (askedProgram "if_1") := by
  have hblocks (condition : String) : ∀ b ∈ askedBlocks condition, b.InOrder := by
    simp [askedBlocks, Block.InOrder]
  have htyped (condition : String) : ∀ n ∈ (askedProgram condition).nodes, n.Typed := by
    simp [askedProgram, Node.Typed]
  have hdashed : build (askedBlocks "if-1") (askedEdges "if-1") = .ok (askedProgram "if-1") := rfl
  have hunder : build (askedBlocks "if_1") (askedEdges "if_1") = .ok (askedProgram "if_1") := rfl
  have hunlike : ∀ n ∈ (askedProgram "if-1").nodes, ∀ m ∈ (askedProgram "if-1").nodes,
      Lookalike n.id m.id → n.id = m.id := by
    simp only [← nodeName_eq_iff]
    decide
  have hlines : lines (askedProgram "if_1") = lines (askedProgram "if-1") := by
    have hname : nodeName "if_1" = nodeName "if-1" := by decide
    have hnodes : (askedProgram "if_1").nodes.map nodeMark =
        (askedProgram "if-1").nodes.map nodeMark :=
      congrArg₂ List.cons (nodeMark_congr hname rfl rfl rfl) rfl
    have harrows : (askedProgram "if_1").nodes.flatMap (arrowMarks (askedProgram "if_1")) =
        (askedProgram "if-1").nodes.flatMap (arrowMarks (askedProgram "if-1")) := by decide
    have hstyle : styleMarks (askedProgram "if_1") = styleMarks (askedProgram "if-1") := by decide
    rw [lines_eq (htyped _), lines_eq (htyped _), marks, marks, drawn, drawn, hnodes, harrows, hstyle]
  obtain ⟨p, hp, -, hapart⟩ := flowchart_apart (hblocks "if-1") (askedEdges "if-1")
  obtain rfl := Except.ok.inj (hdashed.symm.trans hp)
  exact ⟨hblocks "if-1", hp, hunder, hunlike, hlines,
    (hapart hunlike (askedBlocks "if_1") (askedEdges "if_1") _ (hblocks "if_1") hunder).2.1 hlines⟩

/-- Two blocks whose ids look alike, and two to be plugged in. -/
def alikeBlocks : List Block := [
  { id := "a-b", type := .str "say" }, { id := "a_b", type := .str "say" },
  { id := "c", type := .str "variable" }, { id := "d", type := .str "variable" }]

/-- What is built of them with one plugged in at each of the two. -/
def oneEach : Program where
  nodes := [
    { id := "a-b", type := .str "say", inputs := [(.str "x", .ref "c")] },
    { id := "a_b", type := .str "say", inputs := [(.str "y", .ref "d")] },
    { id := "c", type := .str "variable" }, { id := "d", type := .str "variable" }]
  roots := ["a-b", "a_b", "c", "d"]
  entry := some "a-b"

/-- What is built of them with both plugged in at the first. -/
def bothAtOne : Program where
  nodes := [
    { id := "a-b", type := .str "say", inputs := [(.str "x", .ref "c"), (.str "y", .ref "d")] },
    { id := "a_b", type := .str "say" },
    { id := "c", type := .str "variable" }, { id := "d", type := .str "variable" }]
  roots := ["a-b", "a_b", "c", "d"]
  entry := some "a-b"

/-- The two blocks go by one name. The flowchart with one plugged in at each of them is that with both
plugged in at the first, though no renaming makes the one program the other. -/
theorem flowchart_alike :
    build alikeBlocks [.toInput "a-b" (some "x") "c", .toInput "a_b" (some "y") "d"] =
      .ok oneEach ∧
    build alikeBlocks [.toInput "a-b" (some "x") "c", .toInput "a-b" (some "y") "d"] =
      .ok bothAtOne ∧
    oneEach.nodes.map (·.id) = ["a-b", "a_b", "c", "d"] ∧ nodeName "a-b" = nodeName "a_b" ∧
    (∃ text, oneEach.flowchart = .ok text ∧ bothAtOne.flowchart = .ok text) ∧
    (∀ n ∈ oneEach.nodes, (plugs oneEach n).length ≤ 1) ∧
    (∃ n ∈ bothAtOne.nodes, (plugs bothAtOne n).length = 2) ∧
    ¬ ∃ rename, Relinks rename oneEach bothAtOne := by
  have htyped : ∀ n ∈ oneEach.nodes, n.Typed := by
    simp [oneEach, Node.Typed]
  have htyped' : ∀ n ∈ bothAtOne.nodes, n.Typed := by
    simp [bothAtOne, Node.Typed]
  have hlines : lines bothAtOne = lines oneEach := by
    have hnodes : bothAtOne.nodes.map nodeMark = oneEach.nodes.map nodeMark :=
      congrArg₂ List.cons (nodeMark_congr rfl rfl rfl rfl)
        (congrArg₂ List.cons (nodeMark_congr rfl rfl rfl rfl) rfl)
    have harrows : bothAtOne.nodes.flatMap (arrowMarks bothAtOne) =
        oneEach.nodes.flatMap (arrowMarks oneEach) := by decide
    rw [lines_eq htyped', lines_eq htyped, marks, marks, drawn, drawn, hnodes, harrows]
    rfl
  have hone : ∀ n ∈ oneEach.nodes, (plugs oneEach n).length ≤ 1 := by decide
  refine ⟨rfl, rfl, rfl, by decide, ?_, hone, ?_, ?_⟩
  · rw [flowchart, flowchart, hlines, lines_eq htyped]
    exact ⟨_, rfl, rfl⟩
  · decide
  · rintro ⟨rename, h⟩
    -- the first node is renamed to the first one, which has one more plugged in
    have hfirst : "a-b" = rename "a-b" := (List.cons.inj h.ids).1
    obtain ⟨m, hm, hrenames⟩ := h.node _ List.mem_cons_self
    have htwo : ∀ m ∈ bothAtOne.nodes, m.id = "a-b" → (plugs bothAtOne m).length = 2 := by decide
    have hlength := congrArg List.length hrenames.plugs
    rw [List.length_map, List.length_map, htwo m hm (hrenames.id.trans hfirst.symm)] at hlength
    exact absurd hlength (by decide)

end Program

end BlockProgram
