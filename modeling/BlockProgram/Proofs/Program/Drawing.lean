import BlockProgram.Program.Flowchart
import BlockProgram.Proofs.Program.Projection
import BlockProgram.Proofs.Value.OneLine

/-!
# What a flowchart draws

Under its heading a flowchart has a line for each thing that it draws (`Flowchart.Mark`): the nodes,
the arrows to what follows them, to the heads of their branches and from what is plugged in at their
sockets, and the style of the entry (`Flowchart.lines_eq`). There are as many as the program has nodes
and links (`Flowchart.length_marks`).

What a line shows besides names is its label. Nothing else has quotes or line breaks: two quotes stand
around a label, and the rest of the line has none (`Flowchart.Mark.occurs_quote_text`,
`Flowchart.Mark.occurs_newline_text`).
-/

namespace BlockProgram

open Text

namespace Flowchart

variable {p : Program} {n : Node} {c : Char}

/-! ## Names -/

/-- A name has letters, digits and underscores only, whatever the id has. -/
theorem isNameChar_nodeName {id : String} (h : c ∈ (nodeName id).toList) : isNameChar c = true := by
  rw [nodeName, String.toList_ofList] at h
  obtain ⟨d, -, rfl⟩ := List.mem_map.1 h
  split
  · assumption
  · decide

/-- A text of which names are made. -/
def IsName (s : String) : Prop := ∀ c ∈ s.toList, isNameChar c = true

instance (s : String) : Decidable (IsName s) :=
  decidable_of_iff (s.toList.all isNameChar = true) List.all_eq_true

theorem isName_nodeName (id : String) : IsName (nodeName id) := fun _ => isNameChar_nodeName

/-- So no other character occurs in a name. -/
theorem IsName.occurs_eq_zero {s : String} (h : IsName s) (hc : isNameChar c = false) :
    occurs c s = 0 := by
  refine Text.occurs_eq_zero.2 fun hmem => ?_
  rw [h c hmem] at hc
  cases hc

/-! ## Marks -/

/-- A thing that is drawn. Its nodes are given by their names. -/
inductive Mark where
  /-- a node with its label, a rhombus if it branches -/
  | node (name : String) (branching : Bool) (label : String)
  /-- the arrow from a node to its successor -/
  | next (source target : String)
  /-- the arrow from a node to the head of a branch -/
  | branch (source label target : String)
  /-- the arrow from a reporter to the node at which it is plugged in -/
  | input (source label target : String)
  /-- the style of a node -/
  | style (name : String)
  deriving DecidableEq

namespace Mark

/-- The line of a mark. -/
def text : Mark → String
  | .node name branching label =>
    let (opening, closing) := if branching then ("\x7b", "\x7d") else ("[", "]")
    "    " ++ name ++ opening ++ "\"" ++ label ++ "\"" ++ closing
  | .next source target => "    " ++ source ++ " --> " ++ target
  | .branch source label target => "    " ++ source ++ " -->|\"" ++ label ++ "\"| " ++ target
  | .input source label target => "    " ++ source ++ " -.->|\"" ++ label ++ "\"| " ++ target
  | .style name => "    style " ++ name ++ " fill:#28a745,color:#fff"

/-- The label of a mark, if it has one. -/
def label? : Mark → Option String
  | .node _ _ label => some label
  | .branch _ label _ => some label
  | .input _ label _ => some label
  | .next _ _ => none
  | .style _ => none

/-- The names in a mark are names. -/
def Proper : Mark → Prop
  | .node name _ _ => IsName name
  | .next source target => IsName source ∧ IsName target
  | .branch source _ target => IsName source ∧ IsName target
  | .input source _ target => IsName source ∧ IsName target
  | .style name => IsName name

/-- A mark of the same kind with nothing written in it. -/
def frame : Mark → Mark
  | .node _ branching _ => .node "" branching ""
  | .next _ _ => .next "" ""
  | .branch _ _ _ => .branch "" "" ""
  | .input _ _ _ => .input "" "" ""
  | .style _ => .style ""

/-- Names add nothing to how often a character that they do not have occurs in a line. -/
theorem occurs_text {m : Mark} (hm : m.Proper) (hc : isNameChar c = false) :
    occurs c m.text = occurs c m.frame.text + m.label?.elim 0 (occurs c) := by
  have hname {s : String} (hs : IsName s) : occurs c s = 0 := hs.occurs_eq_zero hc
  have hempty : occurs c "" = 0 := rfl
  cases m with
  | node name branching label =>
    simp only [text, frame, label?, occurs_append, hname hm, hempty, Option.elim_some]
    omega
  | next source target =>
    simp only [text, frame, label?, occurs_append, hname hm.1, hname hm.2, hempty, Option.elim_none]
  | branch source label target =>
    simp only [text, frame, label?, occurs_append, hname hm.1, hname hm.2, hempty, Option.elim_some]
    omega
  | input source label target =>
    simp only [text, frame, label?, occurs_append, hname hm.1, hname hm.2, hempty, Option.elim_some]
    omega
  | style name =>
    simp only [text, frame, label?, occurs_append, hname hm, hempty, Option.elim_none, Nat.add_zero]

/-- A mark has two quotes of its own if it has a label. -/
theorem occurs_quote_frame (m : Mark) :
    occurs '"' m.frame.text = m.label?.elim 0 fun _ => 2 := by
  cases m with
  | node name branching label => cases branching <;> simp only [frame, text, occurs_append] <;> rfl
  | _ =>
    simp only [frame, text, occurs_append]
    rfl

/-- No mark has a line break of its own. -/
theorem occurs_newline_frame (m : Mark) : occurs '\n' m.frame.text = 0 := by
  cases m with
  | node name branching label => cases branching <;> simp only [frame, text, occurs_append] <;> rfl
  | _ =>
    simp only [frame, text, occurs_append]
    rfl

/-- **The quotes in a line** are the two around its label and those in the label. -/
theorem occurs_quote_text {m : Mark} (hm : m.Proper) :
    occurs '"' m.text = m.label?.elim 0 fun label => 2 + occurs '"' label := by
  rw [occurs_text hm (by decide), occurs_quote_frame]
  cases m.label? <;> rfl

/-- **The line breaks in a line** are those in its label. -/
theorem occurs_newline_text {m : Mark} (hm : m.Proper) :
    occurs '\n' m.text = m.label?.elim 0 (occurs '\n') := by
  rw [occurs_text hm (by decide), occurs_newline_frame, Nat.zero_add]

end Mark

/-! ## The marks of a program -/

/-- The sockets of a node at which a node is plugged in, and this node. -/
def plugs (p : Program) (n : Node) : List (Value × String) :=
  n.inputs.filterMap fun (socket, value) =>
    match value with
    | .ref block => if (p.node? block).isSome then some (socket, block) else none
    | _ => none

/-- How a node is drawn. -/
def nodeMark (n : Node) : Mark :=
  .node (nodeName n.id) (!n.branches.isEmpty) (label n.type.plain n)

/-- The arrows that belong to a node. -/
def arrowMarks (p : Program) (n : Node) : List Mark :=
  (n.next.toList.map fun id => .next (nodeName n.id) (nodeName id)) ++
    (n.branches.map fun (key, head) =>
      .branch (nodeName n.id) (branchLabel key) (nodeName head)) ++
    (plugs p n).map fun (socket, block) =>
      .input (nodeName block) socket.plain (nodeName n.id)

/-- The style of the entry. -/
def styleMarks (p : Program) : List Mark := p.entry.toList.map fun id => .style (nodeName id)

/-- The nodes of a program and the arrows between them. -/
def drawn (p : Program) : List Mark := p.nodes.map nodeMark ++ p.nodes.flatMap (arrowMarks p)

/-- All that is drawn of a program. -/
def marks (p : Program) : List Mark := drawn p ++ styleMarks p

/-- What is drawn is a node, an arrow of a node, or the style of the entry. -/
theorem mem_marks {m : Mark} : m ∈ marks p ↔ (∃ n ∈ p.nodes, m = nodeMark n) ∨
    (∃ n ∈ p.nodes, m ∈ arrowMarks p n) ∨ ∃ id, p.entry = some id ∧ m = .style (nodeName id) := by
  simp only [marks, drawn, styleMarks, List.mem_append, List.mem_map, List.mem_flatMap,
    Option.mem_toList, or_assoc, eq_comm (a := m)]

/-- The arrows of a node are those to its successor, to the heads of its branches, and from its
reporters. -/
theorem mem_arrowMarks {m : Mark} : m ∈ arrowMarks p n ↔
    (∃ id, n.next = some id ∧ m = .next (nodeName n.id) (nodeName id)) ∨
    (∃ b ∈ n.branches, m = .branch (nodeName n.id) (branchLabel b.1) (nodeName b.2)) ∨
    ∃ s ∈ plugs p n, m = .input (nodeName s.2) s.1.plain (nodeName n.id) := by
  simp only [arrowMarks, List.mem_append, List.mem_map, Option.mem_toList, or_assoc,
    eq_comm (a := m)]

theorem proper_nodeMark (n : Node) : (nodeMark n).Proper := isName_nodeName n.id

theorem proper_next (source target : String) :
    (Mark.next (nodeName source) (nodeName target)).Proper :=
  ⟨isName_nodeName source, isName_nodeName target⟩

theorem proper_branch (source label target : String) :
    (Mark.branch (nodeName source) label (nodeName target)).Proper :=
  ⟨isName_nodeName source, isName_nodeName target⟩

theorem proper_input (source label target : String) :
    (Mark.input (nodeName source) label (nodeName target)).Proper :=
  ⟨isName_nodeName source, isName_nodeName target⟩

theorem proper_style (id : String) : (Mark.style (nodeName id)).Proper := isName_nodeName id

/-- All marks of a program have names where these belong. -/
theorem proper_of_mem_marks {m : Mark} (h : m ∈ marks p) : m.Proper := by
  rcases mem_marks.1 h with ⟨n, -, rfl⟩ | ⟨n, -, harrow⟩ | ⟨id, -, rfl⟩
  · exact proper_nodeMark n
  · rcases mem_arrowMarks.1 harrow with ⟨id, -, rfl⟩ | ⟨b, -, rfl⟩ | ⟨s, -, rfl⟩
    · exact proper_next n.id id
    · exact proper_branch n.id (branchLabel b.1) b.2
    · exact proper_input s.2 s.1.plain n.id
  · exact proper_style id

/-! ## The lines -/

/-- The line of a node is that of its mark, if its type is a text. -/
theorem nodeLine_eq (h : n.Typed) : nodeLine n = .ok (nodeMark n).text := by
  obtain ⟨type, htype⟩ := h
  rw [nodeLine, htype, nodeMark, htype]
  cases n.branches <;> rfl

/-- The lines of its arrows are those of their marks. -/
theorem arrows_eq (p : Program) (n : Node) : nextArrows n ++ branchArrows n ++ inputArrows p n =
    (arrowMarks p n).map Mark.text := by
  have hnext : nextArrows n =
      (n.next.toList.map fun id => Mark.next (nodeName n.id) (nodeName id)).map Mark.text := by
    rw [nextArrows]
    cases n.next <;> rfl
  have hbranch : branchArrows n = (n.branches.map fun (key, head) =>
      Mark.branch (nodeName n.id) (branchLabel key) (nodeName head)).map Mark.text := by
    rw [branchArrows, List.map_map]
    rfl
  have hinput : inputArrows p n = ((plugs p n).map fun (socket, block) =>
      Mark.input (nodeName block) socket.plain (nodeName n.id)).map Mark.text := by
    rw [inputArrows, plugs, List.map_map, List.map_filterMap]
    refine List.filterMap_congr fun entry _ => ?_
    obtain ⟨socket, value⟩ := entry
    cases value with
    | ref block =>
      simp only
      split <;> rfl
    | _ => rfl
  rw [arrowMarks, List.map_append, List.map_append, hnext, hbranch, hinput]

/-- The first line of a flowchart. -/
def heading : String := "flowchart TD"

/-- The lines of the nodes and arrows are those of their marks. -/
theorem drawnLines_eq (h : ∀ n ∈ p.nodes, n.Typed) :
    drawnLines p = .ok ((drawn p).map Mark.text) := by
  have hnodes : p.nodes.mapM nodeLine = .ok (p.nodes.map fun n => (nodeMark n).text) := by
    generalize p.nodes = nodes at h
    induction nodes with
    | nil => rfl
    | cons n rest ih =>
      rw [List.mapM_cons, nodeLine_eq (h n List.mem_cons_self),
        ih fun m hm => h m (List.mem_cons_of_mem _ hm)]
      rfl
  have harrows : (p.nodes.flatMap fun n => nextArrows n ++ branchArrows n ++ inputArrows p n) =
      (p.nodes.flatMap (arrowMarks p)).map Mark.text := by
    rw [List.map_flatMap]
    exact List.flatMap_congr fun n _ => arrows_eq p n
  rw [drawnLines, hnodes, harrows, drawn, List.map_append, List.map_map]
  rfl

/-- **The lines of a flowchart** are its heading and those of what it draws. -/
theorem lines_eq (h : ∀ n ∈ p.nodes, n.Typed) :
    lines p = .ok (heading :: (marks p).map Mark.text) := by
  have hstyle : entryStyle p = (styleMarks p).map Mark.text := by
    rw [entryStyle, styleMarks]
    cases p.entry <;> rfl
  rw [lines, drawnLines_eq h, hstyle, marks, List.map_append]
  rfl

theorem length_arrowMarks (p : Program) (n : Node) : (arrowMarks p n).length =
    n.next.toList.length + n.branches.length + (plugs p n).length := by
  rw [arrowMarks, List.length_append, List.length_append, List.length_map, List.length_map,
    List.length_map]

/-- **There is a mark for every node and every link**, and one for the entry. -/
theorem length_marks (p : Program) : (marks p).length = p.nodes.length +
    p.nodes.countP (·.next.isSome) + (p.nodes.map (·.branches.length)).sum +
    (p.nodes.map fun n => (plugs p n).length).sum + p.entry.toList.length := by
  have harrows (nodes : List Node) : (nodes.flatMap (arrowMarks p)).length =
      nodes.countP (·.next.isSome) + (nodes.map (·.branches.length)).sum +
        (nodes.map fun n => (plugs p n).length).sum := by
    induction nodes with
    | nil => rfl
    | cons n rest ih =>
      have hnext : n.next.toList.length = if n.next.isSome then 1 else 0 := by
        cases n.next <;> rfl
      rw [List.flatMap_cons, List.length_append, length_arrowMarks, ih, hnext, List.countP_cons,
        List.map_cons, List.map_cons, List.sum_cons, List.sum_cons]
      omega
  rw [marks, drawn, styleMarks, List.length_append, List.length_append, List.length_map,
    List.length_map, harrows]
  omega

end Flowchart

end BlockProgram
