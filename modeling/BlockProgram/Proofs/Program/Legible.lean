import BlockProgram.Proofs.Program.Drawing

/-!
# Flowcharts can be read

The lines of a flowchart can be read back, whatever the labels have in them (`Flowchart.read_text`). A
name ends at a character that names do not have. So after the name that a line begins with comes what
tells the kind of mark, and a label ends before the name at the end of the line. Hence flowcharts with
the same lines draw the same marks (`Flowchart.marks_eq_of_lines_eq`).

An arrow belongs to the node that has the link. The arrows of a node can be picked out by its name if
no other node goes by it (`Flowchart.filter_owner_drawn`).
-/

namespace BlockProgram

open Text

namespace Flowchart

variable {p q : Program} {n : Node} {s : String} {cs rest : List Char} {c : Char}

/-! ## Reading lines -/

/-- The name at the beginning. -/
def leadingName (cs : List Char) : String := String.ofList (cs.takeWhile isNameChar)

/-- The name at the end. -/
def trailingName (cs : List Char) : String :=
  String.ofList (cs.reverse.takeWhile isNameChar).reverse

/-- All but some characters at the end. -/
def withoutEnd (count : Nat) (cs : List Char) : String :=
  String.ofList (cs.take (cs.length - count))

/-- The label in front of a quote, a bar, a space and the name at the end. -/
def leadingLabel (cs : List Char) : String := withoutEnd ((trailingName cs).length + 3) cs

/-- The arrow at a node, by what is written after the name and a space. -/
def readArrow (name : String) : List Char → Option Mark
  | '-' :: '-' :: '>' :: ' ' :: rest => some (.next name (String.ofList rest))
  | '-' :: '-' :: '>' :: '|' :: '"' :: rest =>
    some (.branch name (leadingLabel rest) (trailingName rest))
  | '-' :: '.' :: '-' :: '>' :: '|' :: '"' :: rest =>
    some (.input name (leadingLabel rest) (trailingName rest))
  | _ => none

/-- The mark at a node, by what is written after the name. A style has a name after a space. -/
def readMark (name : String) : List Char → Option Mark
  | '[' :: '"' :: rest => some (.node name false (withoutEnd 2 rest))
  | '\x7b' :: '"' :: rest => some (.node name true (withoutEnd 2 rest))
  | ' ' :: rest =>
    if rest.head? = some '-' then readArrow name rest else some (.style (leadingName rest))
  | _ => none

/-- The mark of a line, which begins with four spaces. -/
def read (line : String) : Option Mark :=
  let cs := line.toList.drop 4
  readMark (leadingName cs) (cs.dropWhile isNameChar)

theorem leadingName_append (hs : IsName s) (hc : isNameChar c = false) :
    leadingName (s.toList ++ c :: rest) = s := by
  rw [leadingName, List.takeWhile_append_of_pos hs, List.takeWhile_cons_of_neg (by simp [hc]),
    List.append_nil, String.ofList_toList]

theorem dropWhile_append (hs : IsName s) (hc : isNameChar c = false) :
    (s.toList ++ c :: rest).dropWhile isNameChar = c :: rest := by
  rw [List.dropWhile_append_of_pos hs, List.dropWhile_cons_of_neg (by simp [hc])]

theorem trailingName_append (hs : IsName s) (hc : isNameChar c = false) :
    trailingName (cs ++ c :: s.toList) = s := by
  have hreverse : ∀ d ∈ s.toList.reverse, isNameChar d = true := fun d hd =>
    hs d (List.mem_reverse.1 hd)
  rw [trailingName, List.reverse_append, List.reverse_cons, List.append_assoc,
    List.takeWhile_append_of_pos hreverse, List.singleton_append,
    List.takeWhile_cons_of_neg (by simp [hc]), List.append_nil, List.reverse_reverse,
    String.ofList_toList]

theorem withoutEnd_append (s : String) (cs : List Char) :
    withoutEnd cs.length (s.toList ++ cs) = s := by
  rw [withoutEnd, List.length_append, Nat.add_sub_cancel, List.take_left, String.ofList_toList]

/-- The name and the label of an arrow, by what is written after the quote in front of the label. -/
theorem read_labelled (label : String) (hs : IsName s) :
    trailingName (label.toList ++ '"' :: '|' :: ' ' :: s.toList) = s ∧
      leadingLabel (label.toList ++ '"' :: '|' :: ' ' :: s.toList) = label := by
  have hname : trailingName (label.toList ++ '"' :: '|' :: ' ' :: s.toList) = s := by
    have hsplit : label.toList ++ '"' :: '|' :: ' ' :: s.toList =
        (label.toList ++ ['"', '|']) ++ ' ' :: s.toList := by
      rw [List.append_assoc]
      rfl
    rw [hsplit, trailingName_append hs (by decide)]
  refine ⟨hname, ?_⟩
  rw [leadingLabel, hname, ← String.length_toList]
  exact withoutEnd_append label ('"' :: '|' :: ' ' :: s.toList)

/-- Reading comes to the mark at the name that a line begins with. -/
theorem read_eq {line : String} (c : Char) (rest : List Char) (hs : IsName s)
    (hc : isNameChar c = false)
    (hline : line.toList = ' ' :: ' ' :: ' ' :: ' ' :: (s.toList ++ c :: rest)) :
    read line = readMark s (c :: rest) := by
  have hdrop : line.toList.drop 4 = s.toList ++ c :: rest := by
    rw [hline]
    rfl
  simp only [read, hdrop, leadingName_append hs hc, dropWhile_append hs hc]

theorem readMark_arrow (name : String) (rest : List Char) :
    readMark name (' ' :: '-' :: rest) = readArrow name ('-' :: rest) := by
  have hhead : ('-' :: rest).head? = some '-' := rfl
  rw [readMark, if_pos hhead]

/-- A style is no arrow. -/
theorem readMark_style (name : String) (hs : IsName s) (rest : List Char) :
    readMark name (' ' :: (s.toList ++ ' ' :: rest)) = some (.style s) := by
  have hhead : (s.toList ++ ' ' :: rest).head? ≠ some '-' := by
    rcases hcs : s.toList with _ | ⟨c, tail⟩
    · simp
    · intro heq
      have hname := hs c (by rw [hcs]; exact List.mem_cons_self)
      rw [Option.some.inj heq] at hname
      revert hname
      decide
  rw [readMark, if_neg hhead, leadingName_append hs (by decide)]

/-- **A line can be read back.** -/
theorem read_text {m : Mark} (hm : m.Proper) : read m.text = some m := by
  cases m with
  | node name branching label =>
    cases branching with
    | false =>
      rw [read_eq '[' ('"' :: (label.toList ++ ['"', ']'])) hm (by decide)
        (by simp [Mark.text]), readMark]
      exact congrArg (fun s => some (Mark.node name false s)) (withoutEnd_append label ['"', ']'])
    | true =>
      rw [read_eq '\x7b' ('"' :: (label.toList ++ ['"', '\x7d'])) hm (by decide)
        (by simp [Mark.text]), readMark]
      exact congrArg (fun s => some (Mark.node name true s))
        (withoutEnd_append label ['"', '\x7d'])
  | next source target =>
    rw [read_eq ' ' ('-' :: '-' :: '>' :: ' ' :: target.toList) hm.1 (by decide)
      (by simp [Mark.text]), readMark_arrow, readArrow, String.ofList_toList]
  | branch source label target =>
    obtain ⟨htarget, hlabel⟩ := read_labelled label hm.2
    rw [read_eq ' ' ('-' :: '-' :: '>' :: '|' :: '"' ::
      (label.toList ++ '"' :: '|' :: ' ' :: target.toList)) hm.1 (by decide)
      (by simp [Mark.text]), readMark_arrow, readArrow, htarget, hlabel]
  | input source label target =>
    obtain ⟨htarget, hlabel⟩ := read_labelled label hm.2
    rw [read_eq ' ' ('-' :: '.' :: '-' :: '>' :: '|' :: '"' ::
      (label.toList ++ '"' :: '|' :: ' ' :: target.toList)) hm.1 (by decide)
      (by simp [Mark.text]), readMark_arrow, readArrow, htarget, hlabel]
  | style name =>
    have hstyle : IsName "style" := by decide
    rw [read_eq ' ' (name.toList ++ ' ' :: "fill:#28a745,color:#fff".toList) hstyle
      (by decide) (by simp [Mark.text]), readMark_style _ hm]

/-- Marks with names where these belong can be told by their lines. -/
theorem eq_of_map_text_eq {marks marks' : List Mark} (h : ∀ m ∈ marks, m.Proper)
    (h' : ∀ m ∈ marks', m.Proper) (htexts : marks'.map Mark.text = marks.map Mark.text) :
    marks' = marks := by
  have hread {marks : List Mark} (h : ∀ m ∈ marks, m.Proper) :
      (marks.map Mark.text).filterMap read = marks := by
    rw [List.filterMap_map]
    exact (List.filterMap_congr fun m hm => read_text (h m hm)).trans List.filterMap_some
  rw [← hread h', htexts, hread h]

theorem proper_of_mem_drawn {m : Mark} (h : m ∈ drawn p) : m.Proper :=
  proper_of_mem_marks (List.mem_append_left _ h)

/-- **Flowcharts with the same lines of nodes and arrows draw the same nodes and arrows.** -/
theorem drawn_eq_of_drawnLines_eq (hp : ∀ n ∈ p.nodes, n.Typed) (hq : ∀ n ∈ q.nodes, n.Typed)
    (h : drawnLines q = drawnLines p) : drawn q = drawn p := by
  rw [drawnLines_eq hp, drawnLines_eq hq] at h
  exact eq_of_map_text_eq (fun _ => proper_of_mem_drawn) (fun _ => proper_of_mem_drawn)
    (Except.ok.inj h)

/-- **Flowcharts with the same lines draw the same marks.** -/
theorem marks_eq_of_lines_eq (hp : ∀ n ∈ p.nodes, n.Typed) (hq : ∀ n ∈ q.nodes, n.Typed)
    (h : lines q = lines p) : marks q = marks p := by
  rw [lines_eq hp, lines_eq hq] at h
  exact eq_of_map_text_eq (fun _ => proper_of_mem_marks) (fun _ => proper_of_mem_marks)
    (List.cons.inj (Except.ok.inj h)).2

/-! ## What belongs to a node -/

namespace Mark

/-- The name of the node that is declared or has the link of an arrow. -/
def owner? : Mark → Option String
  | .node name _ _ => some name
  | .next source _ => some source
  | .branch source _ _ => some source
  | .input _ _ target => some target
  | .style _ => none

/-- The name of the node that is declared. -/
def declared? : Mark → Option String
  | .node name _ _ => some name
  | _ => none

/-- The name of the node that gets a style. -/
def styled? : Mark → Option String
  | .style name => some name
  | _ => none

/-- The name of the successor to which an arrow leads. -/
def successor? : Mark → Option String
  | .next _ target => some target
  | _ => none

/-- The branch and the name of its head to which an arrow leads. -/
def head? : Mark → Option (String × String)
  | .branch _ label target => some (label, target)
  | _ => none

/-- The socket to which an arrow leads and the name of what is plugged in there. -/
def plug? : Mark → Option (String × String)
  | .input source label _ => some (label, source)
  | _ => none

end Mark

/-- An arrow belongs to its node and is neither a declaration nor a style. -/
theorem parts_of_mem_arrowMarks {m : Mark} (h : m ∈ arrowMarks p n) :
    m.owner? = some (nodeName n.id) ∧ m.declared? = none ∧ m.styled? = none := by
  rcases mem_arrowMarks.1 h with ⟨id, -, rfl⟩ | ⟨b, -, rfl⟩ | ⟨s, -, rfl⟩ <;> exact ⟨rfl, rfl, rfl⟩

/-- No node and no arrow is a style. -/
theorem styled?_of_mem_drawn {m : Mark} (h : m ∈ drawn p) : m.styled? = none := by
  rcases List.mem_append.1 h with hm | hm
  · obtain ⟨n, -, rfl⟩ := List.mem_map.1 hm
    rfl
  · obtain ⟨n, -, hm⟩ := List.mem_flatMap.1 hm
    exact (parts_of_mem_arrowMarks hm).2.2

/-- The names that are declared. -/
theorem filterMap_declared?_drawn (p : Program) :
    (drawn p).filterMap Mark.declared? = p.nodes.map fun n => nodeName n.id := by
  have harrows : (p.nodes.flatMap (arrowMarks p)).filterMap Mark.declared? = [] := by
    rw [List.filterMap_eq_nil_iff]
    intro m hm
    obtain ⟨n, -, hm⟩ := List.mem_flatMap.1 hm
    exact (parts_of_mem_arrowMarks hm).2.1
  rw [drawn, List.filterMap_append, harrows, List.append_nil, List.filterMap_map,
    ← List.filterMap_eq_map]
  rfl

/-- The name that gets a style is that of the entry. -/
theorem filterMap_styled?_marks (p : Program) :
    (marks p).filterMap Mark.styled? = (p.entry.map nodeName).toList := by
  have hdrawn : (drawn p).filterMap Mark.styled? = [] :=
    List.filterMap_eq_nil_iff.2 fun _ => styled?_of_mem_drawn
  rw [marks, List.filterMap_append, hdrawn, List.nil_append, styleMarks]
  cases p.entry <;> rfl

/-- Without its style a flowchart has its nodes and arrows left. -/
theorem filter_styled?_marks (p : Program) :
    (marks p).filter (fun m => m.styled?.isNone) = drawn p := by
  have hstyle : (styleMarks p).filter (fun m => m.styled?.isNone) = [] := by
    rw [styleMarks]
    cases p.entry <;> rfl
  rw [marks, List.filter_append, hstyle, List.append_nil, List.filter_eq_self]
  intro m hm
  rw [styled?_of_mem_drawn hm]
  rfl

/-- Of the marks of several nodes, those that belong to the name of one are its own, if no other
goes by it. -/
theorem filter_owner_flatMap {draw : Node → List Mark} {nodes : List Node}
    (hdraw : ∀ n, ∀ m ∈ draw n, m.owner? = some (nodeName n.id))
    (hnames : (nodes.map fun n => nodeName n.id).Nodup) (hn : n ∈ nodes) :
    (nodes.flatMap draw).filter (fun m => m.owner? == some (nodeName n.id)) = draw n := by
  obtain ⟨before, after, rfl⟩ := List.append_of_mem hn
  rw [List.map_append, List.map_cons, List.nodup_middle, List.nodup_cons, ← List.map_append] at hnames
  have hown : (draw n).filter (fun m => m.owner? == some (nodeName n.id)) = draw n := by
    rw [List.filter_eq_self]
    exact fun m hm => beq_iff_eq.2 (hdraw n m hm)
  have hothers {nodes : List Node} (h : ∀ m ∈ nodes, m ∈ before ++ after) :
      (nodes.flatMap draw).filter (fun m => m.owner? == some (nodeName n.id)) = [] := by
    rw [List.filter_eq_nil_iff]
    intro m hm howner
    obtain ⟨k, hk, hm⟩ := List.mem_flatMap.1 hm
    have hname := (hdraw k m hm).symm.trans (beq_iff_eq.1 howner)
    exact hnames.1 (List.mem_map.2 ⟨k, h k hk, Option.some.inj hname⟩)
  rw [List.flatMap_append, List.flatMap_cons, List.filter_append, List.filter_append, hown,
    hothers fun m hm => List.mem_append_left after hm,
    hothers fun m hm => List.mem_append_right before hm, List.nil_append, List.append_nil]

/-- **The marks of a node** are those that belong to its name, if no other node goes by it. -/
theorem filter_owner_drawn (hnames : (p.nodes.map fun n => nodeName n.id).Nodup)
    (hn : n ∈ p.nodes) : (drawn p).filter (fun m => m.owner? == some (nodeName n.id)) =
      nodeMark n :: arrowMarks p n := by
  have hnode : (p.nodes.map nodeMark).filter (fun m => m.owner? == some (nodeName n.id)) =
      [nodeMark n] := by
    rw [List.map_eq_flatMap]
    exact filter_owner_flatMap (fun n m hm => by rw [List.mem_singleton.1 hm]; rfl) hnames hn
  rw [drawn, List.filter_append, hnode,
    filter_owner_flatMap (fun n m hm => (parts_of_mem_arrowMarks hm).1) hnames hn]
  rfl

theorem filterMap_successor?_arrowMarks (p : Program) (n : Node) :
    (arrowMarks p n).filterMap Mark.successor? = (n.next.map nodeName).toList := by
  cases hnext : n.next <;>
    simp [arrowMarks, hnext, List.filterMap_map, Function.comp_def, Mark.successor?]

theorem filterMap_head?_arrowMarks (p : Program) (n : Node) : (arrowMarks p n).filterMap Mark.head? =
    n.branches.map fun b => (branchLabel b.1, nodeName b.2) := by
  simp [arrowMarks, List.filterMap_map, Function.comp_def, Mark.head?]

theorem filterMap_plug?_arrowMarks (p : Program) (n : Node) : (arrowMarks p n).filterMap Mark.plug? =
    (plugs p n).map fun s => (s.1.plain, nodeName s.2) := by
  simp [arrowMarks, List.filterMap_map, Function.comp_def, Mark.plug?]

end Flowchart

end BlockProgram
