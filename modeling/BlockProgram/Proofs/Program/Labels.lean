import BlockProgram.Proofs.Program.Drawing

/-!
# User text in a flowchart

The labels of a flowchart show text that users have typed: the types of nodes with their literals, the
keys of branches and the sockets of inputs. Only the label of a node is escaped, and only its quotes
and angle brackets are. So

* a node has no quotes in its label (`Flowchart.occurs_quote_label`), but it has the line breaks of
  its type and of the literals that are shown (`Flowchart.occurs_newline_label`); values are written
  without line breaks, so those come from the names of sockets (`Flowchart.newline_not_mem_shown`);
* an arrow has the quotes and the line breaks of its key or socket.

The lines of the flowchart are as many as there are things to draw, and every label stands between the
only two quotes of its line, exactly if no text has these characters where they are not escaped
(`Program.flowchart_undisturbed_iff`).
-/

namespace BlockProgram

open Text

namespace Flowchart

variable {p : Program} {n : Node} {c : Char}

/-! ## Labels -/

/-- Escaping leaves no quotes. -/
theorem occurs_quote_escape (s : String) : occurs '"' (escape s) = 0 := by
  rw [escape, occurs_ofList, List.count_eq_zero]
  intro h
  obtain ⟨c, -, hc⟩ := List.mem_flatMap.1 h
  simp only [escapeChar, beq_iff_eq] at hc
  split at hc
  · revert hc
    decide
  · rename_i hquote
    split at hc
    · revert hc
      decide
    · split at hc
      · revert hc
        decide
      · exact hquote (List.mem_singleton.1 hc).symm

theorem count_newline_escapeChar (c : Char) : (escapeChar c).count '\n' = [c].count '\n' := by
  simp only [escapeChar, beq_iff_eq]
  split
  · rename_i hc
    rw [hc]
    rfl
  · split
    · rename_i hc
      rw [hc]
      rfl
    · split
      · rename_i hc
        rw [hc]
        rfl
      · rfl

/-- Escaping leaves line breaks as they are. -/
theorem occurs_newline_escape (s : String) : occurs '\n' (escape s) = occurs '\n' s := by
  rw [escape, occurs_ofList, occurs]
  induction s.toList with
  | nil => rfl
  | cons c rest ih =>
    have hsplit : (c :: rest).count '\n' = [c].count '\n' + rest.count '\n' := by
      rw [← List.count_append, List.singleton_append]
    rw [List.flatMap_cons, List.count_append, count_newline_escapeChar, ih, hsplit]

/-- **The label of a node has no quotes.** -/
theorem occurs_quote_label (type : String) (n : Node) : occurs '"' (label type n) = 0 := by
  simp only [label]
  split
  · simp only [occurs_append, occurs_quote_escape]
    rfl
  · simp only [occurs_append, occurs_quote_escape]
    rfl

/-- **The label of a node has the line breaks of its type and of the literals shown.** -/
theorem occurs_newline_label (type : String) (n : Node) : occurs '\n' (label type n) =
    occurs '\n' type + occurs '\n' (shortened (literals n)) := by
  have hopen : occurs '\n' "<b>" = 0 := rfl
  have hclose : occurs '\n' "</b>" = 0 := rfl
  have hbetween : occurs '\n' "<br/>" = 0 := rfl
  simp only [label]
  split
  · rename_i hempty
    rw [String.isEmpty_iff.1 hempty]
    simp only [occurs_append, occurs_newline_escape, hopen, hclose, Nat.zero_add]
    rfl
  · simp only [occurs_append, occurs_newline_escape, hopen, hclose, hbetween, Nat.zero_add,
      Nat.add_zero]

/-- The label of a branch has the same quotes and line breaks as its key. -/
theorem occurs_branchLabel (hc : isNameChar c = false) (key : String) :
    occurs c (branchLabel key) = occurs c key := by
  have hname {s : String} (hs : IsName s) : occurs c s = 0 := hs.occurs_eq_zero hc
  have htrue : IsName "true" ∧ IsName "T" := by decide
  have hfalse : IsName "false" ∧ IsName "F" := by decide
  rw [branchLabel]
  split
  · rename_i hkey
    rw [beq_iff_eq.1 hkey, hname htrue.1, hname htrue.2]
  · split
    · rename_i hkey
      rw [beq_iff_eq.1 hkey, hname hfalse.1, hname hfalse.2]
    · rfl

/-! ## Literals -/

theorem newline_not_mem_literals (h : ∀ entry ∈ n.inputs, (∀ block, entry.2 ≠ .ref block) →
    '\n' ∉ entry.1.plain.toList) : occurs '\n' (literals n) = 0 := by
  refine occurs_joined_eq_zero rfl fun s hs => ?_
  obtain ⟨⟨socket, value⟩, hentry, hs⟩ := List.mem_filterMap.1 hs
  cases value with
  | ref block => cases hs
  | _ =>
    have hsocket := occurs_eq_zero.2 (h _ hentry nofun)
    cases hs
    rw [occurs_append, occurs_append, hsocket, Value.occurs_written]
    rfl

/-- **Literals are shown on one line** if the names of their sockets are. -/
theorem newline_not_mem_shown (h : ∀ entry ∈ n.inputs, (∀ block, entry.2 ≠ .ref block) →
    '\n' ∉ entry.1.plain.toList) : '\n' ∉ (shortened (literals n)).toList := by
  have hnone := occurs_eq_zero.1 (newline_not_mem_literals h)
  rw [shortened]
  split
  · rw [String.toList_append, String.toList_ofList, List.mem_append, not_or]
    exact ⟨fun hmem => hnone (List.mem_of_mem_take hmem), by decide⟩
  · exact hnone

/-! ## Lines -/

/-- The lines that a flowchart is to have: one for the heading, each node, each link and the style of
the entry. -/
def lineTotal (p : Program) : Nat := 1 + p.nodes.length + p.nodes.countP (·.next.isSome) +
  (p.nodes.map (·.branches.length)).sum + (p.nodes.map fun n => (plugs p n).length).sum +
  p.entry.toList.length

/-- The line breaks that come into the lines of a node with the text of its user. -/
def breaks (p : Program) (n : Node) : Nat :=
  occurs '\n' n.type.plain + occurs '\n' (shortened (literals n)) +
    (n.branches.map fun b => occurs '\n' b.1).sum +
    ((plugs p n).map fun s => occurs '\n' s.1.plain).sum

theorem occurs_newline_nodeMark (n : Node) : occurs '\n' (nodeMark n).text =
    occurs '\n' n.type.plain + occurs '\n' (shortened (literals n)) := by
  rw [Mark.occurs_newline_text (proper_nodeMark n), nodeMark, Mark.label?, Option.elim_some,
    occurs_newline_label]

theorem occurs_newline_next (source target : String) :
    occurs '\n' (Mark.next (nodeName source) (nodeName target)).text = 0 := by
  rw [Mark.occurs_newline_text (proper_next source target), Mark.label?, Option.elim_none]

theorem occurs_newline_branch (source key target : String) :
    occurs '\n' (Mark.branch (nodeName source) (branchLabel key) (nodeName target)).text =
      occurs '\n' key := by
  rw [Mark.occurs_newline_text (proper_branch source (branchLabel key) target), Mark.label?,
    Option.elim_some, occurs_branchLabel (by decide)]

theorem occurs_newline_input (source socket target : String) :
    occurs '\n' (Mark.input (nodeName source) socket (nodeName target)).text =
      occurs '\n' socket := by
  rw [Mark.occurs_newline_text (proper_input source socket target), Mark.label?, Option.elim_some]

theorem sum_newline_arrowMarks (p : Program) (n : Node) :
    ((arrowMarks p n).map fun m => occurs '\n' m.text).sum =
      (n.branches.map fun b => occurs '\n' b.1).sum +
        ((plugs p n).map fun s => occurs '\n' s.1.plain).sum := by
  have hnext : ((n.next.toList.map fun id => Mark.next (nodeName n.id) (nodeName id)).map
      fun m => occurs '\n' m.text).sum = 0 := by
    cases n.next with
    | none => rfl
    | some id => simp only [Option.toList_some, List.map_cons, List.map_nil, List.sum_singleton,
        occurs_newline_next]
  rw [arrowMarks, List.map_append, List.map_append, List.sum_append, List.sum_append, hnext,
    Nat.zero_add, List.map_map, List.map_map]
  simp only [Function.comp_def, occurs_newline_branch, occurs_newline_input]

/-- **The line breaks in the lines** are those of the text of users. -/
theorem sum_newline_marks (p : Program) :
    ((marks p).map fun m => occurs '\n' m.text).sum = (p.nodes.map (breaks p)).sum := by
  have hstyle : ((styleMarks p).map fun m => occurs '\n' m.text).sum = 0 := by
    rw [styleMarks]
    cases p.entry with
    | none => rfl
    | some id =>
      simp only [Option.toList_some, List.map_cons, List.map_nil, List.sum_singleton,
        Mark.occurs_newline_text (proper_style id), Mark.label?, Option.elim_none]
  rw [marks, List.map_append, List.sum_append, hstyle, Nat.add_zero, drawn, List.map_append,
    List.sum_append]
  induction p.nodes with
  | nil => rfl
  | cons n rest ih =>
    rw [List.flatMap_cons, List.map_append, List.sum_append, sum_newline_arrowMarks, List.map_cons,
      List.map_cons, List.sum_cons, List.map_cons, List.sum_cons, occurs_newline_nodeMark, breaks,
      ← ih]
    omega

/-- The text has as many lines as there are things to draw, and every label stands between the only
two quotes of its line. -/
structure Tidy (p : Program) (text : String) : Prop where
  lines : lineCount text = lineTotal p
  quotes : ∀ m ∈ marks p, m.label?.isSome → occurs '"' m.text = 2

/-- No text of a user has a line break or a quote where it is not escaped. -/
structure Undisturbed (p : Program) : Prop where
  type : ∀ n ∈ p.nodes, '\n' ∉ n.type.plain.toList
  /-- only the beginning of long literals is shown -/
  literals : ∀ n ∈ p.nodes, '\n' ∉ (shortened (literals n)).toList
  key : ∀ n ∈ p.nodes, ∀ b ∈ n.branches, '\n' ∉ b.1.toList ∧ '"' ∉ b.1.toList
  socket : ∀ n ∈ p.nodes, ∀ s ∈ plugs p n, '\n' ∉ s.1.plain.toList ∧ '"' ∉ s.1.plain.toList

theorem breaks_eq_zero_iff (p : Program) (n : Node) : breaks p n = 0 ↔
    '\n' ∉ n.type.plain.toList ∧ '\n' ∉ (shortened (literals n)).toList ∧
      (∀ b ∈ n.branches, '\n' ∉ b.1.toList) ∧ ∀ s ∈ plugs p n, '\n' ∉ s.1.plain.toList := by
  simp only [breaks, Nat.add_eq_zero_iff, List.sum_eq_zero_iff_forall_eq_nat, List.forall_mem_map,
    occurs_eq_zero, and_assoc]

theorem occurs_quote_mark_iff {m : Mark} {label : String} (hm : m.Proper)
    (hlabel : m.label? = some label) : occurs '"' m.text = 2 ↔ '"' ∉ label.toList := by
  rw [Mark.occurs_quote_text hm, hlabel, Option.elim_some, ← occurs_eq_zero]
  omega

/-- **The label of a node stands between the only two quotes of its line.** -/
theorem occurs_quote_nodeMark (n : Node) : occurs '"' (nodeMark n).text = 2 := by
  rw [occurs_quote_mark_iff (proper_nodeMark n) rfl, ← occurs_eq_zero]
  exact occurs_quote_label n.type.plain n

/-- The lines with labels have two quotes each if no key and no socket has one. -/
theorem two_quotes_iff (p : Program) :
    (∀ m ∈ marks p, m.label?.isSome → occurs '"' m.text = 2) ↔
      ∀ n ∈ p.nodes, (∀ b ∈ n.branches, '"' ∉ b.1.toList) ∧
        ∀ s ∈ plugs p n, '"' ∉ s.1.plain.toList := by
  have hbranch (n : Node) (b : String × String) :
      occurs '"' (Mark.branch (nodeName n.id) (branchLabel b.1) (nodeName b.2)).text = 2 ↔
        '"' ∉ b.1.toList := by
    rw [occurs_quote_mark_iff (proper_branch n.id (branchLabel b.1) b.2) rfl, ← occurs_eq_zero,
      occurs_branchLabel (by decide), occurs_eq_zero]
  have hinput (n : Node) (s : Value × String) :
      occurs '"' (Mark.input (nodeName s.2) s.1.plain (nodeName n.id)).text = 2 ↔
        '"' ∉ s.1.plain.toList :=
    occurs_quote_mark_iff (proper_input s.2 s.1.plain n.id) rfl
  refine ⟨fun h n hn => ⟨fun b hb => ?_, fun s hs => ?_⟩, fun h m hm hlabel => ?_⟩
  · have harrow := mem_arrowMarks (p := p).2 (.inr (.inl ⟨b, hb, rfl⟩))
    exact (hbranch n b).1 (h _ (mem_marks.2 (.inr (.inl ⟨n, hn, harrow⟩))) rfl)
  · have harrow := mem_arrowMarks.2 (.inr (.inr ⟨s, hs, rfl⟩))
    exact (hinput n s).1 (h _ (mem_marks.2 (.inr (.inl ⟨n, hn, harrow⟩))) rfl)
  · rcases mem_marks.1 hm with ⟨n, -, rfl⟩ | ⟨n, hn, harrow⟩ | ⟨id, -, rfl⟩
    · exact occurs_quote_nodeMark n
    · rcases mem_arrowMarks.1 harrow with ⟨id, -, rfl⟩ | ⟨b, hb, rfl⟩ | ⟨s, hs, rfl⟩
      · cases hlabel
      · exact (hbranch n b).2 ((h n hn).1 b hb)
      · exact (hinput n s).2 ((h n hn).2 s hs)
    · cases hlabel

theorem lineTotal_eq (p : Program) : lineTotal p = (marks p).length + 1 := by
  rw [length_marks, lineTotal]
  omega

/-- **The lines of a flowchart** are those that it is to have and one more for every line break in
the text of users. -/
theorem lineCount_joined_marks (p : Program) :
    lineCount (joined "\n" (heading :: (marks p).map Mark.text)) =
      lineTotal p + (p.nodes.map (breaks p)).sum := by
  have hheading : occurs '\n' heading = 0 := rfl
  have hbetween : occurs '\n' "\n" = 1 := rfl
  rw [lineCount_eq, occurs_joined, List.map_cons, List.sum_cons, List.map_map, List.length_cons,
    List.length_map, Nat.add_sub_cancel, hheading, hbetween, Function.comp_def, sum_newline_marks,
    lineTotal_eq]
  omega

theorem tidy_iff {text : String} (h : lineCount text = lineTotal p + (p.nodes.map (breaks p)).sum) :
    Tidy p text ↔ Undisturbed p := by
  have hlines : lineCount text = lineTotal p ↔ ∀ n ∈ p.nodes, breaks p n = 0 := by
    rw [h, Nat.add_eq_left, List.sum_eq_zero_iff_forall_eq_nat, List.forall_mem_map]
  simp only [breaks_eq_zero_iff] at hlines
  constructor
  · intro htidy
    have hbreaks := hlines.1 htidy.lines
    have hquotes := (two_quotes_iff p).1 htidy.quotes
    exact {
      type := fun n hn => (hbreaks n hn).1
      literals := fun n hn => (hbreaks n hn).2.1
      key := fun n hn b hb => ⟨(hbreaks n hn).2.2.1 b hb, (hquotes n hn).1 b hb⟩
      socket := fun n hn s hs => ⟨(hbreaks n hn).2.2.2 s hs, (hquotes n hn).2 s hs⟩ }
  · intro hundisturbed
    refine ⟨hlines.2 fun n hn => ⟨hundisturbed.type n hn, hundisturbed.literals n hn, fun b hb => ?_,
      fun s hs => ?_⟩, (two_quotes_iff p).2 fun n hn => ⟨fun b hb => ?_, fun s hs => ?_⟩⟩
    · exact (hundisturbed.key n hn b hb).1
    · exact (hundisturbed.socket n hn s hs).1
    · exact (hundisturbed.key n hn b hb).2
    · exact (hundisturbed.socket n hn s hs).2

/-- Where no text of a user has a line break, the text of a flowchart can be taken apart into its
lines. -/
theorem splitOn_joined_marks (h : ∀ n ∈ p.nodes, breaks p n = 0) :
    (joined "\n" (heading :: (marks p).map Mark.text)).toList.splitOn '\n' =
      (heading :: (marks p).map Mark.text).map String.toList := by
  refine splitOn_joined (List.cons_ne_nil _ _) fun s hs => ?_
  rcases List.mem_cons.1 hs with rfl | hs
  · rfl
  · obtain ⟨m, hm, rfl⟩ := List.mem_map.1 hs
    have hsum : ((marks p).map fun m => occurs '\n' m.text).sum = 0 := by
      rw [sum_newline_marks, List.sum_eq_zero_iff_forall_eq_nat, List.forall_mem_map]
      exact h
    rw [List.sum_eq_zero_iff_forall_eq_nat, List.forall_mem_map] at hsum
    exact hsum m hm

theorem lines_eq_of_flowchart_eq {q : Program} (hp : ∀ n ∈ p.nodes, n.Typed)
    (hq : ∀ n ∈ q.nodes, n.Typed) (hp' : ∀ n ∈ p.nodes, breaks p n = 0)
    (hq' : ∀ n ∈ q.nodes, breaks q n = 0) (h : q.flowchart = p.flowchart) : lines q = lines p := by
  rw [Program.flowchart, Program.flowchart, lines_eq hp, lines_eq hq] at h
  have hparts := congrArg (fun s => s.toList.splitOn '\n') (Except.ok.inj h)
  simp only [splitOn_joined_marks hp', splitOn_joined_marks hq'] at hparts
  rw [lines_eq hp, lines_eq hq,
    (List.map_inj_right fun _ _ => String.toList_injective).1 hparts]

end Flowchart

open Flowchart

namespace Program

variable {blocks : List Block}

/-- **What text of users does to a flowchart.** Every program of blocks that are in order has a
flowchart. Its lines are the heading, one for each node, each link and the style of the entry, and
one more for every line break in a type, in the literals that are shown, in a key or in a socket. A
line with a label has two quotes and those of its label, where that of a node has none. So the text
has one line for each thing to draw and exactly two quotes around every label exactly if no type, no
literals, no key and no socket has a line break and no key and no socket a quote. Literals have
none from their values, whatever these are. -/
theorem flowchart_undisturbed_iff (hblocks : ∀ b ∈ blocks, b.InOrder) (edges : List Edge) :
    ∃ p text, build blocks edges = .ok p ∧ p.flowchart = .ok text ∧
      text = joined "\n" (heading :: (marks p).map Mark.text) ∧
      lineCount text = lineTotal p + (p.nodes.map (breaks p)).sum ∧
      (∀ m ∈ marks p, ∀ label, m.label? = some label →
        occurs '"' m.text = 2 + occurs '"' label) ∧
      (∀ n ∈ p.nodes, occurs '"' (nodeMark n).text = 2) ∧
      (Tidy p text ↔ Undisturbed p) ∧
      ∀ n ∈ p.nodes, (∀ entry ∈ n.inputs, (∀ block, entry.2 ≠ .ref block) →
        '\n' ∉ entry.1.plain.toList) → '\n' ∉ (shortened (literals n)).toList := by
  obtain ⟨p, hp⟩ := exists_build hblocks edges
  have hlines := lines_eq (typed_of_build hblocks hp)
  have hcount := lineCount_joined_marks p
  refine ⟨p, _, hp, by rw [flowchart, hlines]; rfl, rfl, hcount, fun m hm label hlabel => ?_,
    fun n _ => occurs_quote_nodeMark n, tidy_iff hcount, fun n _ => newline_not_mem_shown⟩
  rw [Mark.occurs_quote_text (proper_of_mem_marks hm), hlabel, Option.elim_some]

/-- A block with a branch and a reporter. The literal in the branch has quotes, angle brackets and a
line break. -/
def quotedBlocks : List Block := [
  { id := "if-1", type := .str "if_else" },
  { id := "say-1", type := .str "say", inputs := .dict [(.str "text", .str "a \"b\"\n<c>")] },
  { id := "v", type := .str "variable" }]

/-- The links between them. -/
def quotedEdges : List Edge := [
  .toInput "if-1" (some "condition") "v", .toBranch "if-1" (some "true") "say-1"]

/-- What is built of them. -/
def quotedProgram : Program where
  nodes := [
    { id := "if-1", type := .str "if_else", inputs := [(.str "condition", .ref "v")],
      branches := [("true", "say-1")] },
    { id := "say-1", type := .str "say", inputs := [(.str "text", .str "a \"b\"\n<c>")] },
    { id := "v", type := .str "variable" }]
  roots := ["if-1", "say-1", "v"]
  entry := some "if-1"

/-- The literal does no harm: the text has seven lines, and two quotes in each of those for nodes and
arrows. -/
theorem flowchart_quoted : (∀ b ∈ quotedBlocks, b.InOrder) ∧ ∃ text,
    build quotedBlocks quotedEdges = .ok quotedProgram ∧ quotedProgram.flowchart = .ok text ∧
      lineTotal quotedProgram = 7 ∧ Tidy quotedProgram text := by
  have hblocks : ∀ b ∈ quotedBlocks, b.InOrder := by
    simp [quotedBlocks, Block.InOrder]
  obtain ⟨p, text, hp, htext, -, -, -, -, htidy, hliterals⟩ :=
    flowchart_undisturbed_iff hblocks quotedEdges
  have hbuilt : build quotedBlocks quotedEdges = .ok quotedProgram := rfl
  obtain rfl := Except.ok.inj (hbuilt.symm.trans hp)
  have hsockets : ∀ n ∈ quotedProgram.nodes, ∀ entry ∈ n.inputs,
      '\n' ∉ entry.1.plain.toList := by decide
  refine ⟨hblocks, text, hp, htext, rfl, htidy.2 ?_⟩
  exact {
    type := by decide
    literals := fun n hn => hliterals n hn fun entry hentry _ => hsockets n hn entry hentry
    key := by decide
    socket := by decide }

/-- A block whose type is of two lines, and what is plugged in at a socket with a quote. -/
def brokenBlocks : List Block := [
  { id := "s", type := .str "say\nmore" }, { id := "v", type := .str "variable" }]

/-- The node of the first of them. -/
def brokenNode : Node :=
  { id := "s", type := .str "say\nmore", inputs := [(.str "a\"b", .ref "v")] }

/-- What is built of them. -/
def brokenProgram : Program where
  nodes := [brokenNode, { id := "v", type := .str "variable" }]
  roots := ["s", "v"]
  entry := some "s"

/-- Text of users breaks this flowchart: it has a line too many, and the line of its only arrow has
three quotes. -/
theorem flowchart_broken : ∃ text, build brokenBlocks [.toInput "s" (some "a\"b") "v"] =
      .ok brokenProgram ∧ brokenProgram.flowchart = .ok text ∧
    lineTotal brokenProgram = 5 ∧ lineCount text = 6 ∧
    Mark.input "v" "a\"b" "s" ∈ marks brokenProgram ∧
    occurs '"' (Mark.input "v" "a\"b" "s").text = 3 ∧ ¬ Tidy brokenProgram text := by
  have htyped : ∀ n ∈ brokenProgram.nodes, n.Typed := by
    simp [brokenProgram, brokenNode, Node.Typed]
  have hmark : Mark.input "v" "a\"b" "s" ∈ marks brokenProgram := by
    have hplug : (Value.str "a\"b", "v") ∈ plugs brokenProgram brokenNode := List.mem_cons_self
    have harrow := mem_arrowMarks.2 (.inr (.inr ⟨_, hplug, rfl⟩))
    exact mem_marks.2 (.inr (.inl ⟨brokenNode, List.mem_cons_self, harrow⟩))
  have hproper : (Mark.input "v" "a\"b" "s").Proper := by
    simp only [Mark.Proper]
    decide
  have hthree : occurs '"' (Mark.input "v" "a\"b" "s").text = 3 := Mark.occurs_quote_text hproper
  have hcount := lineCount_joined_marks brokenProgram
  have hbreaks : (brokenProgram.nodes.map (breaks brokenProgram)).sum = 1 := by
    decide +kernel
  refine ⟨_, rfl, by rw [flowchart, lines_eq htyped]; rfl, rfl, hcount.trans (by rw [hbreaks]; rfl),
    hmark, hthree, fun htidy => ?_⟩
  have htwo := htidy.quotes _ hmark rfl
  omega

end Program

end BlockProgram
