import BlockProgram.Proofs.Graph.Document
import BlockProgram.Proofs.Program.Compile

/-!
# References that are followed

Evaluating a slot follows references from node to node. `Program.chase` is that recursion as one
would write it down: it carries along what it wants to remember, which decides whether a reference
is followed. It comes to a value if its calls are not nested more deeply than a given depth.

* With the nodes that are being evaluated, references to which are not followed, it always comes to
  the value of the slot, one call deeper than there are nodes at most (`Program.chase_guarded`).
* With nothing, every reference being followed, it comes to the same value at that depth where no
  cycle can be reached (`Program.chase_plain`). From a node that is being evaluated there is a way
  to the reference at hand, so a reference back to it would close a cycle.

So the guard goes unnoticed without cycles, also where a reporter is met at several places. Programs
compiled from a source without typed-in references have none (`Program.acyclicFrom_of_compile`), as
their references are edges of an editor. A reference that was typed in can lead back to its node,
and there the plain recursion does not end at any depth (`Program.chasePlain_endless`).
-/

namespace BlockProgram

open Relation

namespace Program

variable {p : Program} {vars : Dict} {idle : List Node} {active : List String} {slot : Value}
  {σ : Type}

/-- The value of a slot by following references, if the calls are nested no more deeply than
`depth`. To follow a reference is to `enter` the node that it leads to, which may be refused. A
reference that is not followed, or that leads to no reporter, has no value. -/
def chase (p : Program) (vars : Dict) (enter : σ → String → Option σ) :
    (depth : Nat) → (s : σ) → (slot : Value) → Option (Except Fault Value)
  | 0, _, _ => none
  | depth + 1, s, slot =>
    match slot with
    | .ref id =>
      match p.node? id, enter s id with
      | some n, some s =>
        match Reporter.ofType? n.type with
        | .error fault => some (.error fault)
        | .ok none => some (.ok .null)
        | .ok (some .variable) => do
          let name ← chase p vars enter depth s (n.input "name")
          return name.bind (variableValue vars)
        | .ok (some .not) => do
          let a ← chase p vars enter depth s (n.input "a")
          return a.map fun a => .bool !a.truthy
        | .ok (some r) => do
          match ← chase p vars enter depth s (n.input "a") with
          | .error fault => return .error fault
          | .ok a =>
            match ← chase p vars enter depth s (n.input "b") with
            | .error fault => return .error fault
            | .ok b => return r.apply a b
      | _, _ => some (.ok .null)
    | literal => some (.ok literal)

/-- A node is entered unless it is being evaluated. -/
def enterOnce (active : List String) (id : String) : Option (List String) :=
  if active.contains id then none else some (id :: active)

/-- The recursion with a guard. -/
def chaseGuarded (p : Program) (vars : Dict) (depth : Nat) (slot : Value) :
    Option (Except Fault Value) :=
  p.chase vars enterOnce depth [] slot

/-- The plain recursion, which remembers nothing and follows every reference. -/
def chasePlain (p : Program) (vars : Dict) (depth : Nat) (slot : Value) :
    Option (Except Fault Value) :=
  p.chase vars (fun _ _ => some ()) depth () slot

/-! ## Following references -/

/-- There are fewer idle nodes with every one that is entered, as there is less depth. -/
theorem exists_depth {id : String} {n : Node} {depth : Nat} (hn : findNode? idle id = some n)
    (hdepth : idle.length ≤ depth) : ∃ d, depth = d + 1 ∧ (without idle id).length ≤ d := by
  have hless := length_without_lt hn
  exact ⟨depth - 1, by omega, by omega⟩

/-- **The recursion computes the value of a slot** if it enters those nodes that are idle, at every
depth greater than their number. What has to hold when it meets a slot is handed on to the slots of
each node that it enters. -/
theorem chase_eq {enter : σ → String → Option σ} (Meets : σ → List Node → Value → Prop)
    (hclosed : ∀ s idle id, Meets s idle (.ref id) → findNode? idle id = none →
      p.node? id = none ∨ enter s id = none)
    (hopen : ∀ s idle id n, Meets s idle (.ref id) → findNode? idle id = some n →
      p.node? id = some n ∧ ∃ s', enter s id = some s' ∧
        ∀ socket, Meets s' (without idle id) (n.input socket))
    {s : σ} (h : Meets s idle slot) {depth : Nat} (hdepth : idle.length ≤ depth) :
    p.chase vars enter (depth + 1) s slot = some (evaluateIdle vars idle slot) := by
  fun_induction evaluateIdle vars idle slot generalizing s depth with
  | case1 idle id hn =>
    rcases hclosed s idle id h hn with hnode | henter
    · simp [chase, hnode]
    · simp [chase, henter]
  | case2 idle id n hn fault htype =>
    obtain ⟨hnode, s', henter, -⟩ := hopen s idle id n h hn
    simp [chase, hnode, henter, htype]
  | case3 idle id n hn htype =>
    obtain ⟨hnode, s', henter, -⟩ := hopen s idle id n h hn
    simp [chase, hnode, henter, htype]
  | case4 idle id n hn htype ih =>
    obtain ⟨hnode, s', henter, hslots⟩ := hopen s idle id n h hn
    obtain ⟨d, rfl, hd⟩ := exists_depth hn hdepth
    rw [chase]
    simp [hnode, henter, htype, ih (hslots "name") hd]
  | case5 idle id n hn htype ih =>
    obtain ⟨hnode, s', henter, hslots⟩ := hopen s idle id n h hn
    obtain ⟨d, rfl, hd⟩ := exists_depth hn hdepth
    rw [chase]
    simp [hnode, henter, htype, ih (hslots "a") hd]
  | case6 idle id n hn r _ _ htype fault ha ih =>
    obtain ⟨hnode, s', henter, hslots⟩ := hopen s idle id n h hn
    obtain ⟨d, rfl, hd⟩ := exists_depth hn hdepth
    rw [chase]
    simp [hnode, henter, htype, ih (hslots "a") hd, ha]
  | case7 idle id n hn r _ _ htype a ha fault hb iha ihb =>
    obtain ⟨hnode, s', henter, hslots⟩ := hopen s idle id n h hn
    obtain ⟨d, rfl, hd⟩ := exists_depth hn hdepth
    rw [chase]
    simp [hnode, henter, htype, iha (hslots "a") hd, ha, ihb (hslots "b") hd, hb]
  | case8 idle id n hn r _ _ htype a ha b hb iha ihb =>
    obtain ⟨hnode, s', henter, hslots⟩ := hopen s idle id n h hn
    obtain ⟨d, rfl, hd⟩ := exists_depth hn hdepth
    rw [chase]
    simp [hnode, henter, htype, iha (hslots "a") hd, ha, ihb (hslots "b") hd, hb]
  | case9 idle literal hliteral => simp [chase]

/-- The idle nodes are those that are not being evaluated. -/
def IdleBut (p : Program) (active : List String) (idle : List Node) : Prop :=
  ∀ id, findNode? idle id = if active.contains id then none else p.node? id

theorem idleBut_nodes (p : Program) : p.IdleBut [] p.nodes := fun _ => rfl

/-- Without one node every other one is found as before. -/
theorem findNode?_without (idle : List Node) (id other : String) :
    findNode? (without idle id) other = if other = id then none else findNode? idle other := by
  simp only [findNode?, without, List.find?_filter]
  split
  · rename_i h
    rw [List.find?_eq_none]
    rintro n - hn
    simp [h] at hn
  · rename_i h
    congr 1
    funext n
    by_cases hn : n.id = other
    · simp [hn, h]
    · simp [hn]

/-- A node that becomes busy is no longer idle. -/
theorem IdleBut.without (h : p.IdleBut active idle) (id : String) :
    p.IdleBut (id :: active) (without idle id) := by
  intro other
  rw [findNode?_without, h other, List.contains_cons]
  by_cases hid : other = id
  · simp [hid]
  · simp [hid]

/-- A node that is not idle is busy or not there at all. -/
theorem IdleBut.of_none {id : String} (h : p.IdleBut active idle) (hn : findNode? idle id = none) :
    p.node? id = none ∨ id ∈ active := by
  rw [h id] at hn
  split at hn
  · rename_i hactive
    exact .inr (by simpa using hactive)
  · exact .inl hn

/-- A node that is idle is there and not busy. -/
theorem IdleBut.of_some {id : String} {n : Node} (h : p.IdleBut active idle)
    (hn : findNode? idle id = some n) : p.node? id = some n ∧ id ∉ active := by
  rw [h id] at hn
  split at hn
  · cases hn
  · rename_i hfree
    exact ⟨hn, by simpa using hfree⟩

/-- **With the guard the recursion always ends**, whatever the references are. -/
theorem chase_guarded (vars : Dict) (slot : Value) {depth : Nat} (hdepth : p.nodes.length < depth) :
    p.chaseGuarded vars depth slot = some (p.evaluate vars slot) := by
  obtain ⟨d, rfl⟩ : ∃ d, depth = d + 1 := ⟨depth - 1, by omega⟩
  refine chase_eq (fun active idle _ => p.IdleBut active idle)
    (fun active idle id h hn => ?_) (fun active idle id n h hn => ?_) (idleBut_nodes p)
    (Nat.le_of_lt_succ hdepth)
  · refine (h.of_none hn).imp_right fun hactive => ?_
    simp [enterOnce, hactive]
  · obtain ⟨hnode, hfree⟩ := h.of_some hn
    exact ⟨hnode, id :: active, by simp [enterOnce, hfree], fun _ => h.without id⟩

/-! ## References without cycles -/

/-- A slot of the first node holds a reference to the second one. -/
def Refers (p : Program) (a b : String) : Prop :=
  ∃ n socket, p.node? a = some n ∧ n.input socket = .ref b

/-- The references that can be reached from a slot contain no cycle. -/
def AcyclicFrom (p : Program) (slot : Value) : Prop :=
  ∀ id, slot = .ref id → ∀ a, ReflTransGen p.Refers id a → ¬ TransGen p.Refers a a

/-- Where no cycle can be reached from a node, none can be reached from its sockets. -/
theorem AcyclicFrom.input {id : String} {n : Node} (h : p.AcyclicFrom (.ref id))
    (hn : p.node? id = some n) (socket : String) : p.AcyclicFrom (n.input socket) := by
  intro other hother a hway
  exact h id rfl a (.head ⟨n, socket, hn, hother⟩ hway)

/-- From each node that is being evaluated there is a way to the reference in a slot. -/
def LedToBy (p : Program) (active : List String) (slot : Value) : Prop :=
  ∀ a ∈ active, ∀ id, slot = .ref id → TransGen p.Refers a id

/-- The nodes that led to a node, with the node itself, have led to what is plugged in there. -/
theorem LedToBy.input {id : String} {n : Node} (h : p.LedToBy active (.ref id))
    (hn : p.node? id = some n) (socket : String) :
    p.LedToBy (id :: active) (n.input socket) := by
  intro a ha other hother
  have hstep : p.Refers id other := ⟨n, socket, hn, hother⟩
  rcases List.mem_cons.1 ha with rfl | ha
  · exact .single hstep
  · exact .tail (h a ha id rfl) hstep

/-- **Without cycles the plain recursion ends with the same value.** -/
theorem chase_plain (vars : Dict) (h : p.AcyclicFrom slot) {depth : Nat}
    (hdepth : p.nodes.length < depth) :
    p.chasePlain vars depth slot = some (p.evaluate vars slot) := by
  obtain ⟨d, rfl⟩ : ∃ d, depth = d + 1 := ⟨depth - 1, by omega⟩
  refine chase_eq (fun _ idle slot =>
      ∃ active, p.IdleBut active idle ∧ p.LedToBy active slot ∧ p.AcyclicFrom slot)
    (fun _ idle id h hn => ?_) (fun _ idle id n h hn => ?_)
    ⟨[], idleBut_nodes p, fun _ ha => absurd ha List.not_mem_nil, h⟩ (Nat.le_of_lt_succ hdepth)
  · obtain ⟨active, hidle, hled, hslot⟩ := h
    -- a reference back to a node that is being evaluated would close a cycle
    refine .inl ((hidle.of_none hn).resolve_right fun hactive => ?_)
    exact hslot id rfl id .refl (hled id hactive id rfl)
  · obtain ⟨active, hidle, hled, hslot⟩ := h
    obtain ⟨hnode, -⟩ := hidle.of_some hn
    exact ⟨hnode, (), rfl, fun socket => ⟨id :: active, hidle.without id, hled.input hnode socket,
      hslot.input hnode socket⟩⟩

/-- The socket whose value is wanted first. -/
def firstSocket (r : Reporter) : String :=
  if r = .variable then "name" else "a"

/-- Where each reference leads to a reporter whose first socket holds another such reference, the
plain recursion does not end. -/
theorem chasePlain_endless (vars : Dict) (Endless : String → Prop)
    (hendless : ∀ id, Endless id → ∃ n r next, p.node? id = some n ∧
      Reporter.ofType? n.type = .ok (some r) ∧ n.input (firstSocket r) = .ref next ∧ Endless next)
    {id : String} (h : Endless id) (depth : Nat) : p.chasePlain vars depth (.ref id) = none := by
  induction depth generalizing id with
  | zero => rfl
  | succ depth ih =>
    obtain ⟨n, r, next, hn, htype, hinput, hnext⟩ := hendless id h
    -- nothing comes of the first socket, so nothing comes of the reporter
    have hfirst : p.chase vars (fun _ _ => some ()) depth () (n.input (firstSocket r)) = none := by
      rw [hinput]
      exact ih hnext
    rw [chasePlain, chase]
    cases r <;> simp [firstSocket] at hfirst <;> simp [hn, htype, hfirst]

/-- The operators that are applied to two operands. -/
def Binary (r : Reporter) : Prop := r ≠ .variable ∧ r ≠ .not

/-- Without cycles an operator is applied to the values that its operands have on their own. -/
theorem evaluate_operator (vars : Dict) {id : String} {n : Node} {r : Reporter}
    (h : p.AcyclicFrom (.ref id)) (hn : p.node? id = some n)
    (htype : Reporter.ofType? n.type = .ok (some r)) (hr : Binary r) :
    p.evaluate vars (.ref id) = (do
      let a ← p.evaluate vars (n.input "a")
      let b ← p.evaluate vars (n.input "b")
      r.apply a b) := by
  obtain ⟨hvariable, hnot⟩ := hr
  have hdepth : p.nodes.length < p.nodes.length + 1 := Nat.lt_succ_self _
  have ha : p.chase vars (fun _ _ => some ()) _ () (n.input "a") = _ :=
    chase_plain vars (h.input hn "a") hdepth
  have hb : p.chase vars (fun _ _ => some ()) _ () (n.input "b") = _ :=
    chase_plain vars (h.input hn "b") hdepth
  have hself := chase_plain vars h (Nat.lt_succ_of_lt hdepth)
  rw [chasePlain, chase] at hself
  simp only [hn, htype, ha, hb] at hself
  refine Option.some.inj (hself.symm.trans ?_)
  rcases p.evaluate vars (n.input "a") with fault | a
  · rfl
  · rcases p.evaluate vars (n.input "b") with fault | b <;> rfl

end Program

/-! ## Compiled programs -/

namespace Block

theorem Literal.blankAt {b : Block} (h : b.Literal) (socket : String) :
    (b.blankAt socket).Literal := by
  intro entries hentries other id
  simp only [Block.blankAt] at hentries
  split at hentries
  · rename_i inputs hinputs
    cases hentries
    rw [Dict.named?_setNamed]
    split
    · rintro ⟨⟩
    · exact h inputs hinputs other id
  · exact h entries hentries other id

/-- Blanking sockets puts texts there, and no references. -/
theorem Literal.blank {b : Block} (h : b.Literal) (sockets : List String) :
    (b.blank sockets).Literal := by
  induction sockets generalizing b with
  | nil => exact h
  | cons socket rest ih => exact ih (h.blankAt socket)

end Block

/-- A text is never read as a reference. -/
theorem readLiteral_ne_ref (s id : String) : readLiteral s ≠ .ref id := by
  simp only [readLiteral]
  split
  · rintro ⟨⟩
  · split
    · rintro ⟨⟩
    · split
      · rintro ⟨⟩
      · split
        · rename_i v hv
          obtain ⟨numeral, -, hvalue⟩ := Option.bind_eq_some_iff.1 hv
          rintro rfl
          simp only [Numeral.value?] at hvalue
          split at hvalue
          · split at hvalue <;> cases hvalue
          · cases hvalue
        · rintro ⟨⟩

/-- Only a reference is read as a reference, so typing in a text never makes one. -/
theorem eq_ref_of_slotValue {socket raw : Value} {id : String}
    (h : slotValue socket raw = .ref id) : raw = .ref id := by
  cases raw with
  | str s =>
    simp only [slotValue] at h
    split at h
    · cases h
    · exact absurd h (readLiteral_ne_ref s id)
  | _ => exact h

namespace Program

variable {p : Program} {blocks : List Block} {edges : List Edge} {n : Node}

/-- Of a block without typed-in references comes a node without references. -/
theorem input_nodeOfBlock {b : Block} (h : b.Literal) (hn : nodeOfBlock b = .ok n)
    (socket id : String) : n.input socket ≠ .ref id := by
  simp only [nodeOfBlock] at hn
  rcases hinputs : blockInputs b.inputs with fault | inputs <;> rw [hinputs] at hn
  · cases hn
  rcases hdata : checkData b.data with fault | ⟨⟩ <;> rw [hdata] at hn
  · cases hn
  cases hn
  have hliteral : Dict.named? inputs socket ≠ some (.ref id) := by
    simp only [blockInputs] at hinputs
    split at hinputs
    · rename_i entries hentries
      cases hinputs
      exact h inputs hentries socket id
    · split at hinputs
      · cases hinputs
      · cases hinputs
        rintro ⟨⟩
  intro hinput
  simp only [Node.input] at hinput
  rw [Dict.named?_map] at hinput
  rcases hnamed : Dict.named? inputs socket with _ | raw <;> rw [hnamed] at hinput hliteral
  · cases hinput
  · exact hliteral (congrArg some (eq_ref_of_slotValue hinput))

/-- A reference of a linked node was there before or is an edge to its target. -/
theorem input_linkAll {socket id : String} (h : (linkAll edges n).input socket = .ref id) :
    n.input socket = .ref id ∨ ∃ e ∈ edges, e.target = id := by
  induction edges generalizing n with
  | nil => exact .inl h
  | cons e rest ih =>
    rcases ih (n := linkNode e n) h with hlinked | ⟨e', he', htarget⟩
    · simp only [linkNode] at hlinked
      split at hlinked
      · exact .inl hlinked
      · exact .inl hlinked
      · split at hlinked
        · simp only [Node.input, Dict.named?_setNamed] at hlinked
          split at hlinked
          · exact .inr ⟨e, List.mem_cons_self, Value.ref.inj hlinked⟩
          · exact .inl hlinked
        · exact .inl hlinked
    · exact .inr ⟨e', List.mem_cons_of_mem _ he', htarget⟩

/-- The references of a program are edges, if none is typed in. -/
theorem joins_of_refers (hliteral : ∀ b ∈ blocks, b.Literal) (hp : build blocks edges = .ok p)
    {a b : String} (h : p.Refers a b) : Joins edges a b := by
  obtain ⟨unlinked, hu, hnodes, -⟩ := build_ok hp
  obtain ⟨n, socket, hn, hinput⟩ := h
  rw [node?_build hnodes, Option.map_eq_some_iff] at hn
  obtain ⟨m, hm, rfl⟩ := hn
  rcases input_linkAll hinput with htyped | ⟨e, he, htarget⟩
  · refine absurd htyped (forall_nodesOfBlocks (P := fun m => m.input socket ≠ .ref b) ?_ hu m
      (mem_of_findNode? hm))
    exact fun b' hb' n hn => input_nodeOfBlock (hliteral b' hb') hn socket b
  · obtain ⟨hedge, hsource, -⟩ := mem_outEdges.1 he
    exact ⟨e, hedge, hsource, htarget⟩

/-- Where the edges close no cycle and no reference is typed in, no cycle of references can be
reached. -/
theorem acyclicFrom_of_build (hacyclic : Acyclic edges) (hliteral : ∀ b ∈ blocks, b.Literal)
    (hp : build blocks edges = .ok p) (slot : Value) : p.AcyclicFrom slot := by
  intro _ _ a _ hcycle
  exact hacyclic a (.mono (fun _ _ => joins_of_refers hliteral hp) _ _ hcycle)

/-- **Compiled programs have no cycle of references**, if none is typed in at a block. -/
theorem acyclicFrom_of_compile {g : ProgramGraph} (hliteral : ∀ b ∈ g.blocks, b.Literal)
    (hp : (Source.graph g).compile = .ok p) (slot : Value) : p.AcyclicFrom slot := by
  simp only [Source.compile, Source.snapshot, ProgramGraph.repaired] at hp
  rcases hdrawn : Workspace.ofGraph g with fault | ws <;> rw [hdrawn] at hp
  · cases hp
  have hreachable : Workspace.Reachable ws := .drawn ws.issued hdrawn
  obtain ⟨-, rfl⟩ := Workspace.ofGraph_ok hdrawn
  obtain ⟨sockets, -, hblocks⟩ := (Workspace.redrawn_foldl g.blocks g.edges).blocks
  refine acyclicFrom_of_build hreachable.wellFormed.acyclic (fun b hb => ?_) hp slot
  have hmem : b ∈ g.blocks.map fun b => b.blank (sockets b.id) := hblocks ▸ hb
  obtain ⟨b₀, hb₀, rfl⟩ := List.mem_map.1 hmem
  exact (hliteral b₀ hb₀).blank _

/-- **The guard ends every evaluation and is not noticed without cycles.** The guarded recursion
always comes to the value of the slot, with calls nested one deeper than there are nodes at most.
Where no cycle of references can be reached, so does the plain one, and every operator is applied to
the values that its operands have on their own, the same reporter at both of them included. Programs
compiled from a graph or from the workspace of an editor have no such cycles, if the blocks hold
literals only, as those of every document do, whatever library it is read with. -/
theorem evaluate_guarded (p : Program) (vars : Dict) (slot : Value) :
    (∀ depth, p.nodes.length < depth →
        p.chaseGuarded vars depth slot = some (p.evaluate vars slot)) ∧
      (p.AcyclicFrom slot →
        (∀ depth, p.nodes.length < depth →
          p.chasePlain vars depth slot = some (p.evaluate vars slot)) ∧
        ∀ id n r, slot = .ref id → p.node? id = some n →
          Reporter.ofType? n.type = .ok (some r) → Binary r →
          p.evaluate vars slot = (do
            let a ← p.evaluate vars (n.input "a")
            let b ← p.evaluate vars (n.input "b")
            r.apply a b)) ∧
      (∀ g : ProgramGraph, (∀ b ∈ g.blocks, b.Literal) → (Source.graph g).compile = .ok p →
        p.AcyclicFrom slot) ∧
      (∀ (library : Json.Library) (most : Json.Limits), library.Lawful most → ∀ text g,
        ProgramGraph.load library text = .ok g → (Source.graph g).compile = .ok p →
        p.AcyclicFrom slot) ∧
      (∀ ws : Workspace, ws.Reachable → (∀ b ∈ ws.blocks, b.Literal) →
        (Source.workspace ws).compile = .ok p → p.AcyclicFrom slot) := by
  refine ⟨fun _ => chase_guarded vars slot, fun h => ⟨fun _ => chase_plain vars h, ?_⟩, ?_, ?_, ?_⟩
  · rintro id n r rfl hn htype hr
    exact evaluate_operator vars h hn htype hr
  · intro g hliteral hp
    exact acyclicFrom_of_compile hliteral hp slot
  · intro library most hlaws text g hload hp
    exact acyclicFrom_of_compile (ProgramGraph.literal_of_load hlaws hload) hp slot
  · intro ws hws hliteral hp
    exact acyclicFrom_of_build hws.wellFormed.acyclic hliteral hp slot

/-- A sum whose operands are the same variable. -/
def doubled : ProgramGraph where
  blocks := [
    { id := "sum", type := .str "plus_operator" },
    { id := "v", type := .str "variable", inputs := .dict [(.str "name", .str "n")] }]
  edges := [.toInput "sum" (some "a") "v", .toInput "sum" (some "b") "v"]

/-- What it is compiled to. -/
def doubledProgram : Program where
  nodes := [
    { id := "sum", type := .str "plus_operator",
      inputs := [(.str "a", .ref "v"), (.str "b", .ref "v")] },
    { id := "v", type := .str "variable", inputs := [(.str "name", .str "n")] }]
  roots := ["sum", "v"]
  entry := some "sum"

/-- The variable counts at both places, with the guard and without it. -/
theorem evaluate_doubled : ∃ vars : Dict,
    doubledProgram.chasePlain vars 3 (.ref "sum") =
      doubledProgram.chaseGuarded vars 3 (.ref "sum") ∧
      (doubledProgram.evaluate vars (.ref "sum")).toOption.bind Value.number? = some (.int 6) := by
  have horderly : doubled.Orderly := by decide +kernel
  have hinOrder : ∀ b ∈ doubled.blocks, b.InOrder := by
    simp [doubled, Block.InOrder]
  obtain ⟨p, hcompile, hbuild⟩ := horderly.compile_eq_build (by decide) hinOrder
  obtain rfl : doubledProgram = p := Except.ok.inj hbuild
  have hliteral : ∀ b ∈ doubled.blocks, b.Literal := by
    intro b hb
    refine Block.literal_of_refFree ?_
    simp only [doubled, List.mem_cons, List.not_mem_nil, or_false] at hb
    rcases hb with rfl | rfl
    · exact .dict fun _ hmem => absurd hmem List.not_mem_nil
    · exact .dict (List.forall_mem_singleton.2 (.str "n"))
  refine ⟨[(.str "n", .int 3)], ?_, by decide +kernel⟩
  obtain ⟨hguarded, hplain, hgraph, -⟩ :=
    evaluate_guarded doubledProgram [(.str "n", .int 3)] (.ref "sum")
  rw [hguarded 3 (by decide)]
  exact (hplain (hgraph doubled hliteral hcompile)).1 3 (by decide)

/-- A negation to which a reference to itself is handed over in memory. -/
def selfNegated : ProgramGraph where
  blocks := [{ id := "not", type := .str "not_operator",
               inputs := .dict [(.str "a", .ref "not")] }]

/-- What it is compiled to. -/
def selfNegatedProgram : Program where
  nodes := [{ id := "not", type := .str "not_operator", inputs := [(.str "a", .ref "not")] }]
  roots := ["not"]
  entry := some "not"

/-- Typed-in references can close a cycle. Then the plain recursion does not end and the guard
shows: the negation of nothing is true. -/
theorem chasePlain_selfNegated : (Source.graph selfNegated).compile = .ok selfNegatedProgram ∧
    ∀ vars, (∀ depth, selfNegatedProgram.chasePlain vars depth (.ref "not") = none) ∧
      selfNegatedProgram.evaluate vars (.ref "not") = .ok (.bool true) := by
  have horderly : selfNegated.Orderly := by decide +kernel
  have hinOrder : ∀ b ∈ selfNegated.blocks, b.InOrder := by
    simp [selfNegated, Block.InOrder]
  obtain ⟨p, hcompile, hbuild⟩ := horderly.compile_eq_build (by decide) hinOrder
  obtain rfl : selfNegatedProgram = p := Except.ok.inj hbuild
  refine ⟨hcompile, fun vars => ⟨?_, ?_⟩⟩
  · refine chasePlain_endless vars (· = "not") (fun id hid => ?_) rfl
    subst hid
    exact ⟨_, .not, "not", rfl, rfl, rfl, rfl⟩
  · have hchased : selfNegatedProgram.chaseGuarded vars 2 (.ref "not") =
        some (.ok (.bool true)) := rfl
    exact Option.some.inj ((chase_guarded vars _ (by decide)).symm.trans hchased)

end Program

end BlockProgram
