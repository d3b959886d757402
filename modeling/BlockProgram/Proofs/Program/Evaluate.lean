import BlockProgram.Program.Evaluate
import BlockProgram.Proofs.Graph.Record
import BlockProgram.Proofs.Program.Build
import BlockProgram.Proofs.Value.Dict
import BlockProgram.Proofs.Value.Literal

/-!
# What slots come to in checked programs

Operators read their operands as numbers within range, and dividing by zero gives zero. So an
operator has a value on any operands, unless it needs the text of a whole number with too many digits
(`Reporter.unlessLong_apply`). Blocks that come from records have texts as types (`Block.InOrder`),
so building a program of them succeeds, and what is built has no other way to fail: every slot has a
value for any variables, or misses it because of such a number (`Program.unlessLong_evaluate`).

If no number among the variables and in the nodes is too long, none comes up on the way
(`Program.Short`), as whatever is computed is short.
-/

namespace BlockProgram

/-! ## Operators -/

namespace Reporter

theorem exists_unlessZero {op : Number → Number → Option Number} {a b : Number}
    (h : b.isZero = false → ∃ v, Value.ofResult (op a b) = .ok v ∧ v.Writable) :
    ∃ v, unlessZero op a b = .ok v ∧ v.Writable := by
  simp only [unlessZero]
  split
  · exact ⟨.int 0, rfl, Value.writable_int 1 (by decide) (by decide)⟩
  · rename_i hzero
    exact h (by simpa using hzero)

/-- **Every operator has a value on any operands**, unless it needs a text that is too long. From
operands that can be written out comes a value that can. -/
theorem unlessLong_apply (r : Reporter) (a b : Value) :
    UnlessLong (a.Writable ∧ b.Writable) Value.Writable
      (r.apply a b) := by
  have ha := a.inRange_toNumber
  have hb := b.inRange_toNumber
  have hcomputed {result : Except Fault Value}
      (h : ∃ v, result = .ok v ∧ v.Writable) :
      UnlessLong (a.Writable ∧ b.Writable) Value.Writable
        result := by
    obtain ⟨v, rfl, hv⟩ := h
    exact .ok fun _ => hv
  cases r with
  | plus => exact a.unlessLong_add b
  | minus => exact hcomputed (Value.exists_combine? (fun _ _ _ => natAbs_sub_lt) ha hb)
  | multiply => exact hcomputed (Value.exists_combine? (fun _ _ _ => natAbs_mul_lt) ha hb)
  | divide => exact hcomputed (exists_unlessZero (Value.exists_div? ha hb))
  | mod =>
    refine hcomputed (exists_unlessZero fun _ => ?_)
    exact Value.exists_combine? (fun _ _ _ => natAbs_fmod_lt) ha hb
  | eq | et => exact (a.unlessLong_looselyEqual b).map fun _ _ _ => rfl
  | gt | gte | lt | lte | and | or | «variable» | not => exact .ok fun _ => rfl

theorem named?_typeName (r : Reporter) : named? r.typeName = some r := by
  cases r <;> decide

/-- Every reporter is found by its type. -/
theorem ofType?_typeName (r : Reporter) : ofType? (.str r.typeName) = .ok (some r) := by
  rw [ofType?, named?_typeName]

end Reporter

/-! ## Blocks in order -/

/-- A block as it comes from a record: its type is a text, its inputs and data are dictionaries. -/
def Block.InOrder (b : Block) : Prop :=
  (∃ type, b.type = .str type) ∧ (∃ inputs, b.inputs = .dict inputs) ∧ ∃ data, b.data = .dict data

namespace Record

/-- **Blocks from records are in order.** -/
theorem inOrder_of_block {origin : Origin} {v : Value} {b : Block} (h : block origin v = .ok b) :
    b.InOrder := by
  simp only [block] at h
  split at h
  · obtain ⟨-, htype, hinputs, -, -, -, -, hdata⟩ := blockOfFields_iff.1 h
    obtain ⟨name, -, hname⟩ := map_ok htype
    exact ⟨⟨name, hname⟩, dict_of_optional hinputs, dict_of_optional hdata⟩
  · cases h

end Record

/-! ## Programs of checked blocks -/

/-- A node whose type is a text. -/
def Node.Typed (n : Node) : Prop := ∃ type, n.type = .str type

/-- A node at whose sockets no number has too many digits. -/
def Node.Writable (n : Node) : Prop := ∀ entry ∈ n.inputs, entry.2.Writable

instance (n : Node) : Decidable n.Writable :=
  inferInstanceAs (Decidable (∀ entry ∈ n.inputs, entry.2.Writable))

theorem Node.Writable.input {n : Node} (h : n.Writable) (socket : String) :
    (n.input socket).Writable := by
  rw [Node.input]
  rcases hv : Dict.named? n.inputs socket with _ | v
  · rfl
  · exact Dict.of_named? (P := Value.Writable) h hv

namespace Program

variable {blocks : List Block} {edges : List Edge} {nodes : List Node} {p : Program}

theorem exists_nodeOfBlock {b : Block} (h : b.InOrder) : ∃ n, nodeOfBlock b = .ok n ∧ n.Typed := by
  obtain ⟨⟨type, htype⟩, ⟨inputs, hinputs⟩, ⟨data, hdata⟩⟩ := h
  simp only [nodeOfBlock]
  rw [hinputs, hdata]
  exact ⟨_, rfl, type, htype⟩

/-- **Building a program of checked blocks succeeds.** -/
theorem exists_build (h : ∀ b ∈ blocks, b.InOrder) (edges : List Edge) :
    ∃ p, build blocks edges = .ok p := by
  have hnodes : ∀ start, ∃ nodes,
      blocks.foldlM (fun nodes b => (nodeOfBlock b).map (putNode nodes)) start = .ok nodes := by
    induction blocks with
    | nil => exact fun start => ⟨start, rfl⟩
    | cons b rest ih =>
      intro start
      obtain ⟨n, hn, -⟩ := exists_nodeOfBlock (h b List.mem_cons_self)
      obtain ⟨nodes, hrest⟩ :=
        ih (fun b' hb' => h b' (List.mem_cons_of_mem _ hb')) (putNode start n)
      refine ⟨nodes, ?_⟩
      rw [List.foldlM_cons, hn]
      exact hrest
  obtain ⟨unlinked, hu⟩ := hnodes []
  simp only [build, nodesOfBlocks]
  rw [hu]
  exact ⟨_, rfl⟩

/-- What the nodes of all blocks have, and linking keeps, the nodes of a built program have. -/
theorem forall_of_build {P : Node → Prop} (hblock : ∀ b ∈ blocks, ∀ n, nodeOfBlock b = .ok n → P n)
    (hlink : ∀ e n, P n → P (linkNode e n)) (hp : build blocks edges = .ok p) :
    ∀ n ∈ p.nodes, P n := by
  obtain ⟨unlinked, hu, hnodes, -⟩ := build_ok hp
  have hunlinked : ∀ n ∈ unlinked, P n := forall_nodesOfBlocks hblock hu
  rw [hnodes]
  clear hu hnodes hp
  induction edges generalizing unlinked with
  | nil => exact hunlinked
  | cons e rest ih =>
    refine ih _ ?_
    simp only [linkEdge]
    split
    · intro n hn
      obtain ⟨m, hm, rfl⟩ := List.mem_map.1 hn
      split
      · exact hlink e m (hunlinked m hm)
      · exact hunlinked m hm
    · exact hunlinked

/-- The nodes of a program of checked blocks have texts as types. -/
theorem typed_of_build (h : ∀ b ∈ blocks, b.InOrder) (hp : build blocks edges = .ok p) :
    ∀ n ∈ p.nodes, n.Typed := by
  refine forall_of_build (fun b hb n hn => ?_) (fun e n hn => ?_) hp
  · obtain ⟨n', hn', htyped⟩ := exists_nodeOfBlock (h b hb)
    rw [hn] at hn'
    cases hn'
    exact htyped
  · obtain ⟨type, htype⟩ := hn
    exact ⟨type, by rw [type_linkNode, htype]⟩

theorem writable_slotValue (socket : Value) {raw : Value} (h : raw.Writable) :
    (slotValue socket raw).Writable := by
  cases raw with
  | str s =>
    rw [slotValue]
    split
    · rfl
    · exact writable_readLiteral s
  | _ => exact h

/-- Where no block has a number that is too long for its text, no node has, as what is typed in is not
read as one. -/
theorem writable_of_build (h : ∀ b ∈ blocks, b.inputs.Writable)
    (hp : build blocks edges = .ok p) : ∀ n ∈ p.nodes, n.Writable := by
  refine forall_of_build (fun b hb n hn => ?_) (fun e n hn => ?_) hp
  · obtain ⟨inputs, hinputs, hn⟩ := Fault.bind_ok hn
    obtain ⟨⟨⟩, -, hn⟩ := Fault.bind_ok hn
    cases hn
    refine List.forall_mem_map.2 fun entry hentry => writable_slotValue entry.1 ?_
    simp only [blockInputs] at hinputs
    split at hinputs
    · rename_i entries hentries
      cases hinputs
      exact (hentries ▸ h b hb : (Value.dict inputs).Writable).of_entry hentry
    · split at hinputs <;> cases hinputs
      cases hentry
  · simp only [linkNode]
    split
    · exact hn
    · exact hn
    · split
      · exact Dict.forall_insert hn rfl
      · exact hn

/-! ## Evaluating -/

/-- The value of a reference to a node. -/
theorem evaluateIdle_ref {vars : Dict} {idle : List Node} {id : String} {n : Node}
    (hn : findNode? idle id = some n) :
    evaluateIdle vars idle (.ref id) =
      match Reporter.ofType? n.type with
      | .error fault => .error fault
      | .ok none => .ok .null
      | .ok (some .variable) =>
        (evaluateIdle vars (without idle id) (n.input "name")).bind (variableValue vars)
      | .ok (some .not) =>
        (evaluateIdle vars (without idle id) (n.input "a")).map fun a => .bool !a.truthy
      | .ok (some r) =>
        match evaluateIdle vars (without idle id) (n.input "a") with
        | .error fault => .error fault
        | .ok a =>
          match evaluateIdle vars (without idle id) (n.input "b") with
          | .error fault => .error fault
          | .ok b => r.apply a b := by
  rw [evaluateIdle]
  split
  · rename_i hnone
    cases hn.symm.trans hnone
  · rename_i m hm
    obtain rfl := Option.some.inj (hn.symm.trans hm)
    rfl

/-- A text has itself as its value. -/
theorem evaluateIdle_str (vars : Dict) (idle : List Node) (s : String) :
    evaluateIdle vars idle (.str s) = .ok (.str s) := by
  rw [evaluateIdle]
  rintro id ⟨⟩

/-- A reporter of a variable has the value that is stored under its name, also while other nodes are
busy. -/
theorem evaluateIdle_variable {idle : List Node} {id name : String} {n : Node}
    (hn : findNode? idle id = some n) (htype : n.type = .str (Reporter.typeName .variable))
    (hname : n.input nameSocket = .str name) (vars : Dict) :
    evaluateIdle vars idle (.ref id) = .ok ((Dict.named? vars name).getD (.int 0)) := by
  have hread : n.input "name" = .str name := hname
  rw [evaluateIdle_ref hn, htype, Reporter.ofType?_typeName]
  simp only [hread, evaluateIdle_str]
  rfl

theorem evaluate_variable {id name : String} {n : Node} (hn : p.node? id = some n)
    (htype : n.type = .str (Reporter.typeName .variable)) (hname : n.input nameSocket = .str name)
    (vars : Dict) : p.evaluate vars (.ref id) = .ok ((Dict.named? vars name).getD (.int 0)) :=
  evaluateIdle_variable hn htype hname vars

theorem typed_without {idle : List Node} (h : ∀ n ∈ idle, n.Typed) (id : String) :
    ∀ n ∈ without idle id, n.Typed := fun n hn => h n (List.mem_filter.1 hn).1

/-- Nothing that evaluating a reference may come by has too many digits. -/
structure Short (vars : Dict) (idle : List Node) : Prop where
  vars : ∀ entry ∈ vars, entry.2.Writable
  nodes : ∀ n ∈ idle, n.Writable

theorem Short.without {vars : Dict} {idle : List Node} (h : Short vars idle) (id : String) :
    Short vars (without idle id) where
  vars := h.vars
  nodes n hn := h.nodes n (List.mem_filter.1 hn).1

theorem Short.input {vars : Dict} {idle : List Node} {id : String} {n : Node}
    (h : Short vars idle) (hn : findNode? idle id = some n) (socket : String) :
    (n.input socket).Writable :=
  (h.nodes n (mem_of_findNode? hn)).input socket

theorem unlessLong_variableValue {vars : Dict} {name : Value} {short : Prop}
    (hvars : short → ∀ entry ∈ vars, entry.2.Writable)
    (hname : short → name.Writable) :
    UnlessLong short Value.Writable (variableValue vars name) := by
  refine (name.unlessLong_toText.mono hname).bind fun name _ => .ok fun hshort => ?_
  rcases hv : Dict.named? vars name with _ | v
  · exact Value.writable_int 1 (by decide) (by decide)
  · exact Dict.of_named? (P := Value.Writable) (hvars hshort) hv

/-- With fewer nodes idle there are fewer types to look at, so the induction follows the nodes that
become busy. -/
theorem unlessLong_evaluateIdle (vars : Dict) (idle : List Node) (slot : Value)
    (h : ∀ n ∈ idle, n.Typed) :
    UnlessLong (Short vars idle) (fun v => slot.Writable → v.Writable)
      (evaluateIdle vars idle slot) := by
  -- a type that is a text can be looked up, and what the operands come to decides
  fun_induction evaluateIdle vars idle slot with
  | case1 => exact .ok fun _ _ => rfl
  | case2 idle id n hn fault htype =>
    obtain ⟨type, ht⟩ := h n (mem_of_findNode? hn)
    rw [ht] at htype
    cases htype
  | case3 => exact .ok fun _ _ => rfl
  | case4 idle id n hn htype ih =>
    refine ((ih (typed_without h id)).mono fun hs => hs.without id).bind fun name hname => ?_
    refine (unlessLong_variableValue Short.vars fun hs => ?_).imp fun v hv _ => hv
    exact hname hs (hs.input hn "name")
  | case5 idle id n hn htype ih =>
    exact ((ih (typed_without h id)).mono fun hs => hs.without id).map fun a _ _ _ => rfl
  | case6 idle id n hn r _ _ htype fault ha ih =>
    have hoperand := (ih (typed_without h id)).mono fun hs : Short vars idle => hs.without id
    rw [ha] at hoperand
    cases hoperand with
    | error hlong => exact .error hlong
  | case7 idle id n hn r _ _ htype a ha fault hb _ ih =>
    have hoperand := (ih (typed_without h id)).mono fun hs : Short vars idle => hs.without id
    rw [hb] at hoperand
    cases hoperand with
    | error hlong => exact .error hlong
  | case8 idle id n hn r _ _ htype a ha b hb iha ihb =>
    have iha := iha (typed_without h id)
    have ihb := ihb (typed_without h id)
    rw [ha] at iha
    rw [hb] at ihb
    have happly := (r.unlessLong_apply a b).mono fun hs : Short vars idle =>
      ⟨iha.of_ok (hs.without id) (hs.input hn "a"), ihb.of_ok (hs.without id) (hs.input hn "b")⟩
    exact happly.imp fun v hv _ => hv
  | case9 => exact .ok fun _ hslot => hslot

/-- **Every slot of a program of checked blocks has a value**, unless a whole number that was handed
over in the variables or in a block has too many digits to be written out. If there is no such number
in the slot either, there is none in the value. -/
theorem unlessLong_evaluate (h : ∀ n ∈ p.nodes, n.Typed) (vars : Dict) (slot : Value) :
    UnlessLong (Short vars p.nodes) (fun v => slot.Writable → v.Writable)
      (p.evaluate vars slot) :=
  unlessLong_evaluateIdle vars p.nodes slot h

end Program

end BlockProgram
