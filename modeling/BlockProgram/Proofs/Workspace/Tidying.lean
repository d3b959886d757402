import BlockProgram.Proofs.Workspace.Removal

/-!
# What pairing and deleting enders leave of a workspace

`Workspace.syncEnders` adds enders, sets their types anew and deletes some. What else there is stays:
every other block with its type and inputs, in order, and behind them what has been added
(`Workspace.Tidied`, `Workspace.tidied_of_ok`).

Where the program starts is read off the outlines (`Workspace.start?_eq`), as no program starts at
an ender that has been added. If no deleted ender was on top of a stack, it starts where it did
(`Workspace.Tidied.start?_eq`).
-/

namespace BlockProgram

open Workspace

/-- What of a block counts for its node: of an ender neither its type nor its data. -/
def Block.outline (b : Block) : String × Value × Option Value :=
  (b.id, b.inputs, if b.closes then none else some b.type)

namespace Block

variable {b b' : Block}

theorem id_of_outline (h : b'.outline = b.outline) : b'.id = b.id := congrArg Prod.fst h

theorem inputs_of_outline (h : b'.outline = b.outline) : b'.inputs = b.inputs :=
  congrArg (·.2.1) h

/-- Blocks with the same outline close the same. -/
theorem closes_of_outline (h : b'.outline = b.outline) : b'.closes = b.closes := by
  have htype : (if b'.closes then none else some b'.type) = if b.closes then none else some b.type :=
    congrArg (·.2.2) h
  rcases hb : b.closes <;> rcases hb' : b'.closes <;> simp [hb, hb'] at htype ⊢

/-- The type of a block that is no ender is in its outline. That of an ender may change. -/
theorem type_of_outline (h : b'.outline = b.outline) (hb : b.closes = false) : b'.type = b.type := by
  have htype : (if b'.closes then none else some b'.type) = if b.closes then none else some b.type :=
    congrArg (·.2.2) h
  rw [closes_of_outline h, hb] at htype
  exact Option.some.inj htype

/-- No ender is a block at which a program starts. -/
theorem isStr_startType_of_closes (h : b.closes = true) : b.type.isStr startType = false := by
  rw [Bool.eq_false_iff]
  intro hstart
  rw [closes, isStr_iff.1 hstart] at h
  revert h
  decide

end Block

namespace Workspace

variable {ws ws' cur next : Workspace} {id : String}

/-! ## Pairing -/

/-- What pairing keeps: the edges, and the outlines of the blocks, with enders added at the end. -/
structure Outlined (ws cur : Workspace) : Prop where
  edges : cur.edges = ws.edges
  palette : cur.palette = ws.palette
  distinct : Distinct cur
  blocks : ∃ added : List Block, (∀ b ∈ added, b.closes = true) ∧
    cur.blocks.map Block.outline = (ws.blocks ++ added).map Block.outline

/-- At the beginning all blocks have the outlines that they have. -/
theorem outlined_refl (h : Distinct ws) : Outlined ws ws :=
  ⟨rfl, rfl, h, [], fun _ hb => absurd hb List.not_mem_nil, by rw [List.append_nil]⟩

/-- Pairing one more block adds an ender or retypes one, so all outlines stay. -/
theorem Outlined.paired {b : Block} (h : Outlined ws cur) (hpaired : Paired cur b next) :
    Outlined ws next := by
  obtain ⟨added, hadded, hblocks⟩ := h.blocks
  refine ⟨hpaired.edges.trans h.edges, ?_, hpaired.distinct h.distinct, ?_⟩
  · cases hpaired <;> exact h.palette
  cases hpaired with
  | none | found => exact ⟨added, hadded, hblocks⟩
  | @retyped ender _ hender =>
    refine ⟨added, hadded, hblocks ▸ ?_⟩
    rw [modifyBlock, List.map_map]
    refine List.map_congr_left fun b' hb' => ?_
    rw [Function.comp]
    split
    · rename_i hid
      obtain ⟨hmem, hfor⟩ := mem_of_enderOf? hender
      obtain rfl := List.inj_on_of_nodup_map h.distinct hb' hmem (beq_iff_eq.1 hid)
      have hcloses := (Block.closesFor_iff.1 hfor).1
      have hcloses' : (cur.retyped b.id b').closes = true := closes_of_type rfl
      rw [Block.outline, Block.outline, hcloses, hcloses']
      rfl
    · rfl
  | @added _ ender _ _ _ htype =>
    refine ⟨added ++ [ender], fun b' hb' => ?_, ?_⟩
    · rcases List.mem_append.1 hb' with hb' | hb'
      · exact hadded b' hb'
      · rw [List.mem_singleton.1 hb']
        exact closes_of_type htype
    · rw [List.map_append, hblocks, ← List.map_append, List.append_assoc]

/-- So they do when all blocks have been paired. -/
theorem outlined_of_ok {blocks : List Block} (h : Outlined ws cur)
    (hpaired : blocks.forM ensureEnder cur = (.ok (), next)) : Outlined ws next := by
  induction blocks generalizing cur with
  | nil =>
    cases hpaired
    exact h
  | cons b rest ih =>
    obtain ⟨⟨⟩, _, hfirst, hrest⟩ := Edit.bind_eq_ok hpaired
    exact ih (h.paired (paired_of_ensureEnder hfirst)) hrest

theorem map_id_of_outline {blocks blocks' : List Block}
    (h : blocks'.map Block.outline = blocks.map Block.outline) :
    blocks'.map (·.id) = blocks.map (·.id) := by
  have hids := congrArg (List.map Prod.fst) h
  rwa [List.map_map, List.map_map] at hids

/-! ## Pairing and deleting -/

/-- A block has been deleted. -/
def Gone (ws ws' : Workspace) (id : String) : Prop := ws.has id = true ∧ ws'.has id = false

/-- The ends of the stack edges around deleted blocks have ids that are not empty. -/
def NamedAroundGone (ws ws' : Workspace) : Prop :=
  ∀ link ∈ stackLinks ws.edges, Gone ws ws' link.1 ∨ Gone ws ws' link.2 →
    link.1 ≠ "" ∧ link.2 ≠ ""

/-- What enders that are added, set anew and deleted leave of a workspace. -/
structure Tidied (ws ws' : Workspace) : Prop where
  palette : ws'.palette = ws.palette
  blocks : ∃ added : List Block, (∀ b ∈ added, b.closes = true) ∧
    ((ws.blocks ++ added).map (·.id)).Nodup ∧
    ws'.blocks.map Block.outline =
      ((ws.blocks ++ added).map Block.outline).filter fun o => ws'.has o.1
  gone : ∀ b ∈ ws.blocks, Gone ws ws' b.id → b.closes = true
  left : NamedAroundGone ws ws' → Left ws (Gone ws ws') ws'
  empty : ws.blocks = [] → ws'.blocks = []

theorem palette_deleteAll (gone : List Block) : (ws.deleteAll gone).palette = ws.palette := by
  induction gone generalizing ws with
  | nil => rfl
  | cons b rest ih =>
    refine (@ih (ws.deleteBlock b.id).2).trans ?_
    rcases deleteBlock_cases ws b.id with hsame | hgone | ⟨above, below, -, -, hjoined⟩
    · rw [hsame]
    · rw [hgone]
      rfl
    · rw [hjoined]
      rfl

/-- What pairing has left: the links as they were, as an ender is added without any. -/
theorem left_paired (h : WellFormed ws) (hsame : Outlined ws cur)
    (hhas : ∀ id, ws.has id = true → cur.has id = true) {gone : String → Prop}
    (hnamed : ∀ link ∈ stackLinks ws.edges, gone link.1 ∨ gone link.2 → link.1 ≠ "" ∧ link.2 ≠ "") :
    Left ws gone cur := by
  have hsuccessor (id : String) : cur.successor? id = ws.successor? id := by
    rw [successor?, target?, hsame.edges]
    rfl
  have hpredecessor (id : String) : cur.predecessor? id = ws.predecessor? id := by
    rw [predecessor?, hsame.edges]
    rfl
  refine ⟨h.keep hsame.edges hhas, ?_, fun id _ => ?_, ?_, fun _ id _ => by rw [hpredecessor]⟩
  · rwa [hsame.edges]
  · rw [hsuccessor]
    exact .here
  · rw [hsame.edges]
    refine (List.filter_eq_self.2 fun e he => ?_).symm
    obtain ⟨hsource, htarget⟩ := h.ends e (List.mem_filter.1 he).1
    rw [hhas _ hsource, hhas _ htarget]
    rfl

/-- **What a call leaves of a workspace**, if it does not fail. -/
theorem tidied_of_ok {n : Nat} (h : WellFormed ws) (hdistinct : Distinct ws)
    (hsync : syncEnders ws = (.ok n, ws')) : Tidied ws ws' := by
  obtain ⟨ws₁, hforM, -, -, rfl⟩ := syncEnders_ok hsync
  have hsame := outlined_of_ok (outlined_refl hdistinct) hforM
  have hall := pairedAll_of_ok hdistinct hforM
  obtain ⟨added, hadded, hblocks⟩ := hsame.blocks
  -- what is deleted was there before and is an ender
  have horphan (b : Block) (hb : b ∈ ws₁.orphans) : b ∈ ws.blocks ∧ b.closes = true ∧
      Gone ws (ws₁.deleteAll ws₁.orphans) b.id := by
    obtain ⟨hmem, horphaned⟩ := List.mem_filter.1 (hall.orphan b hb)
    refine ⟨hmem, (Bool.and_eq_true_iff.1 horphaned).1, has_of_mem hmem, ?_⟩
    have hdeleted : ws₁.orphans.any (·.id == b.id) = true :=
      List.any_eq_true.2 ⟨b, hb, beq_self_eq_true _⟩
    rw [has_deleteAll, hdeleted, Bool.not_true, Bool.and_false]
  refine ⟨(palette_deleteAll _).trans hsame.palette, ⟨added, hadded, ?_, ?_⟩, fun b hb hgone => ?_,
    fun hnamed => ?_, fun hempty => ?_⟩
  · rw [← map_id_of_outline hblocks]
    exact hsame.distinct
  · rw [← hblocks, List.filter_map, blocks_deleteAll]
    refine congrArg _ (List.filter_congr fun b hb => ?_)
    rw [Function.comp, Block.outline, has_deleteAll, has_of_mem hb, Bool.true_and]
  · obtain ⟨hknown, hdeleted⟩ := hgone
    rw [has_deleteAll, hall.has _ hknown, Bool.true_and, Bool.not_eq_false'] at hdeleted
    obtain ⟨b', hb', hid⟩ := List.any_eq_true.1 hdeleted
    obtain ⟨hmem, hcloses, -⟩ := horphan b' hb'
    obtain rfl := List.inj_on_of_nodup_map hdistinct hmem hb (beq_iff_eq.1 hid)
    exact hcloses
  · refine left_deleteAll (left_paired h hsame hall.has hnamed) fun b hb => ?_
    obtain ⟨hmem, hcloses, hgone⟩ := horphan b hb
    exact ⟨hgone, b, block?_of_mem hdistinct hmem, hcloses⟩
  · rw [hempty] at hforM
    cases hforM
    rw [blocks_deleteAll, hempty, List.filter_nil]

/-! ## Looking up a block -/

/-- Tending the enders keeps ids distinct. -/
theorem Tidied.distinct (h : Tidied ws ws') : Distinct ws' := by
  obtain ⟨added, -, hids, hblocks⟩ := h.blocks
  have hfirst (blocks : List Block) :
      blocks.map (·.id) = (blocks.map Block.outline).map Prod.fst := by
    rw [List.map_map]
    rfl
  rw [hfirst] at hids
  rw [Distinct, hfirst, hblocks]
  exact hids.sublist (List.filter_sublist.map _)

/-- **Every block that is there afterwards has the outline of one from before, or is a new
ender.** -/
theorem Tidied.exists_outline (h : Tidied ws ws') {b' : Block} (hb' : ws'.block? id = some b') :
    (∃ b, ws.block? id = some b ∧ b'.outline = b.outline) ∨
      (ws.block? id = none ∧ b'.closes = true) := by
  obtain ⟨added, hadded, hids, hblocks⟩ := h.blocks
  have hmem : b'.outline ∈ ws'.blocks.map Block.outline :=
    List.mem_map_of_mem (List.mem_of_find?_eq_some hb')
  rw [hblocks] at hmem
  obtain ⟨b, hb, houtline⟩ := List.mem_map.1 (List.mem_filter.1 hmem).1
  have hid : b.id = id := (Block.id_of_outline houtline).trans (block?_id hb')
  rw [List.map_append, List.nodup_append] at hids
  rcases List.mem_append.1 hb with hb | hb
  · refine .inl ⟨b, ?_, houtline.symm⟩
    rw [← hid]
    exact block?_of_mem hids.1 hb
  · refine .inr ⟨?_, (Block.closes_of_outline houtline).symm.trans (hadded b hb)⟩
    rw [block?, List.find?_eq_none]
    intro b₀ hb₀ hid₀
    have hsame : b₀.id = b.id := (beq_iff_eq.1 hid₀).trans hid.symm
    exact hids.2.2 _ (List.mem_map_of_mem hb₀) _ (List.mem_map_of_mem hb) hsame

/-- A block that is there before and after. -/
theorem Tidied.outline_eq (h : Tidied ws ws') {b b' : Block} (hb : ws.block? id = some b)
    (hb' : ws'.block? id = some b') : b'.outline = b.outline := by
  rcases h.exists_outline hb' with ⟨b₀, hb₀, houtline⟩ | ⟨hnone, -⟩
  · obtain rfl := Option.some.inj (hb.symm.trans hb₀)
    exact houtline
  · cases hb.symm.trans hnone

/-! ## Where the program starts -/

/-- The first of some outlines at which a program may start. -/
def firstStart (outlines : List (String × Value × Option Value)) : Option String :=
  ((outlines.find? fun o => o.2.2.any (·.isStr startType)).or outlines.head?).map (·.1)

/-- Which block a program starts with can be told from the outlines of those that nothing leads
to. -/
theorem start?_eq (ws : Workspace) : ws.start? =
    firstStart ((ws.blocks.map Block.outline).filter fun o => (ws.predecessor? o.1).isNone) := by
  have hstart : ((fun o : String × Value × Option Value => o.2.2.any (·.isStr startType)) ∘
      Block.outline) = fun b => b.type.isStr startType := by
    funext b
    rw [Function.comp, Block.outline]
    rcases hcloses : b.closes with _ | _
    · rfl
    · exact (Block.isStr_startType_of_closes hcloses).symm
  rw [List.filter_map, firstStart, List.find?_map, List.head?_map, hstart, start?, tops]
  rw [Option.map_or, Option.map_or, Option.map_map, Option.map_map]
  rfl

/-- New enders, which start nothing, change nothing in that. -/
theorem firstStart_append {outlines added : List (String × Value × Option Value)}
    (hne : outlines ≠ []) (hadded : ∀ o ∈ added, o.2.2 = none) :
    firstStart (outlines ++ added) = firstStart outlines := by
  have hnone : (added.find? fun o => o.2.2.any (·.isStr startType)) = none := by
    rw [List.find?_eq_none]
    intro o ho hstart
    rw [hadded o ho] at hstart
    cases hstart
  rw [firstStart, List.find?_append, hnone, Option.or_none, List.head?_append_of_ne_nil _ hne,
    firstStart]

/-- **The program starts where it did** if no deleted ender was on top of a stack. -/
theorem Tidied.start?_eq (h : Tidied ws ws') (hws : WellFormed ws)
    (hleft : Left ws (Gone ws ws') ws')
    (htop : ∀ id, Gone ws ws' id → ws.predecessor? id ≠ none) : ws'.start? = ws.start? := by
  by_cases hempty : ws.blocks = []
  · rw [start?, start?, tops, tops, h.empty hempty, hempty]
    rfl
  obtain ⟨added, hadded, -, hblocks⟩ := h.blocks
  rw [Workspace.start?_eq, Workspace.start?_eq, hblocks, List.filter_filter, List.map_append,
    List.filter_append]
  have hsame : ((ws.blocks.map Block.outline).filter fun o =>
      (ws'.predecessor? o.1).isNone && ws'.has o.1) =
      (ws.blocks.map Block.outline).filter fun o => (ws.predecessor? o.1).isNone := by
    refine List.filter_congr fun o ho => ?_
    obtain ⟨b, hb, rfl⟩ := List.mem_map.1 ho
    have hknown : ws.has b.id = true := has_of_mem hb
    rw [Block.outline, Bool.eq_iff_iff, Bool.and_eq_true, Option.isNone_iff_eq_none,
      Option.isNone_iff_eq_none]
    constructor
    · rintro ⟨hnone, hkept⟩
      exact (hleft.top htop b.id hkept).1 hnone
    · intro hnone
      have hkept : ws'.has b.id = true := by
        by_contra hgone
        exact htop b.id ⟨hknown, Bool.eq_false_iff.2 hgone⟩ hnone
      exact ⟨(hleft.top htop b.id hkept).2 hnone, hkept⟩
  rw [hsame]
  refine firstStart_append ?_ fun o ho => ?_
  · obtain ⟨b, hb, hnone⟩ := exists_top hws hempty
    refine List.ne_nil_of_mem (List.mem_filter.2 ⟨List.mem_map_of_mem hb, ?_⟩)
    rw [Block.outline, hnone]
    rfl
  · obtain ⟨b, hb, rfl⟩ := List.mem_map.1 (List.mem_filter.1 ho).1
    rw [Block.outline, hadded b hb]
    rfl

end Workspace

end BlockProgram
