import BlockProgram.Proofs.Workspace.Compiled
import BlockProgram.Proofs.Workspace.Pairing

/-!
# Stacks around deleted blocks

Deleting a block joins the stack around it: what comes before it is followed by what came after it
(`Workspace.mem_stackLinks_deleteBlock`). All other edges that touch it go.

So after some enders have been deleted, one after the other, each block is followed by the one that
followed it before, or by one that stood behind it with nothing but enders in between
(`Workspace.Skips`, `Workspace.left_deleteAll`). This takes that no end of a stack edge around them
has an empty id, as such an end stays open.
-/

namespace BlockProgram

open Relation

namespace Workspace

variable {ws ws' cur : Workspace} {id d x y : String}

/-! ## Stack links -/

theorem successor?_iff (h : WellFormed ws) :
    ws.successor? x = some y ↔ (x, y) ∈ stackLinks ws.edges := by
  rw [mem_stackLinks, successor?, target?, Option.map_eq_some_iff]
  constructor
  · rintro ⟨e, he, rfl⟩
    have hends := List.find?_some he
    rw [Bool.and_eq_true, beq_iff_eq, beq_iff_eq] at hends
    exact ⟨e, List.mem_of_find?_eq_some he, hends.1, hends.2, rfl⟩
  · rintro ⟨e, he, hkind, hsource, rfl⟩
    exact ⟨e, find?_of_single (h.successor x) he (by simp [hkind, hsource]), rfl⟩

theorem predecessor?_iff (h : WellFormed ws) :
    ws.predecessor? y = some x ↔ (x, y) ∈ stackLinks ws.edges := by
  rw [mem_stackLinks, predecessor?, Option.map_eq_some_iff]
  constructor
  · rintro ⟨e, he, rfl⟩
    have hends := List.find?_some he
    rw [Bool.and_eq_true, beq_iff_eq, beq_iff_eq] at hends
    exact ⟨e, List.mem_of_find?_eq_some he, hends.1, rfl, hends.2⟩
  · rintro ⟨e, he, hkind, rfl, htarget⟩
    exact ⟨e, find?_of_single (h.predecessor y) he (by simp [hkind, htarget]), rfl⟩

theorem joins_of_mem_stackLinks {edges : List Edge} (h : (x, y) ∈ stackLinks edges) :
    Joins edges x y := by
  obtain ⟨e, he, -, hsource, htarget⟩ := mem_stackLinks.1 h
  exact ⟨e, he, hsource, htarget⟩

/-- Only one block follows another in a stack. -/
theorem eq_below (h : WellFormed ws) {z : String} (hy : (x, y) ∈ stackLinks ws.edges)
    (hz : (x, z) ∈ stackLinks ws.edges) : y = z := by
  rw [← successor?_iff h] at hy hz
  exact Option.some.inj (hy.symm.trans hz)

/-- Only one block comes before another in a stack. -/
theorem eq_above (h : WellFormed ws) {z : String} (hx : (x, y) ∈ stackLinks ws.edges)
    (hz : (z, y) ∈ stackLinks ws.edges) : x = z := by
  rw [← predecessor?_iff h] at hx hz
  exact Option.some.inj (hx.symm.trans hz)

/-- No block follows itself in a stack. -/
theorem ne_of_mem_stackLinks (h : WellFormed ws) (hlink : (x, y) ∈ stackLinks ws.edges) : x ≠ y := by
  rintro rfl
  exact h.acyclic _ (.single (joins_of_mem_stackLinks hlink))

theorem mem_stackLinks_lacking : (x, y) ∈ stackLinks (ws.lacking d).edges ↔
    (x, y) ∈ stackLinks ws.edges ∧ x ≠ d ∧ y ≠ d := by
  rw [mem_stackLinks, mem_stackLinks, edges_lacking]
  constructor
  · rintro ⟨e, he, hkind, rfl, rfl⟩
    obtain ⟨hmem, haway⟩ := List.mem_filter.1 he
    simp only [Edge.touches, Bool.not_or, Bool.and_eq_true, Bool.not_eq_true', beq_eq_false_iff_ne]
      at haway
    exact ⟨⟨e, hmem, hkind, rfl, rfl⟩, haway⟩
  · rintro ⟨⟨e, he, hkind, rfl, rfl⟩, hsource, htarget⟩
    refine ⟨e, List.mem_filter.2 ⟨he, ?_⟩, hkind, rfl, rfl⟩
    simp [Edge.touches, hsource, htarget]

theorem deleteBlock_eq (h : ws.has d = true) : (ws.deleteBlock d).2 =
    (ws.lacking d).splice (ws.predecessor? d) (ws.successor? d) := by
  rw [deleteBlock, if_pos h]
  rfl

/-- The ends of the stack edges around a block have ids that are not empty. -/
def NamedAround (ws : Workspace) (d : String) : Prop :=
  ∀ link ∈ stackLinks ws.edges, link.1 = d ∨ link.2 = d → link.1 ≠ "" ∧ link.2 ≠ ""

/-- A block between two others of which one has an empty id. When it is deleted, its stack stays
open. -/
def StaysOpen (ws : Workspace) (d : String) : Prop :=
  ∃ above below, ws.predecessor? d = some above ∧ ws.successor? d = some below ∧
    (above = "" ∨ below = "")

theorem NamedAround.not_staysOpen (h : WellFormed ws) (hnamed : ws.NamedAround d) :
    ¬ ws.StaysOpen d := by
  rintro ⟨above, below, habove, hbelow, hempty | hempty⟩
  · exact (hnamed _ ((predecessor?_iff h).1 habove) (.inr rfl)).1 hempty
  · exact (hnamed _ ((successor?_iff h).1 hbelow) (.inl rfl)).2 hempty

/-- Two ends are joined unless one of them has an empty id. -/
theorem splice_some {above below : String} (habove : above ≠ "") (hbelow : below ≠ "") :
    ws.splice (some above) (some below) =
      ws.replaceEdges (rivalsStack above below) (.stack above below) := by
  have hopen : (above.isEmpty || below.isEmpty) = false := by
    simp [habove, hbelow]
  rw [splice, hopen]
  rfl

theorem mem_stackLinks_join {above below : String} :
    (x, y) ∈ stackLinks (ws.replaceEdges (rivalsStack above below) (.stack above below)).edges ↔
      (x = above ∧ y = below) ∨ ((x, y) ∈ stackLinks ws.edges ∧ x ≠ above ∧ y ≠ below) := by
  change (x, y) ∈ stackLinks (ws.edges.filter _ ++ [_]) ↔ _
  rw [stackLinks_append, List.mem_append, or_comm]
  refine or_congr (by simp [stackLinks, Edge.stack]) ?_
  constructor
  · intro hlink
    obtain ⟨e, he, hkind, rfl, rfl⟩ := mem_stackLinks.1 hlink
    obtain ⟨hmem, hstays⟩ := List.mem_filter.1 he
    have hstays : e.source ≠ above ∧ e.target ≠ below := by
      simpa [rivalsStack, hkind] using hstays
    exact ⟨mem_stackLinks.2 ⟨e, hmem, hkind, rfl, rfl⟩, hstays⟩
  · rintro ⟨hlink, hsource, htarget⟩
    obtain ⟨e, he, hkind, rfl, rfl⟩ := mem_stackLinks.1 hlink
    refine mem_stackLinks.2 ⟨e, List.mem_filter.2 ⟨he, ?_⟩, hkind, rfl, rfl⟩
    simp [rivalsStack, hsource, htarget]

/-- **The stacks when a block is deleted** are as before, but joined around the block. -/
theorem mem_stackLinks_deleteBlock (h : WellFormed ws) (hd : ws.has d = true)
    (hclosed : ¬ ws.StaysOpen d) : (x, y) ∈ stackLinks (ws.deleteBlock d).2.edges ↔
      x ≠ d ∧ y ≠ d ∧ ((x, y) ∈ stackLinks ws.edges ∨
        (x, d) ∈ stackLinks ws.edges ∧ (d, y) ∈ stackLinks ws.edges) := by
  rw [deleteBlock_eq hd]
  rcases habove : ws.predecessor? d with _ | above
  · have hnone : (x, d) ∉ stackLinks ws.edges := by
      rw [← predecessor?_iff h, habove]
      rintro ⟨⟩
    change (x, y) ∈ stackLinks (ws.lacking d).edges ↔ _
    rw [mem_stackLinks_lacking]
    tauto
  rcases hbelow : ws.successor? d with _ | below
  · have hnone : (d, y) ∉ stackLinks ws.edges := by
      rw [← successor?_iff h, hbelow]
      rintro ⟨⟩
    change (x, y) ∈ stackLinks (ws.lacking d).edges ↔ _
    rw [mem_stackLinks_lacking]
    tauto
  have hin : (above, d) ∈ stackLinks ws.edges := (predecessor?_iff h).1 habove
  have hout : (d, below) ∈ stackLinks ws.edges := (successor?_iff h).1 hbelow
  have hnamed : above ≠ "" ∧ below ≠ "" := by
    refine ⟨fun hempty => hclosed ?_, fun hempty => hclosed ?_⟩
    · exact ⟨above, below, habove, hbelow, .inl hempty⟩
    · exact ⟨above, below, habove, hbelow, .inr hempty⟩
  rw [splice_some hnamed.1 hnamed.2, mem_stackLinks_join, mem_stackLinks_lacking]
  -- the block is the only one below the one end and above the other
  have habove' : (x, d) ∈ stackLinks ws.edges ↔ x = above := by
    rw [← predecessor?_iff h, habove, Option.some.injEq, eq_comm]
  have hbelow' : (d, y) ∈ stackLinks ws.edges ↔ y = below := by
    rw [← successor?_iff h, hbelow, Option.some.injEq, eq_comm]
  rw [habove', hbelow']
  constructor
  · rintro (⟨rfl, rfl⟩ | ⟨⟨hlink, hx, hy⟩, -, -⟩)
    · exact ⟨ne_of_mem_stackLinks h hin, (ne_of_mem_stackLinks h hout).symm, .inr ⟨rfl, rfl⟩⟩
    · exact ⟨hx, hy, .inl hlink⟩
  · rintro ⟨hx, hy, hlink | hjoined⟩
    · refine .inr ⟨⟨hlink, hx, hy⟩, ?_, ?_⟩
      · rintro rfl
        exact hy (eq_below h hlink hin)
      · rintro rfl
        exact hx (eq_above h hlink hout)
    · exact .inl hjoined

/-- What follows a block when another is deleted. -/
theorem successor?_deleteBlock (h : WellFormed ws) (hd : ws.has d = true)
    (hclosed : ¬ ws.StaysOpen d) (hx : x ≠ d) : (ws.deleteBlock d).2.successor? x =
      if ws.successor? x = some d then ws.successor? d else ws.successor? x := by
  refine Option.ext fun y => ?_
  rw [successor?_iff (h.delete d), mem_stackLinks_deleteBlock h hd hclosed, ← successor?_iff h,
    ← successor?_iff h, ← successor?_iff h]
  split
  · rename_i hbefore
    have haway : ws.successor? d ≠ some d := by
      intro hself
      exact ne_of_mem_stackLinks h ((successor?_iff h).1 hself) rfl
    rw [hbefore]
    constructor
    · rintro ⟨-, hy, heq | ⟨-, hafter⟩⟩
      · exact absurd (Option.some.inj heq).symm hy
      · exact hafter
    · intro hafter
      refine ⟨hx, ?_, .inr ⟨rfl, hafter⟩⟩
      rintro rfl
      exact haway hafter
  · rename_i hother
    constructor
    · rintro ⟨-, -, hafter | ⟨hbefore, -⟩⟩
      · exact hafter
      · exact absurd hbefore hother
    · intro hafter
      refine ⟨hx, ?_, .inl hafter⟩
      rintro rfl
      exact hother hafter

/-- A block that another one stands on has one above it when a third block is deleted that had one
above it, too. -/
theorem predecessor?_deleteBlock_eq_none (h : WellFormed ws) (hd : ws.has d = true)
    (hclosed : ¬ ws.StaysOpen d) (htop : ws.predecessor? d ≠ none) (hx : x ≠ d) :
    (ws.deleteBlock d).2.predecessor? x = none ↔ ws.predecessor? x = none := by
  rw [Option.eq_none_iff_forall_ne_some, Option.eq_none_iff_forall_ne_some]
  constructor
  · intro hnone above habove
    rw [predecessor?_iff h] at habove
    by_cases haway : above = d
    · subst haway
      obtain ⟨first, hfirst⟩ := Option.ne_none_iff_exists'.1 htop
      have hin := (predecessor?_iff h).1 hfirst
      refine hnone first ((predecessor?_iff (h.delete above)).2 ?_)
      rw [mem_stackLinks_deleteBlock h hd hclosed]
      exact ⟨ne_of_mem_stackLinks h hin, hx, .inr ⟨hin, habove⟩⟩
    · refine hnone above ((predecessor?_iff (h.delete d)).2 ?_)
      rw [mem_stackLinks_deleteBlock h hd hclosed]
      exact ⟨haway, hx, .inl habove⟩
  · intro hnone above habove
    rw [predecessor?_iff (h.delete d), mem_stackLinks_deleteBlock h hd hclosed] at habove
    obtain ⟨-, -, hlink | ⟨-, hlink⟩⟩ := habove
    · exact hnone above ((predecessor?_iff h).2 hlink)
    · exact hnone d ((predecessor?_iff h).2 hlink)

/-! ## Other edges -/

/-- Edges that are not part of a stack stay unless they touch the block. -/
theorem others_deleteBlock (hd : ws.has d = true) :
    (ws.deleteBlock d).2.edges.filter (·.kind != .stack) =
      (ws.edges.filter (·.kind != .stack)).filter fun e => !e.touches d := by
  have hlacking : (ws.lacking d).edges.filter (·.kind != .stack) =
      (ws.edges.filter (·.kind != .stack)).filter fun e => !e.touches d := by
    rw [edges_lacking, List.filter_comm]
  rw [deleteBlock_eq hd, ← hlacking]
  rcases ws.predecessor? d with _ | above
  · rfl
  rcases ws.successor? d with _ | below
  · rfl
  rw [splice]
  split
  · rfl
  · change ((ws.lacking d).edges.filter _ ++ [_]).filter _ = _
    rw [List.filter_append, List.filter_filter]
    refine (List.append_nil _).trans (List.filter_congr fun e _ => ?_)
    rcases hkind : e.kind <;> simp [rivalsStack, hkind]

/-! ## Deleting enders -/

variable (ws) in
/-- A place in a stack, and one that is reached from it through nothing but enders. -/
inductive Skips : Option String → Option String → Prop
  | here {place : Option String} : Skips place place
  | past {id : String} {b : Block} {place : Option String} :
    ws.block? id = some b → b.closes = true → Skips (ws.successor? id) place →
    Skips (some id) place

theorem Skips.trans {a b c : Option String} (h : ws.Skips a b) (h' : ws.Skips b c) :
    ws.Skips a c := by
  induction h with
  | here => exact h'
  | past hb hcloses _ ih => exact .past hb hcloses (ih h')

/-- What is left of a workspace when some of the blocks that are to go have been deleted, all of them
enders: where a block was followed by some of them, it is followed by what stood behind them, and of
the other edges those are left that join blocks that are left. -/
structure Left (ws : Workspace) (gone : String → Prop) (cur : Workspace) : Prop where
  wellFormed : WellFormed cur
  named : ∀ link ∈ stackLinks cur.edges, gone link.1 ∨ gone link.2 → link.1 ≠ "" ∧ link.2 ≠ ""
  successor : ∀ id, cur.has id = true → ws.Skips (ws.successor? id) (cur.successor? id)
  others : cur.edges.filter (·.kind != .stack) =
    (ws.edges.filter (·.kind != .stack)).filter fun e => cur.has e.source && cur.has e.target
  /-- no block gets on top of a stack if none that is to go was on top of one -/
  top : (∀ id, gone id → ws.predecessor? id ≠ none) → ∀ id, cur.has id = true →
    (cur.predecessor? id = none ↔ ws.predecessor? id = none)

theorem any_id_filter (blocks : List Block) (keep : String → Bool) (id : String) :
    (blocks.filter fun b => keep b.id).any (·.id == id) = (blocks.any (·.id == id) && keep id) := by
  rw [List.any_filter, Bool.eq_iff_iff, Bool.and_eq_true, List.any_eq_true, List.any_eq_true]
  constructor
  · rintro ⟨b, hb, hid⟩
    obtain ⟨hkeep, hid⟩ := Bool.and_eq_true_iff.1 hid
    obtain rfl := beq_iff_eq.1 hid
    exact ⟨⟨b, hb, hid⟩, hkeep⟩
  · rintro ⟨⟨b, hb, hid⟩, hkeep⟩
    obtain rfl := beq_iff_eq.1 hid
    exact ⟨b, hb, Bool.and_eq_true_iff.2 ⟨hkeep, hid⟩⟩

theorem has_deleteBlock (ws : Workspace) (d id : String) :
    (ws.deleteBlock d).2.has id = (ws.has id && id != d) := by
  rw [has, blocks_deleteBlock, any_id_filter ws.blocks (· != d), has]

theorem has_deleteAll (ws : Workspace) (gone : List Block) (id : String) :
    (ws.deleteAll gone).has id = (ws.has id && !gone.any (·.id == id)) := by
  rw [has, blocks_deleteAll, any_id_filter ws.blocks fun id => !gone.any (·.id == id), has]

theorem Left.namedAround {gone : String → Prop} (h : Left ws gone cur) (hgone : gone d) :
    cur.NamedAround d := by
  rintro link hlink (rfl | rfl)
  · exact h.named link hlink (.inl hgone)
  · exact h.named link hlink (.inr hgone)

/-- **One more ender is deleted.** -/
theorem Left.delete {gone : String → Prop} (h : Left ws gone cur) (hgone : gone d) {b : Block}
    (hb : ws.block? d = some b) (hcloses : b.closes = true) :
    Left ws gone (cur.deleteBlock d).2 := by
  by_cases hd : cur.has d = true
  swap
  · rw [deleteBlock, if_neg hd]
    exact h
  have hwellFormed := h.wellFormed
  have hnamed := h.namedAround hgone
  have hclosed := hnamed.not_staysOpen hwellFormed
  have hstays {id : String} (hid : (cur.deleteBlock d).2.has id = true) :
      cur.has id = true ∧ id ≠ d := by
    rwa [has_deleteBlock, Bool.and_eq_true, bne_iff_ne] at hid
  refine ⟨hwellFormed.delete d, ?_, fun id hid => ?_, ?_, fun htop id hid => ?_⟩
  · rintro ⟨x, y⟩ hlink hends
    rw [mem_stackLinks_deleteBlock hwellFormed hd hclosed] at hlink
    obtain ⟨-, -, hlink | ⟨hin, hout⟩⟩ := hlink
    · exact h.named _ hlink hends
    · exact ⟨(hnamed _ hin (.inr rfl)).1, (hnamed _ hout (.inl rfl)).2⟩
  · obtain ⟨hknown, haway⟩ := hstays hid
    rw [successor?_deleteBlock hwellFormed hd hclosed haway]
    split
    · -- the way on leads past the block that is deleted
      rename_i hbefore
      have hskips := h.successor id hknown
      rw [hbefore] at hskips
      exact hskips.trans (.past hb hcloses (h.successor d hd))
    · exact h.successor id hknown
  · rw [others_deleteBlock hd, h.others, List.filter_filter]
    refine List.filter_congr fun e _ => ?_
    rw [has_deleteBlock, has_deleteBlock, Edge.touches, bne, bne]
    cases cur.has e.source <;> cases cur.has e.target <;> cases e.source == d <;> simp
  · obtain ⟨hknown, haway⟩ := hstays hid
    have htop' : cur.predecessor? d ≠ none := by
      rw [Ne, h.top htop d hd]
      exact htop d hgone
    rw [predecessor?_deleteBlock_eq_none hwellFormed hd hclosed htop' haway]
    exact h.top htop id hknown

/-- **What is left when enders have been deleted**, one after the other. -/
theorem left_deleteAll {gone : String → Prop} (h : Left ws gone cur) {blocks : List Block}
    (hblocks : ∀ b ∈ blocks, gone b.id ∧ ∃ b', ws.block? b.id = some b' ∧ b'.closes = true) :
    Left ws gone (cur.deleteAll blocks) := by
  induction blocks generalizing cur with
  | nil => exact h
  | cons b rest ih =>
    obtain ⟨hgone, b', hb', hcloses⟩ := hblocks b List.mem_cons_self
    exact ih (h.delete hgone hb' hcloses) fun b hb => hblocks b (List.mem_cons_of_mem _ hb)

/-! ## Blocks on top of a stack -/

/-- **Where there are blocks, one of them is on top of a stack.** -/
theorem exists_top (h : WellFormed ws) (hblocks : ws.blocks ≠ []) :
    ∃ b ∈ ws.blocks, ws.predecessor? b.id = none := by
  by_contra hall
  obtain ⟨b, hb⟩ := List.exists_mem_of_ne_nil _ hblocks
  obtain ⟨id, hid, hfirst⟩ := h.acyclic.wellFounded.has_min { id | id ∈ ws.blocks.map (·.id) }
    ⟨b.id, List.mem_map_of_mem hb⟩
  obtain ⟨b', hb', rfl⟩ := List.mem_map.1 hid
  rcases habove : ws.predecessor? b'.id with _ | above
  · exact hall ⟨b', hb', habove⟩
  -- what comes before the first block is a block before it
  have hin := joins_predecessor? habove
  have hknown : above ∈ ws.blocks.map (·.id) := by
    obtain ⟨e, he, rfl, -⟩ := hin
    obtain ⟨b'', hb'', hid''⟩ := List.any_eq_true.1 (h.ends e he).1
    exact List.mem_map.2 ⟨b'', hb'', beq_iff_eq.1 hid''⟩
  exact hfirst above hknown hin

end Workspace

end BlockProgram
