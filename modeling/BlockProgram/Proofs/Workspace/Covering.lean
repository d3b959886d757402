import BlockProgram.Proofs.Workspace.Settling
import BlockProgram.Proofs.Workspace.Splicing
import BlockProgram.Proofs.Workspace.Tidying
import Mathlib.Data.List.Chain

/-!
# What pairing adds and removes

`Workspace.syncEnders` covers every owner and touches nothing else (`Workspace.syncEnders_covers`).

* While the blocks are paired one after the other, an ender is added for each owner that had none,
  in the order of the owners, and for no other (`Workspace.Grown`). An owner that has not been paired
  yet has an ender exactly if it had one before, as an ender has only one owner.
* While the orphans are deleted one after the other, the edges that are left are those between
  blocks that are left, in order, and behind them edges that close gaps (`Workspace.Mended`). Such an
  edge may lead to another orphan, so the gap that a closing edge spans is read as a chain of the
  edges before.
-/

namespace BlockProgram

open Workspace

/-- The types that ask for an ender. -/
def ownerTypes : List String := ["if_else", "repeat_times", "repeat_until"]

/-- Whether a block asks for an ender. -/
def Block.owns (b : Block) : Bool := b.type.str?.any ownerTypes.contains

namespace Workspace

variable {ws ws' cur next : Workspace} {done : List Block} {b : Block} {d x y : String}

theorem owns_iff : b.owns = true ↔ ∃ k, pairing? b.type = .ok (some k) := by
  rw [Block.owns, Option.any_eq_true]
  constructor
  · rintro ⟨type, htype, hmem⟩
    rw [Request.eq_str_of_str? htype]
    rw [List.contains_iff_mem, ownerTypes] at hmem
    rcases List.mem_cons.1 hmem with rfl | hmem
    · exact ⟨.branches, rfl⟩
    rcases List.mem_cons.1 hmem with rfl | hmem
    · exact ⟨.loop, rfl⟩
    · obtain rfl := List.mem_singleton.1 hmem
      exact ⟨.loop, rfl⟩
  · rintro ⟨k, hk⟩
    rw [pairing?] at hk
    split at hk
    · rename_i htype
      rw [Block.isStr_iff.1 htype]
      exact ⟨_, rfl, rfl⟩
    split at hk
    · rename_i htype
      rcases Bool.or_eq_true _ _ ▸ htype with htype | htype
      all_goals
        rw [Block.isStr_iff.1 htype]
        exact ⟨_, rfl, rfl⟩
    · rcases hkey : Fault.needKey b.type with fault | value <;> rw [hkey] at hk <;> cases hk

/-! ## Enders that are added -/

/-- The owners among some blocks that have no ender. -/
def unpaired (ws : Workspace) (blocks : List Block) : List Block :=
  blocks.filter fun b => b.owns && (ws.enderOf? b.id).isNone

/-- What there is when some of the blocks have been paired. -/
structure Grown (ws : Workspace) (done : List Block) (cur : Workspace) : Prop where
  distinct : Distinct cur
  /-- all blocks but enders are as they were -/
  others : cur.blocks.filter (!·.closes) = ws.blocks.filter (!·.closes)
  /-- enders that can be read could be read before -/
  legible : (∀ b ∈ cur.blocks, b.Legible) → ∀ b ∈ ws.blocks, b.Legible
  /-- an owner that is still to be paired has an ender if it had one -/
  ender : ∀ owner ∉ done.map (·.id), (cur.enderOf? owner).isSome = (ws.enderOf? owner).isSome
  /-- behind the blocks stand the enders of the owners that had none -/
  blocks : ∃ kept added, cur.blocks = kept ++ added ∧ kept.map (·.id) = ws.blocks.map (·.id) ∧
    (∀ e ∈ added, e.closes = true) ∧
    added.map Block.partner? = (ws.unpaired done).map fun b => some (.str b.id)

theorem grown_refl (h : Distinct ws) : Grown ws [] ws :=
  ⟨h, rfl, id, fun _ _ => rfl, ws.blocks, [], (List.append_nil _).symm, rfl,
    fun _ he => absurd he List.not_mem_nil, rfl⟩

/-- An ender that is found for an owner can be read. -/
theorem legible_of_closesFor {owner : String} (h : b.closesFor owner = true) : b.Legible := by
  obtain ⟨hcloses, hpartner⟩ := Block.closesFor_iff.1 h
  rw [Block.closes, Option.any_eq_true] at hcloses
  obtain ⟨type, htype, -⟩ := hcloses
  obtain ⟨entries, hentries, -⟩ := Option.bind_eq_some_iff.1 hpartner
  refine ⟨⟨type, Request.eq_str_of_str? htype⟩, fun _ => ⟨entries, Value.eq_dict_of_dict? hentries⟩,
    fun _ named hnamed _ => ?_⟩
  cases hpartner.symm.trans hnamed
  rfl

namespace Paired

variable {owner : String}

theorem others (h : Paired cur b next) (hdistinct : Distinct cur) :
    next.blocks.filter (!·.closes) = cur.blocks.filter (!·.closes) := by
  cases h with
  | none | found => rfl
  | @retyped ender _ hender =>
    obtain ⟨hmem, hfor⟩ := mem_of_enderOf? hender
    have hcloses := (Block.closesFor_iff.1 hfor).1
    have hsame (b' : Block) (hb' : b' ∈ cur.blocks) (hid : (b'.id == ender.id) = true) :
        b' = ender := List.inj_on_of_nodup_map hdistinct hb' hmem (beq_iff_eq.1 hid)
    rw [modifyBlock, List.filter_map]
    have hkept : cur.blocks.filter ((!·.closes) ∘ fun b' =>
        if b'.id == ender.id then cur.retyped b.id b' else b') =
        cur.blocks.filter (!·.closes) := by
      refine List.filter_congr fun b' hb' => ?_
      rw [Function.comp]
      split
      · rename_i hid
        have hretyped : (cur.retyped b.id b').closes = true := closes_of_type rfl
        rw [hretyped, hsame b' hb' hid, hcloses]
      · rfl
    rw [hkept]
    -- what is no ender is not the block that changes
    refine (List.map_congr_left fun b' hb' => ?_).trans (List.map_id _)
    obtain ⟨hb', hopen⟩ := List.mem_filter.1 hb'
    split
    · rename_i hid
      rw [hsame b' hb' hid, hcloses] at hopen
      cases hopen
    · rfl
  | @added _ ender _ _ _ htype =>
    rw [List.filter_append, List.filter_cons_of_neg, List.filter_nil, List.append_nil]
    rw [closes_of_type htype]
    decide

theorem legible_before (h : Paired cur b next) (hdistinct : Distinct cur)
    (hlegible : ∀ b ∈ next.blocks, b.Legible) : ∀ b ∈ cur.blocks, b.Legible := by
  cases h with
  | none | found => exact hlegible
  | @retyped ender _ hender =>
    obtain ⟨hmem, hfor⟩ := mem_of_enderOf? hender
    intro b' hb'
    by_cases hid : b'.id = ender.id
    · rw [List.inj_on_of_nodup_map hdistinct hb' hmem hid]
      exact legible_of_closesFor hfor
    · refine hlegible b' (List.mem_map.2 ⟨b', hb', if_neg ?_⟩)
      rwa [beq_iff_eq]
  | added => exact fun b' hb' => hlegible b' (List.mem_append_left _ hb')

/-- Other owners get no ender and lose none. -/
theorem isSome_enderOf?_of_ne (h : Paired cur b next) (hdistinct : Distinct cur)
    (hne : owner ≠ b.id) : (next.enderOf? owner).isSome = (cur.enderOf? owner).isSome := by
  cases h with
  | none | found => rfl
  | retyped _ hender => rw [enderOf?_retyped hdistinct hender, Option.isSome_map]
  | @added _ ender _ _ _ _ hpartner =>
    have hother : ender.closesFor owner = false := by
      rw [Bool.eq_false_iff, ne_eq, Block.closesFor_iff, hpartner]
      rintro ⟨-, ⟨⟩⟩
      exact hne rfl
    rw [enderOf?, List.find?_append, List.find?_singleton, if_neg (by rw [hother]; decide),
      Option.or_none, enderOf?]

end Paired

theorem unpaired_snoc (ws : Workspace) (done : List Block) (b : Block) :
    ws.unpaired (done ++ [b]) =
      ws.unpaired done ++ if b.owns && (ws.enderOf? b.id).isNone then [b] else [] := by
  rw [unpaired, List.filter_append, ← unpaired, List.filter_cons, List.filter_nil]

theorem Grown.snoc (h : Grown ws done cur) (hnew : b.id ∉ done.map (·.id))
    (hpaired : Paired cur b next) : Grown ws (done ++ [b]) next := by
  refine ⟨hpaired.distinct h.distinct, (hpaired.others h.distinct).trans h.others,
    fun hlegible => h.legible (hpaired.legible_before h.distinct hlegible), fun owner howner => ?_,
    ?_⟩
  · rw [List.map_append, List.mem_append, not_or, List.map_singleton, List.mem_singleton] at howner
    rw [hpaired.isSome_enderOf?_of_ne h.distinct howner.2, h.ender owner howner.1]
  have hbefore := h.ender b.id hnew
  obtain ⟨kept, added, hblocks, hkept, hadded, hpartners⟩ := h.blocks
  rw [unpaired_snoc]
  cases hpaired with
  | none hnone =>
    have hidle : b.owns = false := by
      rw [Bool.eq_false_iff, ne_eq, owns_iff]
      rintro ⟨k, hk⟩
      cases hk.symm.trans hnone
    rw [hidle, Bool.false_and, if_neg (by decide), List.append_nil]
    exact ⟨kept, added, hblocks, hkept, hadded, hpartners⟩
  | found _ hender =>
    rw [hender, Option.isSome_some] at hbefore
    rw [Option.isNone_eq_false_iff.2 hbefore.symm, Bool.and_false, if_neg (by decide),
      List.append_nil]
    exact ⟨kept, added, hblocks, hkept, hadded, hpartners⟩
  | @retyped ender _ hender =>
    rw [hender, Option.isSome_some] at hbefore
    rw [Option.isNone_eq_false_iff.2 hbefore.symm, Bool.and_false, if_neg (by decide),
      List.append_nil]
    have hid (b' : Block) :
        (if b'.id == ender.id then cur.retyped b.id b' else b').id = b'.id := by
      split <;> rfl
    have hpartner (b' : Block) :
        (if b'.id == ender.id then cur.retyped b.id b' else b').partner? = b'.partner? := by
      split
      · exact partner?_retyped b.id b'
      · rfl
    refine ⟨_, _, (congrArg _ hblocks).trans List.map_append, ?_, fun e he => ?_, ?_⟩
    · rw [List.map_map, ← hkept]
      exact List.map_congr_left fun b' _ => hid b'
    · obtain ⟨b', hb', rfl⟩ := List.mem_map.1 he
      split
      · exact closes_of_type rfl
      · exact hadded b' hb'
    · rw [List.map_map, ← hpartners]
      exact List.map_congr_left fun b' _ => hpartner b'
  | @added k ender hk hnone _ htype hpartner =>
    rw [hnone, Option.isSome_none] at hbefore
    rw [owns_iff.2 ⟨k, hk⟩, Option.isSome_eq_false_iff.1 hbefore.symm, Bool.true_and,
      if_pos rfl, List.map_append]
    refine ⟨kept, added ++ [ender], ?_, hkept, fun e he => ?_, ?_⟩
    · rw [hblocks, List.append_assoc]
    · rcases List.mem_append.1 he with he | he
      · exact hadded e he
      · rw [List.mem_singleton.1 he]
        exact closes_of_type htype
    · rw [List.map_append, hpartners, List.map_singleton, hpartner]
      rfl

/-- **When all blocks have been paired**, each owner that had no ender has been given one. -/
theorem grown_of_ok (hdistinct : Distinct ws) (h : ws.blocks.forM ensureEnder ws = (.ok (), cur)) :
    Grown ws ws.blocks cur :=
  forM_ensureEnder_induction hdistinct (grown_refl hdistinct)
    (fun _ hnew hpaired hdone => hdone.snoc hnew hpaired) h

/-- The blocks that were not there before. -/
def created (ws ws' : Workspace) : List Block := ws'.blocks.filter fun b => !ws.has b.id

theorem mem_ids_iff {id : String} : id ∈ ws.blocks.map (·.id) ↔ ws.has id = true := by
  rw [has, List.any_eq_true, List.mem_map]
  exact exists_congr fun b => and_congr_right fun _ => beq_iff_eq.symm

/-- **What is new** when orphans have been deleted, too: the enders that were added. -/
theorem created_deleteOrphans (h : Grown ws ws.blocks cur)
    (hhas : ∀ id, ws.has id = true → cur.has id = true) :
    (∀ e ∈ created ws (cur.deleteAll cur.orphans), e.closes = true) ∧
      (created ws (cur.deleteAll cur.orphans)).map Block.partner? =
        (ws.unpaired ws.blocks).map fun b => some (.str b.id) := by
  obtain ⟨kept, added, hblocks, hkept, hadded, hpartners⟩ := h.blocks
  have hids := h.distinct
  rw [Distinct, hblocks, List.map_append, List.nodup_append] at hids
  have hold (b : Block) (hb : b ∈ kept) : ws.has b.id = true := by
    rw [← mem_ids_iff, ← hkept]
    exact List.mem_map_of_mem hb
  have hnew (e : Block) (he : e ∈ added) : ws.has e.id = false := by
    rw [Bool.eq_false_iff, ne_eq, ← mem_ids_iff, ← hkept]
    exact fun hmem => hids.2.2 _ hmem _ (List.mem_map_of_mem he) rfl
  -- the owner of an ender that was added is there
  have hstays (e : Block) (he : e ∈ added) : cur.orphaned e = false := by
    have hpartner : e.partner? ∈ added.map Block.partner? := List.mem_map_of_mem he
    rw [hpartners] at hpartner
    obtain ⟨owner, howner, hnamed⟩ := List.mem_map.1 hpartner
    exact not_orphaned_of_closesFor (Block.closesFor_iff.2 ⟨hadded e he, hnamed.symm⟩)
      (hhas _ (has_of_mem (List.mem_filter.1 howner).1))
  have hcreated : created ws (cur.deleteAll cur.orphans) = added := by
    rw [created, blocks_deleteOrphans h.distinct, List.filter_filter, hblocks, List.filter_append,
      List.filter_eq_nil_iff.2, List.filter_eq_self.2, List.nil_append]
    · intro e he
      rw [hnew e he, hstays e he]
      rfl
    · intro b hb
      rw [hold b hb]
      exact Bool.false_ne_true
  rw [hcreated]
  exact ⟨hadded, hpartners⟩

/-! ## Gaps that are closed -/

/-- A way down a stack from one block to another past others of which each is gone. -/
def Past (ws : Workspace) (gone : String → Prop) (x : String) (between : List String) (y : String) :
    Prop :=
  (∀ d ∈ between, gone d) ∧
    List.IsChain (fun a b => (a, b) ∈ stackLinks ws.edges) (x :: (between ++ [y]))

variable {gone : String → Prop} {before after : List String}

theorem Past.join (hbefore : ws.Past gone x before d) (hd : gone d)
    (hafter : ws.Past gone d after y) : ws.Past gone x (before ++ d :: after) y := by
  refine ⟨fun d' hd' => ?_, ?_⟩
  · rcases List.mem_append.1 hd' with hd' | hd'
    · exact hbefore.1 d' hd'
    · rcases List.mem_cons.1 hd' with rfl | hd'
      · exact hd
      · exact hafter.1 d' hd'
  · rw [List.append_assoc, List.cons_append, ← List.cons_append, List.isChain_split]
    exact ⟨hbefore.2, hafter.2⟩

/-- An edge between two blocks around some that are gone. -/
def ClosesGap (ws : Workspace) (gone : String → Prop) (e : Edge) : Prop :=
  ∃ above between below, between ≠ [] ∧ ws.Past gone above between below ∧ e = .stack above below

/-- What is left when some of the blocks that are to go have been deleted. -/
structure Mended (ws : Workspace) (gone : String → Prop) (cur : Workspace) : Prop where
  wellFormed : WellFormed cur
  edges : ∃ joints, cur.edges =
    (ws.edges.filter fun e => cur.has e.source && cur.has e.target) ++ joints ∧
      ∀ e ∈ joints, ws.ClosesGap gone e

/-- The edges that are left stand for ways before. -/
theorem Mended.past (h : Mended ws gone cur) (hlink : (x, y) ∈ stackLinks cur.edges) :
    ∃ between, ws.Past gone x between y := by
  obtain ⟨e, he, hkind, rfl, rfl⟩ := mem_stackLinks.1 hlink
  obtain ⟨joints, hedges, hjoints⟩ := h.edges
  rw [hedges] at he
  rcases List.mem_append.1 he with he | he
  · have hbefore : (e.source, e.target) ∈ stackLinks ws.edges :=
      mem_stackLinks.2 ⟨e, (List.mem_filter.1 he).1, hkind, rfl, rfl⟩
    exact ⟨[], fun _ hd => absurd hd List.not_mem_nil,
      List.isChain_cons_cons.2 ⟨hbefore, List.isChain_singleton _⟩⟩
  · obtain ⟨above, between, below, -, hpast, rfl⟩ := hjoints e he
    exact ⟨between, hpast⟩

/-- **One more block is deleted**: the gap that is closed spans those that had been closed around
it. -/
theorem Mended.delete (h : Mended ws gone cur) (hgone : gone d) :
    Mended ws gone (cur.deleteBlock d).2 := by
  by_cases hd : cur.has d = true
  swap
  · rw [deleteBlock, if_neg hd]
    exact h
  refine ⟨h.wellFormed.delete d, ?_⟩
  obtain ⟨joints, hedges, hjoints⟩ := h.edges
  refine ⟨(joints.filter fun e => !e.touches d) ++
    closing (cur.predecessor? d) (cur.successor? d), ?_, fun e he => ?_⟩
  · rw [edges_deleteBlock h.wellFormed hd, hedges, List.filter_append, List.filter_filter,
      List.append_assoc]
    congr 1
    refine List.filter_congr fun e _ => ?_
    rw [has_deleteBlock, has_deleteBlock, Edge.touches, bne, bne]
    cases cur.has e.source <;> cases cur.has e.target <;> cases e.source == d <;> simp
  · rcases List.mem_append.1 he with he | he
    · exact hjoints e (List.mem_filter.1 he).1
    rcases habove : cur.predecessor? d with _ | above <;> rw [habove] at he
    · cases he
    rcases hbelow : cur.successor? d with _ | below <;> rw [hbelow] at he
    · cases he
    obtain ⟨before, hbefore⟩ := h.past ((predecessor?_iff h.wellFormed).1 habove)
    obtain ⟨after, hafter⟩ := h.past ((successor?_iff h.wellFormed).1 hbelow)
    rw [closing] at he
    split at he
    · cases he
    · exact ⟨above, _, below, by simp, hbefore.join hgone hafter, List.mem_singleton.1 he⟩

theorem mended_deleteAll (h : Mended ws gone cur) {blocks : List Block}
    (hblocks : ∀ b ∈ blocks, gone b.id) : Mended ws gone (cur.deleteAll blocks) := by
  induction blocks generalizing cur with
  | nil => exact h
  | cons b rest ih =>
    exact ih (h.delete (hblocks b List.mem_cons_self)) fun b' hb' =>
      hblocks b' (List.mem_cons_of_mem _ hb')

/-- Pairing leaves no gap. -/
theorem mended_of_edges (h : WellFormed ws) (hedges : cur.edges = ws.edges)
    (hhas : ∀ id, ws.has id = true → cur.has id = true) : Mended ws gone cur := by
  refine ⟨h.keep hedges hhas, [], ?_, fun e he => absurd he List.not_mem_nil⟩
  rw [List.append_nil, hedges, List.filter_eq_self.2]
  intro e he
  obtain ⟨hsource, htarget⟩ := h.ends e he
  rw [hhas _ hsource, hhas _ htarget]
  rfl

/-! ## The whole call -/

/-- What goes is an ender whose owner was not there before either. -/
theorem orphaned_of_gone (h : PairedAll ws ws.blocks cur) (hdistinct : Distinct ws)
    (hb : b ∈ ws.blocks) (hgone : (cur.deleteAll cur.orphans).has b.id = false) :
    ws.orphaned b = true := by
  rw [has_deleteAll, h.has _ (has_of_mem hb), Bool.true_and, Bool.not_eq_false'] at hgone
  obtain ⟨b', hb', hid⟩ := List.any_eq_true.1 hgone
  obtain ⟨hmem, horphaned⟩ := List.mem_filter.1 (h.orphan b' hb')
  obtain rfl := List.inj_on_of_nodup_map hdistinct hmem hb (beq_iff_eq.1 hid)
  exact horphaned

/-- What is no ender stays when orphans are deleted. -/
theorem others_deleteOrphans (hdistinct : Distinct cur) :
    (cur.deleteAll cur.orphans).blocks.filter (!·.closes) = cur.blocks.filter (!·.closes) := by
  rw [blocks_deleteOrphans hdistinct, List.filter_filter]
  refine List.filter_congr fun b _ => ?_
  rw [orphaned]
  cases b.closes <;> rfl

/-- **Pairing covers every owner and harms no other block.** When a call has gone through on a
workspace that an editor can come to, the search finds an ender for every owner. The blocks that are
new are enders, one for each owner for which the search found none before, in the order of the
owners. Blocks that have gone were enders that named an owner which was not there. All blocks that
are no enders are as they were, in order. The edges between blocks that are left are there, in order,
and behind them only edges that close a gap in a stack, between two blocks with nothing but deleted
ones between them. -/
theorem syncEnders_covers {may : Workspace → Request → Prop} (hws : ReachableBy may ws) {n : Nat}
    (h : syncEnders ws = (.ok n, ws')) :
    (∀ b ∈ ws'.blocks, b.owns = true → ∃ ender, ws'.findEnder (.str b.id) = .ok (some ender)) ∧
    ((∀ owner, ws.findEnder (.str owner) = .ok (ws.enderOf? owner)) ∧
      (∀ e ∈ created ws ws', e.closes = true) ∧
      (created ws ws').map Block.partner? =
        (ws.blocks.filter fun b => b.owns && (ws.enderOf? b.id).isNone).map
          fun b => some (.str b.id)) ∧
    (∀ b ∈ ws.blocks, ws'.has b.id = false → b.closes = true ∧ ∃ owner, b.partner? = some owner ∧
      owner.truthy = true ∧ ∀ id, owner = .str id → ws.has id = false) ∧
    ws'.blocks.filter (!·.closes) = ws.blocks.filter (!·.closes) ∧
    ∃ joints, ws'.edges =
      (ws.edges.filter fun e => ws'.has e.source && ws'.has e.target) ++ joints ∧
        ∀ e ∈ joints, ∃ above between below, between ≠ [] ∧
          ws.Past (Gone ws ws') above between below ∧ e = .stack above below := by
  obtain ⟨ws₁, hforM, hlegible, -, rfl⟩ := syncEnders_ok h
  have hdistinct := hws.distinct
  have hall := pairedAll_of_ok hdistinct hforM
  have hgrown := grown_of_ok hdistinct hforM
  have hedges := (outlined_of_ok (outlined_refl hdistinct) hforM).edges
  have hsettled := settled_deleteOrphans hall.distinct hlegible hall.tended_all
  refine ⟨fun b hb howns => ?_, ⟨fun owner => ?_, created_deleteOrphans hgrown hall.has⟩,
    fun b hb hgone => ?_, ?_, ?_⟩
  · obtain ⟨k, hk⟩ := owns_iff.1 howns
    obtain ⟨ender, hender⟩ := Option.isSome_iff_exists.1 (hsettled.ender b hb k hk)
    exact ⟨ender, (findEnderIn_eq hsettled.legible).trans (congrArg Except.ok hender)⟩
  · exact findEnderIn_eq (hgrown.legible hlegible)
  · have horphaned := orphaned_of_gone hall hdistinct hb hgone
    rw [orphaned, Bool.and_eq_true, Option.any_eq_true] at horphaned
    obtain ⟨hcloses, owner, hpartner, hmissing⟩ := horphaned
    rw [Bool.and_eq_true, Bool.not_eq_true'] at hmissing
    refine ⟨hcloses, owner, hpartner, hmissing.1, ?_⟩
    rintro id rfl
    exact hmissing.2
  · exact (others_deleteOrphans hall.distinct).trans hgrown.others
  · refine (mended_deleteAll (mended_of_edges hws.wellFormed hedges hall.has) fun b hb => ?_).edges
    have hdeleted : ws₁.orphans.any (·.id == b.id) = true :=
      List.any_eq_true.2 ⟨b, hb, beq_self_eq_true _⟩
    refine ⟨has_of_mem (List.mem_filter.1 (hall.orphan b hb)).1, ?_⟩
    rw [has_deleteAll, hdeleted, Bool.not_true, Bool.and_false]

/-- An owner without an ender, and two enders below each other in a stack, whose owners are gone. -/
def adjacentOrphans : Workspace where
  blocks := [
    { id := "s", type := .str "say" },
    { id := "o", type := .str "if_branch_ender", data := .dict [(.str pairKey, .str "gone")] },
    { id := "p", type := .str "repeat_loop_ender_1", data := .dict [(.str pairKey, .str "lost")] },
    { id := "t", type := .str "clear" },
    { id := "c", type := .str "if_else" }]
  edges := [.stack "s" "o", .stack "o" "p", .stack "p" "t", .toBranch "c" (some "true") "s"]

theorem reachable_adjacentOrphans : Reachable adjacentOrphans := by
  have hgraph : ofGraph adjacentOrphans.snapshot = .ok adjacentOrphans := by
    with_unfolding_all rfl
  exact .drawn 0 hgraph

/-- The owner gets an ender, and one edge closes the gap that both orphans leave. -/
theorem syncEnders_covers_adjacentOrphans : ∃ ws', syncEnders adjacentOrphans = (.ok 2, ws') ∧
    (∃ ender, ws'.findEnder (.str "c") = .ok (some ender)) ∧
    (created adjacentOrphans ws').map Block.partner? = [some (.str "c")] ∧
    ws'.edges = [.toBranch "c" (some "true") "s", .stack "s" "t"] := by
  obtain ⟨ws', hcall, hedges⟩ : ∃ ws', syncEnders adjacentOrphans = (.ok 2, ws') ∧
      ws'.edges = [.toBranch "c" (some "true") "s", .stack "s" "t"] := ⟨_, rfl, by decide +kernel⟩
  obtain ⟨hcovered, ⟨-, -, hcreated⟩, -, hothers, -⟩ :=
    syncEnders_covers reachable_adjacentOrphans hcall
  refine ⟨ws', hcall, ?_, hcreated, hedges⟩
  have howner : ({ id := "c", type := .str "if_else" } : Block) ∈
      adjacentOrphans.blocks.filter (!·.closes) :=
    List.mem_filter.2 ⟨by simp [adjacentOrphans], rfl⟩
  rw [← hothers] at howner
  exact hcovered _ (List.mem_filter.1 howner).1 rfl

end Workspace

end BlockProgram
