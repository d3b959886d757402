import BlockProgram.Proofs.Workspace.Pairing

/-!
# What pairing leaves

A second call of `Workspace.syncEnders` finds owners that have enders and blocks that can be read
(`Workspace.Settled`), so it does not fail. It need not be idle: orphans are deleted last, and with
them the owner of an ender or a part of a loop's body.

* `Workspace.Settled.syncEnders_iff`: a call has nothing to do exactly if there is no orphan and the
  ender of every loop has the type that the body asks for.
* `Workspace.syncEnders_settles`: a call that deletes nothing leaves such a workspace, and an
  orphan that is left names an ender that was deleted.
-/

namespace BlockProgram

open Workspace

namespace Workspace

variable {ws ws' : Workspace} {owner : String} {blocks : List Block}

/-! ## Calling it again -/

/-- Pairing all blocks does not fail and adds no ender: the blocks can be read, and the owners have
enders. -/
structure Settled (ws : Workspace) (blocks : List Block) : Prop where
  distinct : Distinct ws
  legible : ∀ b ∈ ws.blocks, b.Legible
  type : ∀ b ∈ blocks, ∃ type, b.type = .str type
  has : ∀ b ∈ blocks, ws.has b.id = true
  ender : ∀ b ∈ blocks, ∀ k, pairing? b.type = .ok (some k) → (ws.enderOf? b.id).isSome

theorem Paired.isSome_enderOf? {b : Block} (h : Paired ws b ws') (hdistinct : Distinct ws)
    (howner : (ws.enderOf? owner).isSome) : (ws'.enderOf? owner).isSome := by
  cases h with
  | none | found => exact howner
  | retyped _ hender =>
    rw [enderOf?_retyped hdistinct hender, Option.isSome_map]
    exact howner
  | added =>
    have hfirst : (ws.blocks.find? (·.closesFor owner)).isSome := howner
    rw [enderOf?, List.find?_append, Option.isSome_or, hfirst, Bool.true_or]

theorem Settled.tail {b : Block} (h : Settled ws (b :: blocks)) (hpaired : Paired ws b ws') :
    Settled ws' blocks where
  distinct := hpaired.distinct h.distinct
  legible := hpaired.legible h.distinct h.legible
  type b' hb' := h.type b' (List.mem_cons_of_mem _ hb')
  has b' hb' := hpaired.has (h.has b' (List.mem_cons_of_mem _ hb'))
  ender b' hb' k hk :=
    hpaired.isSome_enderOf? h.distinct (h.ender b' (List.mem_cons_of_mem _ hb') k hk)

theorem pairing?_eq (type : String) : ∃ pairing, pairing? (.str type) = .ok pairing := by
  rw [pairing?]
  split
  · exact ⟨_, rfl⟩
  split
  · exact ⟨_, rfl⟩
  · exact ⟨_, rfl⟩

section Found

variable {id : String} {ender : Block}

/-- The search of what pairs an owner that has an ender. -/
theorem search_apply {α : Type} {f : Block → Workspace → Option Block → Edit α}
    (hlegible : ∀ b ∈ ws.blocks, b.Legible) (hknown : ws.has id = true) :
    ∃ b : Block, (do
      let b ← needBlock id
      let ws ← get
      let found ← Edit.lift (ws.findEnder (.str id))
      f b ws found : Edit α) ws = f b ws (ws.enderOf? id) ws := by
  obtain ⟨b, hb⟩ : ∃ b, ws.block? id = some b := by
    rw [← Option.isSome_iff_exists, block?, List.find?_isSome]
    exact List.any_eq_true.1 hknown
  have hneed : needBlock id ws = (.ok b, ws) := by
    rw [needBlock, hb]
  have hfound : Edit.lift (ws.findEnder (.str id)) ws = (.ok (ws.enderOf? id), ws) :=
    Edit.lift_of_eq (findEnderIn_eq hlegible)
  exact ⟨b, (Edit.bind_ok hneed).trans (Edit.bind_ok hfound)⟩

/-- How an `if_else` goes on from the search for its ender. -/
def ifEnderFrom (owner : Block) : Option Block → Edit String
  | some ender => return ender.id
  | none => addEnder owner ifEnderType 120 80 []

theorem ensureIfEnder_found (hlegible : ∀ b ∈ ws.blocks, b.Legible) (hknown : ws.has id = true)
    (hender : ws.enderOf? id = some ender) : ensureIfEnder id ws = (.ok ender.id, ws) := by
  obtain ⟨owner, hsearch⟩ := search_apply hlegible hknown
    (f := fun owner _ found => ifEnderFrom owner found)
  rw [hender] at hsearch
  exact hsearch

/-- How a loop goes on from the search for its ender. -/
def repeatEnderFrom (ws : Workspace) (owner : Block) (id : String) : Option Block → Edit String
  | some ender => do
    if !ender.type.isStr (ws.wantedType id .loop) then
      set (ws.modifyBlock ender.id (ws.retyped id))
    return ender.id
  | none => addEnder owner (ws.wantedType id .loop) 100 100
      [(.str variantKey, .int (clampVariant (ws.bodyLength id)))]

theorem ensureRepeatEnder_found (hlegible : ∀ b ∈ ws.blocks, b.Legible)
    (hknown : ws.has id = true) (hender : ws.enderOf? id = some ender) :
    ensureRepeatEnder id ws = (.ok ender.id,
      if ender.type.isStr (ws.wantedType id .loop) then ws
      else ws.modifyBlock ender.id (ws.retyped id)) := by
  obtain ⟨owner, hsearch⟩ := search_apply hlegible hknown
    (f := fun owner ws found => repeatEnderFrom ws owner id found)
  rw [hender] at hsearch
  refine Eq.trans hsearch ?_
  rw [repeatEnderFrom]
  by_cases hsame : ender.type.isStr (ws.wantedType id .loop) = true
  · rw [if_pos hsame, if_neg (by rw [hsame]; decide)]
    rfl
  · rw [if_neg hsame, if_pos (by rw [Bool.eq_false_iff.2 hsame]; rfl)]
    rfl

end Found

/-- Pairing an owner that has an ender does not fail. -/
theorem ensureEnder_settled {b : Block} (h : Settled ws (b :: blocks)) :
    ∃ ws', ensureEnder b ws = (.ok (), ws') ∧ (ws.Tended b → ws' = ws) := by
  obtain ⟨type, htype⟩ := h.type b List.mem_cons_self
  obtain ⟨pairing, hpairing⟩ := pairing?_eq type
  rw [← htype] at hpairing
  have hknown := h.has b List.mem_cons_self
  have hlift : Edit.lift (pairing? b.type) ws = (.ok pairing, ws) := Edit.lift_of_eq hpairing
  rw [ensureEnder, Edit.bind_ok hlift]
  rcases pairing with _ | k
  · exact ⟨ws, rfl, fun _ => rfl⟩
  obtain ⟨ender, hender⟩ := Option.isSome_iff_exists.1 (h.ender b List.mem_cons_self k hpairing)
  cases k with
  | branches =>
    exact ⟨ws, Edit.bind_ok (ensureIfEnder_found h.legible hknown hender), fun _ => rfl⟩
  | loop =>
    refine ⟨_, Edit.bind_ok (ensureRepeatEnder_found h.legible hknown hender), fun htended => ?_⟩
    obtain ⟨ender', hender', htype⟩ := htended .loop hpairing
    rw [hender] at hender'
    cases hender'
    rw [if_pos (Block.isStr_iff.2 (htype rfl))]

/-- Pairing all blocks does not fail, and changes nothing if the owners have what they ask for. -/
theorem forM_settled (h : Settled ws blocks) : ∃ ws', blocks.forM ensureEnder ws = (.ok (), ws') ∧
    (∀ b ∈ ws'.blocks, b.Legible) ∧ ((∀ b ∈ blocks, ws.Tended b) → ws' = ws) := by
  induction blocks generalizing ws with
  | nil => exact ⟨ws, rfl, h.legible, fun _ => rfl⟩
  | cons b rest ih =>
    obtain ⟨ws₁, hfirst, hsame⟩ := ensureEnder_settled h
    obtain ⟨ws', hrest, hlegible, hsame'⟩ := ih (h.tail (paired_of_ensureEnder hfirst))
    refine ⟨ws', (Edit.bind_ok hfirst).trans hrest, hlegible, fun htended => ?_⟩
    obtain rfl := hsame (htended b List.mem_cons_self)
    exact hsame' fun b' hb' => htended b' (List.mem_cons_of_mem _ hb')

/-! ## What one call leaves -/

/-- An owner is no ender. -/
theorem pairing?_of_closes {b : Block} (h : b.closes = true) (k : Pairing) :
    pairing? b.type ≠ .ok (some k) := by
  intro hk
  rw [pairing?] at hk
  split at hk
  · rename_i htype
    rw [Block.closes, Block.isStr_iff.1 htype] at h
    exact absurd h (by decide)
  split at hk
  · rename_i htype
    rcases Bool.or_eq_true _ _ ▸ htype with htype | htype
    all_goals
      rw [Block.closes, Block.isStr_iff.1 htype] at h
      exact absurd h (by decide)
  · rcases hkey : Fault.needKey b.type with fault | value <;> rw [hkey] at hk <;> cases hk

/-- All blocks have what they ask for when all have been paired, the new enders included. -/
theorem PairedAll.tended_all (h : PairedAll ws ws.blocks ws') : ∀ b ∈ ws'.blocks, ws'.Tended b := by
  intro b hb
  rcases h.blocks b hb with hb | hcloses
  · exact h.tended b hb
  · exact fun k hk => absurd hk (pairing?_of_closes hcloses k)

theorem distinct_deleteAll (hdistinct : Distinct ws) (gone : List Block) :
    Distinct (ws.deleteAll gone) := by
  rw [Distinct, blocks_deleteAll]
  exact hdistinct.sublist (List.filter_sublist.map _)

/-- What is left can be paired again without a fault. -/
theorem settled_deleteOrphans (hdistinct : Distinct ws) (hlegible : ∀ b ∈ ws.blocks, b.Legible)
    (htended : ∀ b ∈ ws.blocks, ws.Tended b) :
    Settled (ws.deleteAll ws.orphans) (ws.deleteAll ws.orphans).blocks := by
  have hmem (b : Block) (hb : b ∈ (ws.deleteAll ws.orphans).blocks) : b ∈ ws.blocks := by
    rw [blocks_deleteOrphans hdistinct] at hb
    exact (List.mem_filter.1 hb).1
  refine ⟨distinct_deleteAll hdistinct _, fun b hb => hlegible b (hmem b hb),
    fun b hb => (hlegible b (hmem b hb)).type, fun b hb => ?_, fun b hb k hk => ?_⟩
  · exact has_of_mem hb
  · obtain ⟨ender, hender, -⟩ := htended b (hmem b hb) k hk
    rw [enderOf?_deleteOrphans hdistinct (has_of_mem (hmem b hb)), hender]
    rfl

/-- **When another call changes nothing**: exactly if there is no orphan and every owner has what it
asks for. -/
theorem Settled.syncEnders_iff (h : Settled ws ws.blocks) : syncEnders ws = (.ok 0, ws) ↔
    ws.orphans = [] ∧ ∀ b ∈ ws.blocks, ws.Tended b := by
  constructor
  · intro hagain
    obtain ⟨ws₁, hpaired, -, hnone, hsame⟩ := syncEnders_ok hagain
    have hnone := List.eq_nil_of_length_eq_zero hnone.symm
    rw [hnone] at hsame
    obtain rfl : ws = ws₁ := hsame
    exact ⟨hnone, (pairedAll_of_ok h.distinct hpaired).tended⟩
  · rintro ⟨hnone, htended⟩
    obtain ⟨ws', hpaired, hlegible, hsame⟩ := forM_settled h
    obtain rfl := hsame htended
    rw [syncEnders_eq hpaired hlegible, hnone]
    rfl

/-- An orphan that is left names an orphan that was deleted. -/
theorem orphan_deleteOrphans (hdistinct : Distinct ws) {b : Block}
    (hb : b ∈ (ws.deleteAll ws.orphans).orphans) : ∃ gone ∈ ws.orphans, b.closesFor gone.id := by
  obtain ⟨hb, horphaned⟩ := List.mem_filter.1 hb
  rw [blocks_deleteOrphans hdistinct, List.mem_filter, Bool.not_eq_true'] at hb
  obtain ⟨hb, hnot⟩ := hb
  rw [orphaned, Bool.and_eq_true, Option.any_eq_true] at horphaned
  obtain ⟨hcloses, owner, hpartner, horphaned⟩ := horphaned
  rw [Bool.and_eq_true, Bool.not_eq_true'] at horphaned
  -- the owner was there before the orphans were deleted
  rw [orphaned, hcloses, hpartner, Option.any_some, horphaned.1, Bool.true_and, Bool.true_and,
    Bool.not_eq_false', Option.any_eq_true] at hnot
  obtain ⟨id, hid, hknown⟩ := hnot
  obtain rfl : owner = .str id := by
    cases owner <;> cases hid
    rfl
  obtain ⟨gone, hgone, hends⟩ := List.any_eq_true.1 hknown
  obtain rfl := beq_iff_eq.1 hends
  refine ⟨gone, List.mem_filter.2 ⟨hgone, ?_⟩, Block.closesFor_iff.2 ⟨hcloses, hpartner⟩⟩
  by_contra hstays
  have hleft : (ws.deleteAll ws.orphans).has gone.id = true := by
    refine has_of_mem ?_
    rw [blocks_deleteOrphans hdistinct, List.mem_filter]
    exact ⟨hgone, by rw [Bool.eq_false_iff.2 hstays]; rfl⟩
  have hgone := horphaned.2
  rw [show (Value.str gone.id).str? = some gone.id from rfl, Option.any_some, hleft] at hgone
  cases hgone

/-- **What pairing all blocks leaves.** A second call does not fail either. It finds nothing to do
exactly if no ender names an owner that is not there and the ender of every loop has the type that
the body asks for; this is so whenever the first call has deleted nothing. An orphan that the first
call leaves names an ender that it has deleted. -/
theorem syncEnders_settles {may : Workspace → Request → Prop} (hws : ReachableBy may ws) {n : Nat}
    (h : syncEnders ws = (.ok n, ws')) :
    (∃ n' ws'', syncEnders ws' = (.ok n', ws'')) ∧
      (syncEnders ws' = (.ok 0, ws') ↔
        ws'.orphans = [] ∧ ∀ b ∈ ws'.blocks, ws'.Tended b) ∧
      (n = 0 → syncEnders ws' = (.ok 0, ws')) ∧
      ∀ b ∈ ws'.orphans, ∃ gone ∈ ws.orphans, b.closesFor gone.id := by
  obtain ⟨ws₁, hpaired, hlegible, rfl, rfl⟩ := syncEnders_ok h
  have hall := pairedAll_of_ok hws.distinct hpaired
  have hsettled := settled_deleteOrphans hall.distinct hlegible hall.tended_all
  refine ⟨?_, hsettled.syncEnders_iff, fun hnone => ?_, fun b hb => ?_⟩
  · obtain ⟨ws'', hagain, hlegible', -⟩ := forM_settled hsettled
    exact ⟨_, _, syncEnders_eq hagain hlegible'⟩
  · have hnone := List.eq_nil_of_length_eq_zero hnone
    refine hsettled.syncEnders_iff.2 ?_
    rw [hnone]
    exact ⟨hnone, hall.tended_all⟩
  · obtain ⟨gone, hgone, hfor⟩ := orphan_deleteOrphans hall.distinct hb
    exact ⟨gone, hall.orphan gone hgone, hfor⟩

/-- A loop whose body ends in an orphan, and its ender, whose type counts the orphan. -/
def orphanInBody : Workspace where
  blocks := [
    { id := "r", type := .str "repeat_times" },
    { id := "s", type := .str "say" },
    { id := "o", type := .str "if_branch_ender", data := .dict [(.str pairKey, .str "gone")] },
    { id := "e", type := .str "repeat_loop_ender_2",
      data := .dict [(.str pairKey, .str "r"), (.str variantKey, .int 2)] }]
  edges := [.toBranch "r" (some "body") "s", .stack "s" "o"]

/-- The same workspace without the orphan. -/
def orphanDeleted : Workspace :=
  { orphanInBody with
    blocks := orphanInBody.blocks.eraseIdx 2
    edges := [.toBranch "r" (some "body") "s"] }

theorem reachable_orphanInBody : Reachable orphanInBody := by
  have hgraph : ofGraph orphanInBody.snapshot = .ok orphanInBody := by
    with_unfolding_all rfl
  exact .drawn 0 hgraph

/-- No orphan is left in the body, but the ender still counts it. -/
theorem syncEnders_orphanInBody : syncEnders orphanInBody = (.ok 1, orphanDeleted) ∧
    orphanDeleted.orphans = [] ∧ syncEnders orphanDeleted ≠ (.ok 0, orphanDeleted) := by
  have hcall : syncEnders orphanInBody = (.ok 1, orphanDeleted) := by
    with_unfolding_all rfl
  obtain ⟨-, hiff, -, -⟩ := syncEnders_settles reachable_orphanInBody hcall
  refine ⟨hcall, rfl, fun hagain => ?_⟩
  obtain ⟨-, htended⟩ := hiff.1 hagain
  obtain ⟨ender, hender, htype⟩ := htended _ List.mem_cons_self .loop rfl
  cases hender
  have hsize : orphanDeleted.bodyLength "r" = 1 := by decide +kernel
  have hwrong := Block.isStr_iff.2 (htype rfl)
  rw [wantedType, hsize] at hwrong
  exact absurd hwrong (by decide)

/-- An ender whose owner is gone, and an ender of that ender. -/
def enderOfEnder : Workspace where
  blocks := [
    { id := "e1", type := .str "if_branch_ender", data := .dict [(.str pairKey, .str "gone")] },
    { id := "e2", type := .str "if_branch_ender", data := .dict [(.str pairKey, .str "e1")] }]

/-- **Two calls that both delete an orphan.** -/
theorem syncEnders_enderOfEnder : ∃ ws ws' ws'', Reachable ws ∧ syncEnders ws = (.ok 1, ws') ∧
    ws'.orphans.map (·.id) = ["e2"] ∧ syncEnders ws' = (.ok 1, ws'') ∧ ws''.blocks = [] := by
  have hgraph : ofGraph enderOfEnder.snapshot = .ok enderOfEnder := rfl
  exact ⟨enderOfEnder, _, _, .drawn 0 hgraph, rfl, rfl, rfl, rfl⟩

end Workspace

end BlockProgram
