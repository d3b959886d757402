import BlockProgram.Proofs.Program.Build
import BlockProgram.Proofs.Workspace.Invariant

/-!
# Branch slots in the editor and in the program

A branch is found under its slot, where a key that is missing or empty stands for `body`. The
editor shows the first branch edge of a slot and a built program runs the last one, so the two
agree where slots are unique (`Workspace.branchHead?_of_unique`).

Drawing a branch makes those edges give way whose slot is the key **as it was given**. Slots are
never missing or empty, so under a blank key none does, and a second edge for `body` is drawn
beside the first. That is the only way for slots to become ambiguous: every other request keeps
them unique (`Workspace.uniqueSlots_perform_iff`).
-/

namespace BlockProgram

open Relation

namespace Workspace

variable {ws ws' : Workspace}

/-- No two branch edges have the same parent and the same slot. -/
def UniqueSlots (ws : Workspace) : Prop := ∀ id key, Single (fillsBranch id (some key)) ws.edges

theorem uniqueSlots_empty : UniqueSlots {} := fun _ _ => Nat.zero_le _

theorem fillsBranch_iff {id key : String} {e : Edge} : fillsBranch id (some key) e = true ↔
    e.kind = .branch ∧ e.source = id ∧ Edge.branchKey e.branch = key := by
  rcases hkind : e.kind <;> simp [fillsBranch, Edge.slot, hkind]

/-! ## The editor and the program -/

theorem find?_eq_getLast?_filter {p : Edge → Bool} {edges : List Edge} (h : Single p edges) :
    edges.find? p = (edges.filter p).getLast? := by
  rw [← List.head?_filter]
  simp only [Single] at h
  rcases hfilter : edges.filter p with _ | ⟨e, _ | ⟨e', rest⟩⟩
  · rfl
  · rfl
  · rw [hfilter] at h
    simp at h

/-- **Where slots are unique, the editor shows the branches that the program has.** -/
theorem branchHead?_of_unique (h : WellFormed ws) (hunique : UniqueSlots ws) {p : Program}
    (hbuild : ws.snapshot.build = .ok p) (id key : String) :
    ws.branchHead? id key = (p.node? id).bind fun n => n.branch? key := by
  obtain ⟨unlinked, hu, hp, -⟩ := Program.build_ok hbuild
  have hknown (e : Edge) (he : e ∈ ws.edges) : Program.isKnown unlinked e = true := by
    rw [Program.isKnown, Program.any_nodesOfBlocks hu, Program.any_nodesOfBlocks hu,
      Bool.and_eq_true]
    exact h.ends e he
  have hhead : ws.branchHead? id key = (ws.edges.find? (fillsBranch id (some key))).map (·.target) :=
    rfl
  rw [hhead, find?_eq_getLast?_filter (hunique id key)]
  rcases hn : p.node? id with _ | n
  · -- an id without a node is no block, so no edge leaves it
    have hnone : ws.edges.filter (fillsBranch id (some key)) = [] := by
      rw [List.filter_eq_nil_iff]
      intro e he hfills
      have hsource := (h.ends e he).1
      rw [(fillsBranch_iff.1 hfills).2.1] at hsource
      have hnode := Program.isSome_node?_build hbuild id
      rw [hn, show ws.snapshot.blocks.any (·.id == id) = true from hsource] at hnode
      cases hnode
    rw [hnone]
    rfl
  · have hedges : (Program.outEdges unlinked ws.edges id).filter (Program.isBranchOf key) =
        ws.edges.filter (fillsBranch id (some key)) := by
      rw [Program.outEdges, List.filter_filter]
      refine List.filter_congr fun e he => ?_
      rw [Bool.eq_iff_iff, fillsBranch_iff, hknown e he]
      simp only [Program.isBranchOf, Bool.and_eq_true, beq_iff_eq, and_true]
      constructor
      · rintro ⟨⟨hkind, hkey⟩, hsource⟩
        exact ⟨hkind, hsource, hkey⟩
      · rintro ⟨hkind, hsource, hkey⟩
        exact ⟨⟨hkind, hkey⟩, hsource⟩
    rw [← hedges]
    exact (Program.branch?_linked hu hp hn key).symm

/-! ## What keeps slots unique -/

theorem UniqueSlots.replace (h : UniqueSlots ws) {rivals : Edge → Bool} {e : Edge}
    (hrivals : e.kind = .branch → ∀ e', e'.kind = .branch → e'.source = e.source →
      Edge.branchKey e'.branch = Edge.branchKey e.branch → rivals e' = true) :
    UniqueSlots (ws.replaceEdges rivals e) := by
  intro id key
  refine (h id key).replace fun he e' he' => ?_
  obtain ⟨hkind, hsource, hkey⟩ := fillsBranch_iff.1 he
  obtain ⟨hkind', hsource', hkey'⟩ := fillsBranch_iff.1 he'
  exact hrivals hkind e' hkind' (hsource'.trans hsource.symm) (hkey'.trans hkey.symm)

theorem branchKey_some {key : String} (h : key ≠ "") : Edge.branchKey (some key) = key := by
  simp only [Edge.branchKey]
  split
  · rename_i hempty
    exact absurd (String.isEmpty_iff.1 hempty) h
  · rfl

/-- Joining a stack again draws no branch. -/
theorem UniqueSlots.delete (h : UniqueSlots ws) (id : String) :
    UniqueSlots (ws.deleteBlock id).2 := by
  have hlacking : UniqueSlots (ws.lacking id) := fun parent key => (h parent key).filter _
  rcases deleteBlock_cases ws id with hsame | hgone | ⟨above, below, -, -, hjoined⟩
  · rw [hsame]
    exact h
  · rw [hgone]
    exact hlacking
  · rw [hjoined]
    exact hlacking.replace fun hkind => nomatch hkind

theorem UniqueSlots.plain {retype : Prop} (h : UniqueSlots ws) (hchange : Plain retype ws ws') : UniqueSlots ws' := by
  cases hchange with
  | keep _ hedges _ => exact fun id key => hedges ▸ h id key
  | alter _ => exact h
  | add _ => exact h
  | remove p => exact fun id key => (h id key).filter _
  | stack _ => exact h.replace fun hkind => nomatch hkind
  | branch hkey _ =>
    refine h.replace fun _ e' hkind hsource hslot => fillsBranch_iff.2 ⟨hkind, hsource, ?_⟩
    exact hslot.trans (branchKey_some hkey)
  | plugIn _ _ => exact h.replace fun hkind => nomatch hkind
  | delete id => exact h.delete id

/-! ## What makes slots ambiguous -/

end Workspace

/-- Whether a request draws a branch under a blank key from a block whose `body` is there
already. -/
def Request.DoublesBody (r : Request) (ws : Workspace) : Prop :=
  ∃ parent child, r.blankBranch? = some (parent, child) ∧ ws.canConnect parent child = true ∧
    (ws.branchHead? parent defaultBranch).isSome = true

namespace Workspace

variable {ws : Workspace}

/-- One more edge for `body` leaves slots unique only where there was none. -/
theorem uniqueSlots_append_iff (h : UniqueSlots ws) {parent child : String} {key : Option String}
    (hkey : Edge.branchKey key = defaultBranch) :
    UniqueSlots (ws.appendEdge (.toBranch parent key child)) ↔
      (ws.branchHead? parent defaultBranch).isSome = false := by
  have hdrawn : fillsBranch parent (some defaultBranch) (.toBranch parent key child) = true :=
    fillsBranch_iff.2 ⟨rfl, rfl, hkey⟩
  -- no head is found where no edge fills the slot
  have hfree : (ws.branchHead? parent defaultBranch).isSome = false ↔
      ws.edges.filter (fillsBranch parent (some defaultBranch)) = [] := by
    show ((ws.edges.find? (fillsBranch parent (some defaultBranch))).map _).isSome = false ↔ _
    rw [Option.isSome_map, ← Bool.not_eq_true, List.find?_isSome, List.filter_eq_nil_iff]
    grind
  rw [hfree]
  constructor
  · intro hunique
    have hone := hunique parent defaultBranch
    simp only [Single] at hone
    rw [appendEdge, List.filter_append, List.length_append, List.filter_cons_of_pos hdrawn] at hone
    exact List.length_eq_zero_iff.1 (by simpa using hone)
  · intro hnone id other
    simp only [Single]
    rw [appendEdge, List.filter_append, List.length_append]
    by_cases hsame : fillsBranch id (some other) (.toBranch parent key child) = true
    · obtain ⟨-, rfl, rfl⟩ := fillsBranch_iff.1 hsame
      change (List.filter (fillsBranch parent (some (Edge.branchKey key))) ws.edges).length +
        (List.filter (fillsBranch parent (some (Edge.branchKey key))) _).length ≤ 1
      rw [hkey, hnone, List.filter_cons_of_pos hdrawn]
      exact Nat.le_refl 1
    · rw [List.filter_cons_of_neg hsame]
      exact h id other

/-- **The one way to ambiguous slots.** -/
theorem uniqueSlots_perform_iff (h : UniqueSlots ws) (r : Request) :
    UniqueSlots (r.perform ws).2 ↔ ¬ r.DoublesBody ws := by
  by_cases hblank : ∃ parent child, r.blankBranch? = some (parent, child) ∧
      ws.canConnect parent child = true
  · obtain ⟨parent, child, hr, hcan⟩ := hblank
    obtain ⟨key, hkey, hdrawn⟩ := Request.perform_blankBranch hr hcan
    have hbody : Edge.branchKey key = defaultBranch := by
      rcases hkey with rfl | rfl <;> rfl
    rw [hdrawn, Request.connectBranch_blank hkey hcan, uniqueSlots_append_iff h hbody]
    constructor
    · rintro hfree ⟨parent', child', hr', -, hfilled⟩
      cases hr.symm.trans hr'
      rw [hfree] at hfilled
      cases hfilled
    · intro hdoubles
      exact Bool.eq_false_iff.2 fun hfilled => hdoubles ⟨parent, child, hr, hcan, hfilled⟩
  · constructor
    · rintro - ⟨parent, child, hr, hcan, -⟩
      exact hblank ⟨parent, child, hr, hcan⟩
    · intro _
      refine kept_of_changes UniqueSlots.plain h
        (Request.makes_perform (fun _ _ _ => trivial) fun parent child hr => ?_)
      exact Bool.eq_false_iff.2 fun hcan => hblank ⟨parent, child, hr, hcan⟩

theorem uniqueSlots_of_reachableBy (h : ReachableBy (fun ws r => ¬ r.DoublesBody ws) ws) :
    UniqueSlots ws := by
  induction h with
  | @drawn g ws issued hdrawn =>
    have hws : UniqueSlots ws :=
      kept_of_changes UniqueSlots.plain uniqueSlots_empty (plain_of_ofGraph True hdrawn)
    exact hws
  | @asked ws r _ hr ih => exact (uniqueSlots_perform_iff ih r).2 hr

/-- **The editor and the program agree on branches** as long as no branch is drawn under a blank
key from a block whose `body` is there already: slots are unique, what is shown at a slot is what
a built program has there, and the next request leaves slots ambiguous exactly if it is such a
one. -/
theorem branchSlots_of_reachableBy (h : ReachableBy (fun ws r => ¬ r.DoublesBody ws) ws) :
    UniqueSlots ws ∧
      (∀ p, ws.snapshot.build = .ok p → ∀ id key,
        ws.branchHead? id key = (p.node? id).bind fun n => n.branch? key) ∧
      ∀ r : Request, UniqueSlots (r.perform ws).2 ↔ ¬ r.DoublesBody ws := by
  have hunique := uniqueSlots_of_reachableBy h
  exact ⟨hunique, fun p hbuild => branchHead?_of_unique h.wellFormed hunique hbuild,
    uniqueSlots_perform_iff hunique⟩

/-- A loop and two blocks that may become its body. -/
def twoBodies : Workspace where
  blocks := [
    { id := "p", type := .str "repeat_times" },
    { id := "c1", type := .str "clear" },
    { id := "c2", type := .str "clear" }]

/-- A request for a body under an empty key. -/
def bodyRequest (child : String) : Request := .connectBranch (.str "p") (.str "") (.str child)

theorem reachable_twoBodies {may : Workspace → Request → Prop} : ReachableBy may twoBodies := by
  have hgraph : ofGraph twoBodies.snapshot = .ok twoBodies := rfl
  exact .drawn 0 hgraph

theorem perform_bodyRequest {child : String} (hcan : ws.canConnect "p" child = true) :
    ((bodyRequest child).perform ws).2 = ws.appendEdge (.toBranch "p" (some "") child) := by
  have hslot : Request.slotName "branch" (.str "") ws = (.ok (some ""), ws) := rfl
  rw [bodyRequest, Request.perform_connectBranch hslot hcan,
    Request.connectBranch_blank (.inr rfl) hcan]

/-- With one body drawn, the slot is unique; with the second it is not. -/
theorem branchSlots_twoBodies : UniqueSlots ((bodyRequest "c1").perform twoBodies).2 ∧
    ¬ UniqueSlots ((bodyRequest "c2").perform ((bodyRequest "c1").perform twoBodies).2).2 := by
  have hfirst : ¬ (bodyRequest "c1").DoublesBody twoBodies := by
    rintro ⟨parent, child, hr, -, hfilled⟩
    cases hr
    cases hfilled
  obtain ⟨hunique, -, hiff⟩ := branchSlots_of_reachableBy (.asked reachable_twoBodies hfirst)
  refine ⟨hunique, fun hsecond => (hiff _).1 hsecond ⟨"p", "c2", rfl, ?_, ?_⟩⟩
  · decide +kernel
  · decide +kernel

/-- The editor shows the first of the two bodies, and the program has the second. -/
theorem branchHead?_twoBodies : ∃ ws, Reachable ws ∧ ws.branchHead? "p" "body" = some "c1" ∧
    ∃ p, ws.snapshot.build = .ok p ∧
      ((p.node? "p").bind fun n => n.branch? "body") = some "c2" := by
  have hfirst : twoBodies.canConnect "p" "c1" = true := by decide +kernel
  have hsecond :
      (twoBodies.appendEdge (.toBranch "p" (some "") "c1")).canConnect "p" "c2" = true := by
    decide +kernel
  refine ⟨((bodyRequest "c2").perform ((bodyRequest "c1").perform twoBodies).2).2,
    .asked (.asked reachable_twoBodies trivial) trivial, ?_⟩
  rw [perform_bodyRequest hfirst, perform_bodyRequest hsecond]
  exact ⟨rfl, _, rfl, rfl⟩

end Workspace

end BlockProgram
