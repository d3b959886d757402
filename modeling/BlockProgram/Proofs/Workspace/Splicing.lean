import BlockProgram.Proofs.Workspace.Removal

/-!
# Deleting a block from its stack

A stack is read as the list of its ids, from the block on top down to the last one
(`Workspace.IsStack`). Deleting a block takes it out of the stack it stands in and leaves all else
as it is (`Workspace.deleteBlock_exact`): the edges that touch it go, and an edge closes the gap.

* The edges that the closing edge would have to replace have gone already, as stacks do not fork
  (`Workspace.edges_deleteBlock`).
* A way down a stack is one down the stack without the block (`Workspace.downFrom_deleteBlock`) and
  the other way around (`Workspace.downFrom_of_deleteBlock`), by induction on the way.

A gap of which one end has an empty id stays open, and there the stack falls apart. Each block has a
way down (`Workspace.exists_downFrom`), so the lower part is a stack of its own then, which it was
not before.
-/

namespace BlockProgram

open Relation

namespace Workspace

variable {ws ws' : Workspace} {d x y : String} {ids : List String}

/-! ## Stacks -/

variable (ws) in
/-- The ids from a block down to the end of its stack. -/
inductive DownFrom : String → List String → Prop
  | last {x : String} : ws.successor? x = none → DownFrom x [x]
  | next {x y : String} {ids : List String} : ws.successor? x = some y → DownFrom y ids →
    DownFrom x (x :: ids)

/-- The ids of a stack from its top to its end. -/
def IsStack (ws : Workspace) (ids : List String) : Prop :=
  ∃ top, ws.has top = true ∧ ws.predecessor? top = none ∧ ws.DownFrom top ids

theorem DownFrom.head?_eq (h : ws.DownFrom x ids) : ids.head? = some x := by
  cases h <;> rfl

/-- Every block has a way down, as edges close no cycle. -/
theorem exists_downFrom (h : WellFormed ws) (x : String) : ∃ ids, ws.DownFrom x ids := by
  induction x using h.acyclic.wellFounded_back.induction with
  | _ x ih =>
    rcases hbelow : ws.successor? x with _ | y
    · exact ⟨[x], .last hbelow⟩
    · obtain ⟨ids, hids⟩ := ih y (joins_successor? hbelow)
      exact ⟨x :: ids, .next hbelow hids⟩

/-! ## Edges -/

/-- The edge that closes the gap of a deleted block, if both ends are there and have a name. -/
def closing (above below : Option String) : List Edge :=
  match above, below with
  | some above, some below => if above = "" ∨ below = "" then [] else [.stack above below]
  | _, _ => []

theorem closing_of_staysOpen (h : ws.StaysOpen d) :
    closing (ws.predecessor? d) (ws.successor? d) = [] := by
  obtain ⟨above, below, habove, hbelow, hempty⟩ := h
  rw [habove, hbelow, closing, if_pos hempty]

/-- **The edges when a block is deleted**: those that do not touch it, in order, and the one that
closes the gap. No other edge has to go for that one. -/
theorem edges_deleteBlock (h : WellFormed ws) (hd : ws.has d = true) :
    (ws.deleteBlock d).2.edges = (ws.edges.filter fun e => !e.touches d) ++
      closing (ws.predecessor? d) (ws.successor? d) := by
  rw [deleteBlock_eq hd]
  rcases habove : ws.predecessor? d with _ | above
  · exact (List.append_nil _).symm
  rcases hbelow : ws.successor? d with _ | below
  · exact (List.append_nil _).symm
  by_cases hempty : above = "" ∨ below = ""
  · have hopen : (above.isEmpty || below.isEmpty) = true := by simpa using hempty
    rw [splice, if_pos hopen, closing, if_pos hempty, List.append_nil]
    rfl
  obtain ⟨haboveNamed, hbelowNamed⟩ := not_or.1 hempty
  rw [splice_some haboveNamed hbelowNamed, closing, if_neg hempty]
  change (ws.lacking d).edges.filter (fun e => !rivalsStack above below e) ++ _ = _
  congr 1
  refine List.filter_eq_self.2 fun e he => ?_
  obtain ⟨hmem, haway⟩ := List.mem_filter.1 he
  -- another edge of the ends would be the one that touches the block
  rw [Bool.not_eq_true', Bool.eq_false_iff]
  intro hrival
  obtain ⟨hkind, hends⟩ : e.kind = .stack ∧ (e.source = above ∨ e.target = below) := by
    simpa [rivalsStack] using hrival
  have hlink : (e.source, e.target) ∈ stackLinks ws.edges :=
    mem_stackLinks.2 ⟨e, hmem, hkind, rfl, rfl⟩
  obtain ⟨hsource, htarget⟩ : e.source ≠ d ∧ e.target ≠ d := by
    simpa [Edge.touches] using haway
  rcases hends with rfl | rfl
  · exact htarget (eq_below h hlink ((predecessor?_iff h).1 habove))
  · exact hsource (eq_above h hlink ((successor?_iff h).1 hbelow))

theorem deleteBlock_fields (ws : Workspace) (d : String) :
    (ws.deleteBlock d).2 = { ws with
      blocks := (ws.deleteBlock d).2.blocks, edges := (ws.deleteBlock d).2.edges } := by
  rcases deleteBlock_cases ws d with hsame | hgone | ⟨above, below, -, -, hjoined⟩
  · rw [hsame]
  · rw [hgone]
    rfl
  · rw [hjoined]
    rfl

/-! ## The block above -/

/-- What comes before a block when another is deleted. -/
theorem predecessor?_deleteBlock (h : WellFormed ws) (hd : ws.has d = true)
    (hclosed : ¬ ws.StaysOpen d) (hx : x ≠ d) : (ws.deleteBlock d).2.predecessor? x =
      if ws.predecessor? x = some d then ws.predecessor? d else ws.predecessor? x := by
  refine Option.ext fun y => ?_
  rw [predecessor?_iff (h.delete d), mem_stackLinks_deleteBlock h hd hclosed, ← predecessor?_iff h,
    ← predecessor?_iff h, ← predecessor?_iff h]
  have haway : ws.predecessor? d ≠ some d := by
    intro hself
    exact ne_of_mem_stackLinks h ((predecessor?_iff h).1 hself) rfl
  split
  · rename_i hafter
    rw [hafter]
    constructor
    · rintro ⟨hy, -, heq | ⟨hbefore, -⟩⟩
      · exact absurd (Option.some.inj heq).symm hy
      · exact hbefore
    · intro hbefore
      refine ⟨?_, hx, .inr ⟨hbefore, rfl⟩⟩
      rintro rfl
      exact haway hbefore
  · rename_i hother
    constructor
    · rintro ⟨-, -, hbefore | ⟨-, hafter⟩⟩
      · exact hbefore
      · exact absurd hafter hother
    · intro hbefore
      refine ⟨?_, hx, .inl hbefore⟩
      rintro rfl
      exact hother hbefore

/-! ## Ways down -/

section Down

variable (h : WellFormed ws) (hd : ws.has d = true) (hclosed : ¬ ws.StaysOpen d)
include h hd hclosed

/-- **A way down is one without the block.** Where it begins at the block, what is left begins below
it, if anything is left. -/
theorem downFrom_deleteBlock (hdown : ws.DownFrom x ids) :
    (x ≠ d → (ws.deleteBlock d).2.DownFrom x (ids.filter (· != d))) ∧
    (x = d → (ws.successor? d = none → ids.filter (· != d) = []) ∧
      ∀ y, ws.successor? d = some y →
        (ws.deleteBlock d).2.DownFrom y (ids.filter (· != d))) := by
  induction hdown with
  | @last x hlast =>
    constructor
    · intro hx
      have hkept : [x].filter (· != d) = [x] := List.filter_cons_of_pos (by simpa using hx)
      rw [hkept]
      refine .last ?_
      rw [successor?_deleteBlock h hd hclosed hx, hlast]
      rfl
    · rintro rfl
      refine ⟨fun _ => by simp, fun y hy => ?_⟩
      cases hlast.symm.trans hy
  | @next x y ids hnext hdown ih =>
    have haway : x ≠ y := ne_of_mem_stackLinks h ((successor?_iff h).1 hnext)
    constructor
    · intro hx
      have hkept : (x :: ids).filter (· != d) = x :: ids.filter (· != d) :=
        List.filter_cons_of_pos (by simpa using hx)
      have hafter := successor?_deleteBlock h hd hclosed hx
      rw [hnext] at hafter
      rw [hkept]
      by_cases hy : y = d
      · -- the block is right below
        subst hy
        rw [if_pos rfl] at hafter
        rcases hbelow : ws.successor? y with _ | z
        · rw [(ih.2 rfl).1 hbelow]
          exact .last (hafter.trans hbelow)
        · exact .next (hafter.trans hbelow) ((ih.2 rfl).2 z hbelow)
      · rw [if_neg (by simpa using hy)] at hafter
        exact .next hafter (ih.1 hy)
    · rintro rfl
      have hgone : (x :: ids).filter (· != x) = ids.filter (· != x) :=
        List.filter_cons_of_neg (by simp)
      rw [hgone]
      refine ⟨fun hnone => ?_, fun z hz => ?_⟩
      · cases hnone.symm.trans hnext
      · obtain rfl := Option.some.inj (hnext.symm.trans hz)
        exact ih.1 haway.symm

/-- **A way down without the block is one of the ways before**, from which the block was taken. -/
theorem downFrom_of_deleteBlock (hx : x ≠ d) (hdown : (ws.deleteBlock d).2.DownFrom x ids) :
    ∃ old, ws.DownFrom x old ∧ ids = old.filter (· != d) := by
  -- the block is put back where it was
  induction hdown with
  | @last x hlast =>
    rw [successor?_deleteBlock h hd hclosed hx] at hlast
    split at hlast
    · rename_i hbefore
      refine ⟨[x, d], .next hbefore (.last hlast), ?_⟩
      simp [hx]
    · refine ⟨[x], .last hlast, ?_⟩
      simp [hx]
  | @next x y ids hnext _ ih =>
    have hstays : x ≠ d ∧ y ≠ d := by
      have hlink := (successor?_iff (h.delete d)).1 hnext
      rw [mem_stackLinks_deleteBlock h hd hclosed] at hlink
      exact ⟨hlink.1, hlink.2.1⟩
    obtain ⟨old, hold, rfl⟩ := ih hstays.2
    rw [successor?_deleteBlock h hd hclosed hx] at hnext
    split at hnext
    · rename_i hbefore
      refine ⟨x :: d :: old, .next hbefore (.next hnext hold), ?_⟩
      simp [hx]
    · refine ⟨x :: old, .next hnext hold, ?_⟩
      simp [hx]

/-- **The stacks when a block is deleted** are those before, with the block taken out, but for one
that it was the only block of. -/
theorem isStack_deleteBlock_iff : IsStack (ws.deleteBlock d).2 ids ↔
    ids ≠ [] ∧ ∃ old, IsStack ws old ∧ ids = old.filter (· != d) := by
  constructor
  · rintro ⟨top, hknown, htop, hdown⟩
    have hne : ids ≠ [] := by
      rintro rfl
      cases hdown.head?_eq
    obtain ⟨hbefore, haway⟩ : ws.has top = true ∧ top ≠ d := by
      rwa [has_deleteBlock, Bool.and_eq_true, bne_iff_ne] at hknown
    obtain ⟨old, hold, rfl⟩ := downFrom_of_deleteBlock h hd hclosed haway hdown
    refine ⟨hne, ?_⟩
    rw [predecessor?_deleteBlock h hd hclosed haway] at htop
    split at htop
    · -- the block was on top
      rename_i habove
      refine ⟨d :: old, ⟨d, hd, htop, .next ?_ hold⟩, ?_⟩
      · exact (successor?_iff h).2 ((predecessor?_iff h).1 habove)
      · simp
    · exact ⟨old, ⟨top, hbefore, htop, hold⟩, rfl⟩
  · rintro ⟨hne, old, ⟨top, hknown, htop, hdown⟩, rfl⟩
    obtain ⟨haway, hatop⟩ := downFrom_deleteBlock h hd hclosed hdown
    by_cases hx : top = d
    · subst hx
      rcases hbelow : ws.successor? top with _ | y
      · exact absurd ((hatop rfl).1 hbelow) hne
      have hlink := (successor?_iff h).1 hbelow
      have hy : y ≠ top := (ne_of_mem_stackLinks h hlink).symm
      refine ⟨y, ?_, ?_, (hatop rfl).2 y hbelow⟩
      · obtain ⟨e, he, -, htarget⟩ := joins_successor? hbelow
        rw [has_deleteBlock, Bool.and_eq_true, bne_iff_ne, ← htarget]
        exact ⟨(h.ends e he).2, htarget ▸ hy⟩
      · rw [predecessor?_deleteBlock h hd hclosed hy, (predecessor?_iff h).2 hlink, if_pos rfl]
        exact htop
    · refine ⟨top, ?_, ?_, haway hx⟩
      · rw [has_deleteBlock, Bool.and_eq_true, bne_iff_ne]
        exact ⟨hknown, hx⟩
      · rw [predecessor?_deleteBlock h hd hclosed hx, htop]
        rfl

end Down

/-! ## Gaps that stay open -/

/-- Below a gap that stays open there is nothing above. -/
theorem predecessor?_of_staysOpen (h : WellFormed ws) (hd : ws.has d = true)
    (hopen : ws.StaysOpen d) (hx : ws.successor? d = some x) :
    (ws.deleteBlock d).2.predecessor? x = none := by
  rw [Option.eq_none_iff_forall_ne_some]
  intro y hy
  have hedges : (ws.deleteBlock d).2.edges = (ws.lacking d).edges := by
    rw [edges_deleteBlock h hd, closing_of_staysOpen hopen, List.append_nil]
    rfl
  rw [predecessor?_iff (h.delete d), hedges, mem_stackLinks_lacking] at hy
  exact hy.2.1 (eq_above h hy.1 ((successor?_iff h).1 hx))

/-- **Where a gap stays open, the stacks are not those before without the block**: the part below
the gap has become one of its own. -/
theorem staysOpen_breaks (h : WellFormed ws) (hd : ws.has d = true) (hopen : ws.StaysOpen d) :
    ∃ ids, IsStack (ws.deleteBlock d).2 ids ∧
      ∀ old, IsStack ws old → ids ≠ old.filter (· != d) := by
  have ⟨above, below, habove, hbelow, _⟩ := hopen
  have hlink := (successor?_iff h).1 hbelow
  have haway : below ≠ d := (ne_of_mem_stackLinks h hlink).symm
  have hknown : ws.has below = true := by
    obtain ⟨e, he, -, rfl⟩ := joins_successor? hbelow
    exact (h.ends e he).2
  obtain ⟨ids, hids⟩ := exists_downFrom (h.delete d) below
  refine ⟨ids, ⟨below, ?_, predecessor?_of_staysOpen h hd hopen hbelow, hids⟩, ?_⟩
  · rw [has_deleteBlock, Bool.and_eq_true, bne_iff_ne]
    exact ⟨hknown, haway⟩
  rintro _ ⟨top, -, htop, hdown⟩ rfl
  -- the top of the stack before is not the block, so it is the one below the gap
  have hhead := hids.head?_eq
  have htopd : top ≠ d := by
    rintro rfl
    cases habove.symm.trans htop
  have heq : top = below := by
    cases hdown <;> simpa [htopd] using hhead
  subst heq
  cases htop.symm.trans ((predecessor?_iff h).2 hlink)

/-! ## Deleting a block -/

/-- **Deleting a block takes it out of its stack and touches nothing else.** In every workspace that
an editor can come to, deleting one of its blocks succeeds, and what is left are the other blocks,
the edges that do not touch the block, in order, and the edge that closes the gap, if there is one
and both its ends have a name; the rest of the workspace is as before. So the stacks are those
before without the block, exactly unless the block stood between two others of which one has an
empty id. -/
theorem deleteBlock_exact (hws : Reachable ws) (hd : ws.has d = true) :
    ws.deleteBlock d = (true, { ws with
      blocks := ws.blocks.filter (·.id != d)
      edges := (ws.edges.filter fun e => !e.touches d) ++
        closing (ws.predecessor? d) (ws.successor? d) }) ∧
    ((∀ ids, IsStack (ws.deleteBlock d).2 ids ↔
      ids ≠ [] ∧ ∃ old, IsStack ws old ∧ ids = old.filter (· != d)) ↔ ¬ ws.StaysOpen d) := by
  have h := ReachableBy.wellFormed hws
  have hanswer : (ws.deleteBlock d).1 = true := by rw [deleteBlock, if_pos hd]
  refine ⟨Prod.ext hanswer ?_, fun hlaw hopen => ?_, fun hclosed ids => ?_⟩
  · rw [deleteBlock_fields, blocks_deleteBlock, edges_deleteBlock h hd]
  · obtain ⟨ids, hids, hnone⟩ := staysOpen_breaks h hd hopen
    obtain ⟨-, old, hold, heq⟩ := (hlaw ids).1 hids
    exact hnone old hold heq
  · exact isStack_deleteBlock_iff h hd hclosed

/-- Three blocks, the first of which has a given id. -/
def threeNamed (first : String) : Workspace where
  blocks := [
    { id := first, type := .str "say" },
    { id := "b", type := .str "say" },
    { id := "c", type := .str "say" }]

/-- The three blocks in one stack. -/
def threeStacked (first : String) : Workspace :=
  let ws := ((Request.connectStack (.str first) (.str "b")).perform (threeNamed first)).2
  ((Request.connectStack (.str "b") (.str "c")).perform ws).2

theorem reachable_threeStacked {first : String}
    (h : ofGraph (threeNamed first).snapshot = .ok (threeNamed first)) :
    Reachable (threeStacked first) := by
  have hdrawn : Reachable (threeNamed first) := .drawn 0 h
  exact .asked (.asked hdrawn trivial) trivial

/-- The block in the middle is taken out of the stack. -/
theorem deleteBlock_threeStacked :
    ((threeStacked "a").deleteBlock "b").2.edges = [.stack "a" "c"] ∧
      IsStack (threeStacked "a") ["a", "b", "c"] ∧
      IsStack ((threeStacked "a").deleteBlock "b").2 ["a", "c"] := by
  have hws : Reachable (threeStacked "a") := reachable_threeStacked rfl
  have hstack : IsStack (threeStacked "a") ["a", "b", "c"] :=
    ⟨"a", by decide +kernel, by decide +kernel, .next (y := "b") (by decide +kernel)
      (.next (y := "c") (by decide +kernel) (.last (by decide +kernel)))⟩
  have habove : (threeStacked "a").predecessor? "b" = some "a" := by decide +kernel
  have hbelow : (threeStacked "a").successor? "b" = some "c" := by decide +kernel
  have hclosed : ¬ (threeStacked "a").StaysOpen "b" := by
    rintro ⟨above, below, habove', hbelow', hempty⟩
    cases habove.symm.trans habove'
    cases hbelow.symm.trans hbelow'
    revert hempty
    decide
  obtain ⟨-, hstacks⟩ := deleteBlock_exact hws (d := "b") (by decide +kernel)
  refine ⟨by decide +kernel, hstack, (hstacks.2 hclosed ["a", "c"]).2 ⟨by decide, _, hstack, ?_⟩⟩
  decide +kernel

/-- **A gap below a block without a name stays open.** The block in the middle had one above it and
one below it, and the stack is not joined. -/
theorem deleteBlock_nameless : Reachable (threeStacked "") ∧ (threeStacked "").has "b" = true ∧
    (threeStacked "").predecessor? "b" = some "" ∧ (threeStacked "").successor? "b" = some "c" ∧
    ((threeStacked "").deleteBlock "b").2.edges = [] :=
  ⟨reachable_threeStacked rfl, by decide +kernel, by decide +kernel, by decide +kernel,
    by decide +kernel⟩

end Workspace

end BlockProgram
