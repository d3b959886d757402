import BlockProgram.Proofs.Graph.Reach
import BlockProgram.Proofs.Workspace.Change

/-!
# What holds of every workspace

A workspace that an editor can come to (`Workspace.Reachable`) is drawn from a graph, or the
empty one, and then changed by any requests, those included that are refused or fail midway. What
every change keeps holds of all of these (`Workspace.holds_of_reachableBy`). No two of their blocks
have the same id (`Workspace.Distinct`), and they are **well formed** (`Workspace.WellFormed`):
edges join known blocks, they close no cycle even across their kinds, stacks do not fork, and a
socket has one reporter.

Being well formed is kept by removing edges and by putting an edge in the place of its rivals, as
long as its source cannot be reached from its target (`WellFormed.replace`). The guard of the
editor asks for this, and deleting a block needs no guard: the edge that joins the stack
around the block stands for a way that was there before (`WellFormed.delete`).
-/

namespace BlockProgram

open Relation

/-- At most one of the edges has a property. -/
def Single (p : Edge → Bool) (edges : List Edge) : Prop := (edges.filter p).length ≤ 1

instance (p : Edge → Bool) (edges : List Edge) : Decidable (Single p edges) :=
  inferInstanceAs (Decidable ((edges.filter p).length ≤ 1))

section Single

variable {p : Edge → Bool} {edges : List Edge}

/-- Where one edge was, there is still at most one when some are removed. -/
theorem Single.filter (h : Single p edges) (q : Edge → Bool) : Single p (edges.filter q) :=
  Nat.le_trans (List.filter_sublist.filter p).length_le h

/-- One more edge with the property needs all others with it to have gone. -/
theorem Single.replace (h : Single p edges) {rivals : Edge → Bool} {e : Edge}
    (hrivals : p e = true → ∀ e', p e' = true → rivals e' = true) :
    Single p ((edges.filter fun e' => !rivals e') ++ [e]) := by
  simp only [Single]
  rw [List.filter_append, List.length_append]
  by_cases he : p e = true
  · have hgone : (edges.filter fun e' => !rivals e').filter p = [] := by
      rw [List.filter_eq_nil_iff]
      intro e' he' hp
      have hkept := (List.mem_filter.1 he').2
      rw [hrivals he e' hp] at hkept
      cases hkept
    rw [hgone, List.filter_cons_of_pos he]
    exact Nat.le_refl 1
  · rw [List.filter_cons_of_neg he]
    exact h.filter _

/-- Where one edge is of a kind, at most one is of a narrower kind. -/
theorem Single.mono {q : Edge → Bool} (h : Single q edges)
    (hpq : ∀ e ∈ edges, p e = true → q e = true) : Single p edges := by
  simp only [Single, ← List.countP_eq_length_filter] at h ⊢
  exact Nat.le_trans (List.countP_mono_left hpq) h

/-- It is enough to look at the edges that have the property. -/
theorem single_of_mem (h : ∀ e ∈ edges, p e = true → Single p edges) : Single p edges := by
  simp only [Single]
  rcases hfilter : edges.filter p with _ | ⟨e, rest⟩
  · exact Nat.zero_le 1
  · obtain ⟨he, hp⟩ := List.mem_filter.1 (hfilter ▸ List.mem_cons_self)
    rw [← hfilter]
    exact h e he hp

/-- An edge with the property is the only one exactly if no other edge has it. -/
theorem single_split_iff {e : Edge} {rest : List Edge} (he : p e = true) :
    Single p (edges ++ e :: rest) ↔ ∀ e' ∈ edges ++ rest, p e' = false := by
  have hothers : (edges ++ e :: rest).filter p = edges.filter p ++ e :: rest.filter p := by
    rw [List.filter_append, List.filter_cons_of_pos he]
  have hnone : (∀ e' ∈ edges ++ rest, p e' = false) ↔ (edges ++ rest).filter p = [] := by
    simp only [List.filter_eq_nil_iff, Bool.not_eq_true]
  rw [hnone, Single, hothers, List.filter_append, ← List.length_eq_zero_iff]
  simp only [List.length_append, List.length_cons]
  omega

end Single

namespace Workspace

variable {ws ws' : Workspace} {retype : Prop}

/-! ## Reachable workspaces -/

/-- The workspaces that an editor can come to with certain requests: drawn from a graph, whatever
the ids handed out before, and left by a request, whatever its answer. -/
inductive ReachableBy (may : Workspace → Request → Prop) : Workspace → Prop
  | drawn {g : ProgramGraph} {ws : Workspace} (issued : Nat) :
    ofGraph g = .ok ws → ReachableBy may { ws with issued }
  | asked {ws : Workspace} {r : Request} :
    ReachableBy may ws → may ws r → ReachableBy may (r.perform ws).2

/-- The workspaces that an editor can come to. -/
def Reachable : Workspace → Prop := ReachableBy fun _ _ => True

/-- What plain changes keep, and branches under any key, is kept by every request, whatever it
answers. -/
theorem kept_perform {I : Workspace → Prop}
    (hplain : ∀ {ws ws' : Workspace}, I ws → Plain retype ws ws' → I ws')
    (hbranch : ∀ {ws : Workspace} {parent child : String} {key : Option String}, I ws →
      ws.canConnect parent child = true →
      I (ws.replaceEdges (fillsBranch parent key) (.toBranch parent key child)))
    (h : I ws) {r : Request} (hretype : ∀ id updates, r = .updateBlock id updates → retype) :
    I (r.perform ws).2 := by
  by_cases hblank : ∃ parent child, r.blankBranch? = some (parent, child) ∧
      ws.canConnect parent child = true
  · obtain ⟨parent, child, hr, hcan⟩ := hblank
    obtain ⟨key, -, hdrawn⟩ := Request.perform_blankBranch hr hcan
    rw [hdrawn, connectBranch, if_pos hcan]
    exact hbranch h hcan
  · refine kept_of_changes hplain h (Request.makes_perform hretype fun parent child hr => ?_)
    exact Bool.eq_false_iff.2 fun hcan => hblank ⟨parent, child, hr, hcan⟩

/-- What holds of the empty workspace and is kept by these changes holds of every workspace. -/
theorem holds_of_reachableBy {may : Workspace → Request → Prop} {I : Workspace → Prop}
    (hempty : I {}) (hplain : ∀ {ws ws' : Workspace}, I ws → Plain True ws ws' → I ws')
    (hbranch : ∀ {ws : Workspace} {parent child : String} {key : Option String}, I ws →
      ws.canConnect parent child = true →
      I (ws.replaceEdges (fillsBranch parent key) (.toBranch parent key child)))
    (h : ReachableBy may ws) : I ws := by
  induction h with
  | @drawn g ws issued hdrawn =>
    have hws : I ws := kept_of_changes hplain hempty (plain_of_ofGraph True hdrawn)
    exact hplain hws (.keep rfl rfl .same)
  | @asked ws r _ _ ih => exact kept_perform hplain hbranch ih fun _ _ _ => trivial

/-! ## Distinct ids -/

/-- No two blocks have the same id. -/
def Distinct (ws : Workspace) : Prop := (ws.blocks.map (·.id)).Nodup

/-- Every plain step keeps the ids distinct, as a block is added only under a new id. -/
theorem Distinct.plain (h : Distinct ws) (hchange : Plain retype ws ws') : Distinct ws' := by
  cases hchange with
  | keep hblocks _ _ => rwa [Distinct, hblocks]
  | alter hf _ => rwa [Distinct, ids_modifyBlock hf]
  | @add b hnew =>
    rw [has_eq_contains, List.contains_eq_mem, decide_eq_false_iff_not] at hnew
    rw [Distinct, List.map_append]
    refine List.nodup_append.2 ⟨h, List.pairwise_singleton _ _, fun id hid other hother => ?_⟩
    rintro rfl
    rw [List.mem_singleton.1 hother] at hid
    exact hnew hid
  | remove _ => exact h
  | stack _ => exact h
  | branch _ _ => exact h
  | plugIn _ _ => exact h
  | delete id =>
    have hlacking : Distinct (ws.lacking id) := h.sublist (List.filter_sublist.map _)
    rcases deleteBlock_cases ws id with hsame | hgone | ⟨above, below, -, -, hjoined⟩
    · rw [hsame]
      exact h
    · rw [hgone]
      exact hlacking
    · rw [hjoined]
      exact hlacking

/-- **Ids are distinct in every workspace that requests lead to.** -/
theorem ReachableBy.distinct {may : Workspace → Request → Prop} (h : ReachableBy may ws) :
    Distinct ws :=
  holds_of_reachableBy List.nodup_nil Distinct.plain (fun h _ => h) h

/-! ## Well-formed workspaces -/

/-- Which edges fill a socket. -/
theorem fillsSocket_iff {id : String} {socket : Option String} {e : Edge} :
    fillsSocket id socket e = true ↔ e.kind = .input ∧ e.source = id ∧ e.socket = socket := by
  simp [fillsSocket, and_assoc]

/-- What holds of the edges of every workspace. -/
structure WellFormed (ws : Workspace) : Prop where
  /-- both ends of an edge are blocks -/
  ends : ∀ e ∈ ws.edges, ws.has e.source = true ∧ ws.has e.target = true
  /-- the edges of all kinds together close no cycle -/
  acyclic : Acyclic ws.edges
  /-- at most one stack edge leaves a block -/
  successor : ∀ id, Single (fun e => e.kind == .stack && e.source == id) ws.edges
  /-- at most one stack edge enters a block -/
  predecessor : ∀ id, Single (fun e => e.kind == .stack && e.target == id) ws.edges
  /-- at most one input edge fills a socket of a block -/
  socket : ∀ id socket, Single (fillsSocket id socket) ws.edges

theorem wellFormed_empty : WellFormed {} where
  ends _ he := absurd he List.not_mem_nil
  acyclic := acyclic_nil
  successor _ := Nat.zero_le _
  predecessor _ := Nat.zero_le _
  socket _ _ := Nat.zero_le _

/-- Only the edges count, and which ids are known. -/
theorem WellFormed.keep (h : WellFormed ws) (hedges : ws'.edges = ws.edges)
    (hhas : ∀ id, ws.has id = true → ws'.has id = true) : WellFormed ws' := by
  obtain ⟨hends, hacyclic, hsuccessor, hpredecessor, hsocket⟩ := h
  rw [← hedges] at hends hacyclic hsuccessor hpredecessor hsocket
  exact ⟨fun e he => ⟨hhas _ (hends e he).1, hhas _ (hends e he).2⟩, hacyclic, hsuccessor,
    hpredecessor, hsocket⟩

/-- Fewer edges stay in order, if their ends stay known. -/
theorem WellFormed.filter (h : WellFormed ws) {q : Edge → Bool}
    (hedges : ws'.edges = ws.edges.filter q)
    (hends : ∀ e ∈ ws'.edges, ws'.has e.source = true ∧ ws'.has e.target = true) :
    WellFormed ws' where
  ends := hends
  acyclic := h.acyclic.mono fun _ he => (List.mem_filter.1 (hedges ▸ he)).1
  successor id := hedges ▸ (h.successor id).filter q
  predecessor id := hedges ▸ (h.predecessor id).filter q
  socket id socket := hedges ▸ (h.socket id socket).filter q

/-- Removing edges breaks none of the rules. -/
theorem WellFormed.remove (h : WellFormed ws) (p : Edge → Bool) : WellFormed (ws.removeEdges p) :=
  h.filter rfl fun e he => h.ends e (List.mem_filter.1 he).1

/-- An edge may take the place of its rivals if it joins known blocks and its source cannot be
reached from its target. -/
theorem WellFormed.replace (h : WellFormed ws) {rivals : Edge → Bool} {e : Edge}
    (hsource : ws.has e.source = true) (htarget : ws.has e.target = true)
    (hwalk : ¬ ReflTransGen (Joins ws.edges) e.target e.source)
    (hstack : e.kind = .stack → ∀ e', e'.kind = .stack →
      e'.source = e.source ∨ e'.target = e.target → rivals e' = true)
    (hinput : e.kind = .input → ∀ e', e'.kind = .input →
      e'.source = e.source → e'.socket = e.socket → rivals e' = true) :
    WellFormed (ws.replaceEdges rivals e) where
  ends e' he' := by
    rcases List.mem_append.1 he' with he' | he'
    · exact h.ends e' (List.mem_filter.1 he').1
    · rw [List.mem_singleton.1 he']
      exact ⟨hsource, htarget⟩
  acyclic := by
    refine (h.remove rivals).acyclic.append fun hback => hwalk ?_
    exact .mono (fun _ _ => Joins.mono fun _ he => (List.mem_filter.1 he).1) _ _ hback
  successor id := by
    refine (h.successor id).replace fun he e' he' => ?_
    rw [Bool.and_eq_true, beq_iff_eq, beq_iff_eq] at he he'
    exact hstack he.1 e' he'.1 (.inl (he'.2.trans he.2.symm))
  predecessor id := by
    refine (h.predecessor id).replace fun he e' he' => ?_
    rw [Bool.and_eq_true, beq_iff_eq, beq_iff_eq] at he he'
    exact hstack he.1 e' he'.1 (.inr (he'.2.trans he.2.symm))
  socket id socket := by
    refine (h.socket id socket).replace fun he e' he' => ?_
    obtain ⟨hkind, hsource, hsocket⟩ := fillsSocket_iff.1 he
    obtain ⟨hkind', hsource', hsocket'⟩ := fillsSocket_iff.1 he'
    exact hinput hkind e' hkind' (hsource'.trans hsource.symm) (hsocket'.trans hsocket.symm)

/-- What the guard of the editor says. -/
theorem canConnect_iff {source target : String} : ws.canConnect source target = true ↔
    ws.has source = true ∧ ws.has target = true ∧ ws.isStop source = false ∧
      ¬ ReflTransGen (Joins ws.edges) target source := by
  have hcycle : ws.wouldCycle source target = true ↔
      ReflTransGen (Joins ws.edges) target source := by
    rw [wouldCycle, reaches_iff]
    constructor
    · rintro ⟨a, ha, hwalk⟩
      rwa [List.mem_singleton.1 ha] at hwalk
    · exact fun hwalk => ⟨target, List.mem_singleton_self _, hwalk⟩
  rw [← hcycle, canConnect]
  simp [and_assoc]

/-- Stacking two known blocks keeps the rules if the upper one cannot be reached from the lower
one: what else they were stacked on is removed. -/
theorem wellFormed_stack (h : WellFormed ws) {above below : String}
    (habove : ws.has above = true) (hbelow : ws.has below = true)
    (hwalk : ¬ ReflTransGen (Joins ws.edges) below above) :
    WellFormed (ws.replaceEdges (rivalsStack above below) (.stack above below)) := by
  refine h.replace habove hbelow hwalk (fun _ e' hkind hends => ?_) fun hkind => nomatch hkind
  change e'.source = above ∨ e'.target = below at hends
  simpa [rivalsStack, hkind] using hends

/-- So does linking a branch that the guard lets through. -/
theorem wellFormed_branch (h : WellFormed ws) {parent child : String} {key : Option String}
    (hcan : ws.canConnect parent child = true) :
    WellFormed (ws.replaceEdges (fillsBranch parent key) (.toBranch parent key child)) := by
  obtain ⟨hparent, hchild, -, hwalk⟩ := canConnect_iff.1 hcan
  exact h.replace hparent hchild hwalk (fun hkind => nomatch hkind) fun hkind => nomatch hkind

/-! ## Deleting a block -/

theorem joins_predecessor? {id above : String} (h : ws.predecessor? id = some above) :
    Joins ws.edges above id := by
  obtain ⟨e, he, rfl⟩ := Option.map_eq_some_iff.1 h
  have hends := List.find?_some he
  rw [Bool.and_eq_true, beq_iff_eq, beq_iff_eq] at hends
  exact ⟨e, List.mem_of_find?_eq_some he, rfl, hends.2⟩

theorem joins_successor? {id below : String} (h : ws.successor? id = some below) :
    Joins ws.edges id below := by
  obtain ⟨e, he, rfl⟩ := Option.map_eq_some_iff.1 h
  have hends := List.find?_some he
  rw [Bool.and_eq_true, beq_iff_eq, beq_iff_eq] at hends
  exact ⟨e, List.mem_of_find?_eq_some he, hends.2, rfl⟩

/-- Deleting a block takes its edges along, so no end is left without a block. -/
theorem WellFormed.lacking (h : WellFormed ws) (id : String) : WellFormed (ws.lacking id) := by
  refine h.filter (edges_lacking id) fun e he => ?_
  rw [edges_lacking, List.mem_filter] at he
  obtain ⟨hsource, htarget⟩ := h.ends e he.1
  have haway : e.source ≠ id ∧ e.target ≠ id := by simpa [Edge.touches] using he.2
  exact ⟨has_lacking hsource haway.1, has_lacking htarget haway.2⟩

/-- **Deleting a block keeps the edges in order.** The edge that joins the stack around it closes
no cycle, as the way through the block was there before. -/
theorem WellFormed.delete (h : WellFormed ws) (id : String) : WellFormed (ws.deleteBlock id).2 := by
  rcases deleteBlock_cases ws id with hsame | hgone | ⟨above, below, habove, hbelow, hjoined⟩
  · rw [hsame]
    exact h
  · rw [hgone]
    exact h.lacking id
  rw [hjoined]
  have hin := joins_predecessor? habove
  have hout := joins_successor? hbelow
  -- neither end is the block itself, which would be a cycle of one edge
  have haboveid : above ≠ id := by
    rintro rfl
    exact h.acyclic above (.single hin)
  have hbelowid : below ≠ id := by
    rintro rfl
    exact h.acyclic below (.single hout)
  have haboveknown : ws.has above = true := by
    obtain ⟨e, he, rfl, -⟩ := hin
    exact (h.ends e he).1
  have hbelowknown : ws.has below = true := by
    obtain ⟨e, he, -, rfl⟩ := hout
    exact (h.ends e he).2
  refine wellFormed_stack (h.lacking id) (has_lacking haboveknown haboveid)
    (has_lacking hbelowknown hbelowid) fun hback => ?_
  -- a way back would lead around through the block
  have hback : ReflTransGen (Joins ws.edges) below above :=
    .mono (fun _ _ => Joins.mono fun e he => (List.mem_filter.1 he).1) _ _ hback
  exact h.acyclic id (.head' hout (hback.tail hin))

/-! ## All changes -/

/-- **Every plain step keeps the rules of graphs.** -/
theorem WellFormed.plain (h : WellFormed ws) (hchange : Plain retype ws ws') : WellFormed ws' := by
  cases hchange with
  | keep hblocks hedges _ => exact h.keep hedges fun id hid => by rwa [has, hblocks]
  | alter hf _ => exact h.keep rfl fun id hid => by rwa [has_modifyBlock hf]
  | add _ =>
    refine h.keep rfl fun id hid => ?_
    simp only [has, List.any_append, Bool.or_eq_true] at hid ⊢
    exact .inl hid
  | remove p => exact h.remove p
  | stack hcan =>
    obtain ⟨habove, hbelow, -, hwalk⟩ := canConnect_iff.1 hcan
    exact wellFormed_stack h habove hbelow hwalk
  | branch _ hcan => exact wellFormed_branch h hcan
  | plugIn socket hcan =>
    obtain ⟨hparent, hchild, -, hwalk⟩ := canConnect_iff.1 hcan
    refine h.replace hparent hchild hwalk ?_
      fun _ e' hkind hsource hsocket => fillsSocket_iff.2 ⟨hkind, hsource, hsocket⟩
    -- a plugged edge is no step down a stack
    intro hkind
    cases hkind
  | delete id => exact h.delete id

/-- **So they hold in every workspace that requests lead to**, failed requests included. -/
theorem ReachableBy.wellFormed {may : Workspace → Request → Prop} (h : ReachableBy may ws) :
    WellFormed ws :=
  holds_of_reachableBy wellFormed_empty WellFormed.plain (fun h hcan => wellFormed_branch h hcan) h

/-- **Every workspace is well formed**: in every workspace that an editor can come to, by any
requests in any order, edges join known blocks, close no cycle across their kinds, and neither
fork a stack nor crowd a socket. -/
theorem wellFormed_of_reachable (h : Reachable ws) : WellFormed ws := h.wellFormed

/-- Three blocks that may become a stack. -/
def threeBlocks : Workspace where
  blocks := [
    { id := "a", type := .str "start" },
    { id := "b", type := .str "clear" },
    { id := "c", type := .str "stop" }]

/-- The stack is drawn, and the block in the middle deleted. -/
def unstacked : Workspace :=
  let ws := ((Request.connectStack (.str "a") (.str "b")).perform threeBlocks).2
  let ws := ((Request.connectStack (.str "b") (.str "c")).perform ws).2
  ((Request.deleteBlock (.str "b")).perform ws).2

/-- The stack is joined again, and nothing has got out of order. -/
theorem wellFormed_unstacked : unstacked.edges = [.stack "a" "c"] ∧ WellFormed unstacked := by
  have hgraph : ofGraph threeBlocks.snapshot = .ok threeBlocks := rfl
  have hdrawn : Reachable threeBlocks := .drawn 0 hgraph
  exact ⟨by decide +kernel, wellFormed_of_reachable
    (.asked (.asked (.asked hdrawn trivial) trivial) trivial)⟩

end Workspace

end BlockProgram
