import BlockProgram.Proofs.Program.Links
import BlockProgram.Proofs.Workspace.Removal

/-!
# Roots of a program

The nodes of a compiled program stand in stacks: each node stands right above the one that its
`next` leads to (`Program.RightAbove`). In a program that is compiled from what an editor draws the
stacks do not branch upward and have a top (`Program.Rooted`):

* two nodes never stand right above the same one, since a block has one predecessor;
* going up comes to an end, since links only lead forward;
* so above every node there is exactly one root, a node that none stands above, and a program with
  any nodes has an entry, which is a root (`Program.rooted_of_compile`).
-/

namespace BlockProgram

open Relation

/-- The blocks that a source holds. -/
def Source.blocks : Source → List Block
  | .graph g => g.blocks
  | .workspace ws => ws.blocks

namespace Program

variable {p : Program} {a b id : String}

/-- One node stands right above the other in a stack. -/
def RightAbove (p : Program) (a b : String) : Prop := ∃ n, p.node? a = some n ∧ n.next = some b

/-- What is right above a node is linked to it. -/
theorem RightAbove.links (h : p.RightAbove a b) : p.Links a b := by
  obtain ⟨n, hn, hnext⟩ := h
  exact links_next hn hnext

/-- What holds of the roots of a program whose stacks have a top. -/
structure Rooted (p : Program) : Prop where
  /-- no root is listed twice -/
  nodup : p.roots.Nodup
  /-- the roots are the nodes that none stands right above -/
  root_iff : ∀ id, id ∈ p.roots ↔ (∃ n, p.node? id = some n) ∧ ∀ a, ¬ p.RightAbove a id
  entry_mem : ∀ id, p.entry = some id → id ∈ p.roots
  /-- there is one way up only -/
  above : ∀ {a b id}, p.RightAbove a id → p.RightAbove b id → a = b
  /-- the way up comes to an end -/
  wellFounded : WellFounded p.RightAbove
  /-- and it ends at a root, the same one wherever the way begins -/
  top : ∀ id n, p.node? id = some n → ∃! r, r ∈ p.roots ∧ ReflTransGen p.RightAbove r id

/-! ## The way up -/

/-- From every node a root is reached by going up. -/
theorem exists_root (hwf : WellFounded p.RightAbove)
    (hroots : ∀ id, id ∈ p.roots ↔ (∃ n, p.node? id = some n) ∧ ∀ a, ¬ p.RightAbove a id)
    {n : Node} (hn : p.node? b = some n) : ∃ r ∈ p.roots, ReflTransGen p.RightAbove r b := by
  induction b using hwf.induction generalizing n with
  | h b ih =>
    by_cases htop : ∀ a, ¬ p.RightAbove a b
    · exact ⟨b, (hroots b).2 ⟨⟨n, hn⟩, htop⟩, .refl⟩
    · obtain ⟨a, m, hm, hnext⟩ := not_forall_not.1 htop
      obtain ⟨r, hr, hway⟩ := ih a ⟨m, hm, hnext⟩ hm
      exact ⟨r, hr, hway.tail ⟨m, hm, hnext⟩⟩

/-- Two ways up from the same node do not part. -/
theorem eq_root (habove : ∀ {a b id}, p.RightAbove a id → p.RightAbove b id → a = b)
    (ha : ∀ c, ¬ p.RightAbove c a) (hb : ∀ c, ¬ p.RightAbove c b)
    (haway : ReflTransGen p.RightAbove a id) (hbway : ReflTransGen p.RightAbove b id) : a = b := by
  induction haway with
  | refl =>
    rcases hbway.cases_tail with heq | ⟨c, -, hc⟩
    · exact heq
    · exact absurd hc (ha c)
  | tail _ hstep ih =>
    rcases hbway.cases_tail with rfl | ⟨c, hbway, hc⟩
    · exact absurd hstep (hb _)
    · rw [habove hstep hc] at ih
      exact ih hbway

/-- An entry is chosen as soon as there is a root. -/
theorem isSome_chooseEntry (nodes : List Node) (roots : List String) :
    (chooseEntry nodes roots).isSome ↔ roots ≠ [] := by
  simp only [chooseEntry]
  split
  · rename_i root hfound
    exact ⟨fun _ => List.ne_nil_of_mem (List.mem_of_find?_eq_some hfound), fun _ => rfl⟩
  · rw [List.isSome_head?]

/-! ## Compiled programs -/

open Workspace in
/-- One node stands right above another exactly if a stack edge joins their blocks. -/
theorem rightAbove_iff {ws : Workspace} (h : WellFormed ws) (hdistinct : Distinct ws)
    (hp : build ws.blocks ws.edges = .ok p) : p.RightAbove a b ↔ ws.predecessor? b = some a := by
  rw [predecessor?_iff h, ← successor?_iff h]
  constructor
  · rintro ⟨n, hn, hnext⟩
    obtain ⟨block, hblock, hnode⟩ := exists_nodeOf h hdistinct hp hn
    rw [← hnext, hnode.next, block?_id hblock]
  · intro hsuccessor
    obtain ⟨e, he, hkind, rfl, -⟩ := mem_stackLinks.1 ((successor?_iff h).1 hsuccessor)
    obtain ⟨n, hn⟩ : ∃ n, p.node? e.source = some n := by
      rw [← Option.isSome_iff_exists, isSome_node?_build hp]
      exact (h.ends e he).1
    obtain ⟨block, hblock, hnode⟩ := exists_nodeOf h hdistinct hp hn
    exact ⟨n, hn, by rw [hnode.next, block?_id hblock, hsuccessor]⟩

open Workspace in
/-- **The program of a well-formed workspace is rooted**, and has an entry if it has any block. -/
theorem rooted_of_build {ws : Workspace} (h : WellFormed ws) (hdistinct : Distinct ws)
    (hp : build ws.blocks ws.edges = .ok p) :
    p.Rooted ∧ (p.entry.isSome ↔ ws.blocks ≠ []) := by
  have hwf : WellFounded p.RightAbove :=
    Subrelation.wf RightAbove.links (forward_of_build h.acyclic hp).wellFounded_back
  have habove {a b id : String} (ha : p.RightAbove a id) (hb : p.RightAbove b id) : a = b := by
    rw [rightAbove_iff h hdistinct hp] at ha hb
    exact Option.some.inj (ha.symm.trans hb)
  have hroots (id : String) :
      id ∈ p.roots ↔ (∃ n, p.node? id = some n) ∧ ∀ a, ¬ p.RightAbove a id := by
    rw [roots_eq h hp, ← Option.isSome_iff_exists, isSome_node?_build hp]
    simp only [rightAbove_iff h hdistinct hp, tops, List.mem_map, List.mem_filter, List.any_eq_true,
      beq_iff_eq, Option.isNone_iff_eq_none, ← Option.eq_none_iff_forall_ne_some]
    constructor
    · rintro ⟨block, ⟨hblock, htop⟩, rfl⟩
      exact ⟨⟨block, hblock, rfl⟩, htop⟩
    · rintro ⟨⟨block, hblock, rfl⟩, htop⟩
      exact ⟨block, ⟨hblock, htop⟩, rfl⟩
  obtain ⟨-, -, -, -, hentry⟩ := build_ok hp
  have hmem (id : String) (hid : p.entry = some id) : id ∈ p.roots :=
    chooseEntry_mem (hentry ▸ hid)
  refine ⟨⟨?_, hroots, hmem, habove, hwf, fun id n hn => ?_⟩, ?_⟩
  · rw [roots_eq h hp]
    exact hdistinct.sublist (List.filter_sublist.map _)
  · obtain ⟨r, hr, hway⟩ := exists_root hwf hroots hn
    refine ⟨r, ⟨hr, hway⟩, fun r' hr' => ?_⟩
    exact eq_root habove ((hroots r').1 hr'.1).2 ((hroots r).1 hr).2 hr'.2 hway
  · rw [hentry, isSome_chooseEntry]
    constructor
    · intro hsome hnil
      rw [roots_eq h hp, tops, hnil] at hsome
      exact hsome rfl
    · intro hblocks hnil
      -- above any block there is a root
      obtain ⟨block, hblock⟩ := List.exists_mem_of_ne_nil _ hblocks
      obtain ⟨n, hn, -⟩ := exists_compiled h hdistinct hp (block?_of_mem hdistinct hblock)
      obtain ⟨r, hr, -⟩ := exists_root hwf hroots hn
      rw [hnil] at hr
      cases hr

/-- **Every program that is compiled from what an editor draws is rooted**: above each of its nodes
is exactly one root, and it has an entry, which is a root, exactly if there is any block. -/
theorem rooted_of_compile {source : Source} (hsource : source.Drawn)
    (hp : source.compile = .ok p) : p.Rooted ∧ (p.entry.isSome ↔ source.blocks ≠ []) := by
  cases source with
  | graph g =>
    simp only [Source.compile, Source.snapshot, ProgramGraph.repaired] at hp
    rcases hdrawn : Workspace.ofGraph g with fault | ws <;> rw [hdrawn] at hp
    · cases hp
    have hreachable : ws.Reachable := .drawn ws.issued hdrawn
    obtain ⟨hrooted, hentry⟩ := rooted_of_build hreachable.wellFormed hreachable.distinct hp
    refine ⟨hrooted, hentry.trans (not_congr ?_)⟩
    -- drawing the edges keeps every block
    obtain ⟨-, hws⟩ := Workspace.ofGraph_ok hdrawn
    obtain ⟨sockets, -, hblocks⟩ := (Workspace.redrawn_foldl g.blocks g.edges).blocks
    rw [hws, hblocks, List.map_eq_nil_iff]
    rfl
  | workspace ws =>
    have hreachable : ws.Reachable := hsource
    exact rooted_of_build hreachable.wellFormed hreachable.distinct hp

/-- Two blocks that are each to follow the other, under one that is to start them, and a branch that
is drawn back to the one it hangs on. -/
def circling : ProgramGraph where
  blocks := [
    { id := "x", type := .str "say" },
    { id := "y", type := .str "repeat_times" },
    { id := "s", type := .str "start" },
    { id := "t", type := .str "clear" }]
  edges := [.stack "x" "y", .stack "y" "x", .stack "s" "x", .toBranch "y" none "t",
    .toBranch "t" none "y", .stack "t" "t"]

/-- The links that would close a circle are not drawn. So each of the two chains has a root, which is
the start for the first one, and one root alone is above the loop. -/
theorem rooted_circling : (Source.graph circling).Drawn ∧
    ∃ p, (Source.graph circling).compile = .ok p ∧ p.Rooted ∧ p.roots = ["s", "t"] ∧
      p.entry = some "s" ∧ ∃! r, r ∈ p.roots ∧ ReflTransGen p.RightAbove r "y" := by
  have hdrawn : (Source.graph circling).Drawn := trivial
  have hheads : (Source.graph circling).compile.toOption.map (fun p => (p.roots, p.entry)) =
      some (["s", "t"], some "s") := by decide +kernel
  rcases hp : (Source.graph circling).compile with fault | p
  · rw [hp] at hheads
    cases hheads
  obtain ⟨hrooted, -⟩ := rooted_of_compile hdrawn hp
  have hy : ((Source.graph circling).compile.toOption.bind (·.node? "y")).isSome = true := by
    decide +kernel
  rw [hp] at hheads hy
  obtain ⟨hroots, hstart⟩ := Prod.mk.inj (Option.some.inj hheads)
  obtain ⟨n, hn⟩ := Option.isSome_iff_exists.1 hy
  exact ⟨hdrawn, p, rfl, hrooted, hroots, hstart, hrooted.top "y" n hn⟩

end Program

end BlockProgram
