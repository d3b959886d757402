import BlockProgram.Proofs.Workspace.Redraw

/-!
# Orderly graphs

A graph is **orderly** (`ProgramGraph.Orderly`) if it keeps all rules of an editor: its edges join
known blocks and close no cycle, no two claim the same place, and none leaves a block that ends
the program. Whether it is can be checked edge by edge (`ProgramGraph.orderly_iff`).

Drawing a graph anew makes it orderly and changes nothing else (`ProgramGraph.Repairs`). Of an
orderly graph every edge is drawn (`ProgramGraph.Orderly.foldl_redraw`): no edge of it closes a
cycle with those before it, and none has a rival there. So what was repaired once stays as it is
(`ProgramGraph.Repairs.repaired_again`).
-/

namespace BlockProgram

open Relation

/-- The workspace that holds a graph as it is. -/
def ProgramGraph.opened (g : ProgramGraph) : Workspace := { blocks := g.blocks, edges := g.edges }

/-- A graph that keeps all rules of an editor: it is well formed, branches have one head, an
edge at a socket names it, and none leaves a block that ends the program. -/
structure ProgramGraph.Orderly (g : ProgramGraph) : Prop extends g.opened.WellFormed where
  branch : g.opened.UniqueSlots
  named : ∀ e ∈ g.edges, e.Named
  running : ∀ e ∈ g.edges, g.opened.isStop e.source = false

namespace ProgramGraph

open Workspace

variable {g g' : ProgramGraph} {done rest : List Edge} {e e' : Edge}

/-- In an orderly graph no edge claims the place of another. -/
theorem Orderly.single_replaces (h : g.Orderly) (he : e ∈ g.edges) :
    Single (e.connection.replaces e.source e.target) g.edges := by
  rcases hkind : e.kind
  all_goals simp only [Edge.connection, hkind, Connection.replaces]
  · obtain ⟨before, after, hedges⟩ := List.append_of_mem he
    have hsuccessor : Single (fun e' => e'.kind == .stack && e'.source == e.source) g.edges :=
      h.successor e.source
    have hpredecessor : Single (fun e' => e'.kind == .stack && e'.target == e.target) g.edges :=
      h.predecessor e.target
    rw [hedges, single_split_iff (by simp [hkind])] at hsuccessor hpredecessor
    rw [hedges, single_split_iff (by simp [rivalsStack, hkind])]
    intro e' he'
    rw [rivalsStack, Bool.and_or_distrib_left, hsuccessor e' he', hpredecessor e' he']
    rfl
  · exact h.branch e.source _
  · obtain ⟨socket, hsocket⟩ := Option.isSome_iff_exists.1 (h.named e he hkind)
    rw [hsocket]
    exact h.socket e.source _

theorem fillsSocket_of_named (h : e.Named) (hkind : e.kind = .input) :
    e.connection.replaces e.source e.target = fillsSocket e.source e.socket := by
  obtain ⟨socket, hsocket⟩ := Option.isSome_iff_exists.1 (h hkind)
  simp only [Edge.connection, hkind, Connection.replaces, hsocket, Option.getD_some]

theorem replaces_self (h : e.Named) : e.connection.replaces e.source e.target e = true := by
  rcases hkind : e.kind
  · simp [Edge.connection, Connection.replaces, rivalsStack, hkind]
  · simp only [Edge.connection, Connection.replaces, hkind]
    exact fillsBranch_iff.2 ⟨hkind, rfl, rfl⟩
  · rw [fillsSocket_of_named h hkind]
    exact fillsSocket_iff.2 ⟨hkind, rfl, rfl⟩

/-- **The rules of an editor, edge by edge**: a graph is orderly if it is acyclic and every edge
joins known blocks, leaves none that ends the program, names its socket and has no rival. -/
theorem orderly_iff : g.Orderly ↔ Acyclic g.edges ∧ ∀ e ∈ g.edges,
    g.opened.has e.source = true ∧ g.opened.has e.target = true ∧
      g.opened.isStop e.source = false ∧ e.Named ∧
      Single (e.connection.replaces e.source e.target) g.edges := by
  constructor
  · intro h
    exact ⟨h.acyclic, fun e he => ⟨(h.ends e he).1, (h.ends e he).2, h.running e he, h.named e he,
      h.single_replaces he⟩⟩
  · rintro ⟨hacyclic, hedges⟩
    have hnamed (e : Edge) (he : e ∈ g.edges) : e.Named := (hedges e he).2.2.2.1
    have hsingle {p : Edge → Bool} (e : Edge) (he : e ∈ g.edges)
        (hp : ∀ e', p e' = true → e.connection.replaces e.source e.target e' = true) :
        Single p g.edges := (hedges e he).2.2.2.2.mono fun e' _ => hp e'
    refine
      { ends := fun e he => ⟨(hedges e he).1, (hedges e he).2.1⟩
        acyclic := hacyclic
        successor := fun id => single_of_mem fun e he hp => hsingle e he fun e' hp' => ?_
        predecessor := fun id => single_of_mem fun e he hp => hsingle e he fun e' hp' => ?_
        socket := fun id socket => single_of_mem fun e he hp => hsingle e he fun e' hp' => ?_
        branch := fun id key => single_of_mem fun e he hp => hsingle e he fun e' hp' => ?_
        named := hnamed
        running := fun e he => (hedges e he).2.2.1 }
    · simp only [Bool.and_eq_true, beq_iff_eq] at hp hp'
      simp [Edge.connection, Connection.replaces, rivalsStack, hp, hp']
    · simp only [Bool.and_eq_true, beq_iff_eq] at hp hp'
      simp [Edge.connection, Connection.replaces, rivalsStack, hp, hp']
    · obtain ⟨hkind, rfl, rfl⟩ := fillsSocket_iff.1 hp
      rwa [fillsSocket_of_named (hnamed e he) hkind]
    · obtain ⟨hkind, rfl, rfl⟩ := fillsBranch_iff.1 hp
      simp only [Edge.connection, hkind, Connection.replaces]
      exact hp'

instance (g : ProgramGraph) : Decidable g.Orderly := decidable_of_iff _ orderly_iff.symm

/-! ## Drawing an orderly graph -/

/-- The sockets of a block that edges plug in at, in order. -/
def plugsOf (edges : List Edge) (id : String) : List String :=
  edges.flatMap fun e => e.connection.plugs e.source id

/-- A workspace with some edges of a graph drawn, none of which has given way to another. -/
def drawnAll (g : ProgramGraph) (done : List Edge) : Workspace where
  blocks := g.blocks.map fun b => b.blank (plugsOf done b.id)
  edges := done.map Edge.trimmed

theorem ids_drawnAll : (g.drawnAll done).blocks.map (·.id) = g.blocks.map (·.id) := by
  simp only [drawnAll, List.map_map, Function.comp_def, Block.id_blank]

theorem has_drawnAll (id : String) : (g.drawnAll done).has id = g.opened.has id :=
  has_of_map rfl (fun _ => Block.id_blank _ _) id

/-- An edge of an orderly graph is drawn and stays, as those before it did. -/
theorem Orderly.redraw_drawnAll (h : g.Orderly) (hedges : g.edges = done ++ e :: rest)
    (hdrawn : Redrawn g.blocks done (g.drawnAll done)) :
    (g.drawnAll done).redraw e = g.drawnAll (done ++ [e]) := by
  have hkept : e.connection.drawnIn e.source e.target (done.map Edge.trimmed) =
      (done ++ [e]).map Edge.trimmed := by
    rw [Connection.drawnIn, List.map_append, List.filter_eq_self.2]
    · rfl
    · intro e' he'
      obtain ⟨e'', he'', rfl⟩ := List.mem_map.1 he'
      have hmem : e ∈ g.edges ∧ e'' ∈ g.edges := by simp [hedges, he'']
      have hsingle := h.single_replaces hmem.1
      rw [hedges, single_split_iff (replaces_self (h.named e hmem.1))] at hsingle
      rw [Edge.replaces_trimmed (h.named e'' hmem.2), hsingle e'' (List.mem_append_left _ he'')]
      rfl
  have hblocks : ((g.drawnAll done).draw e.connection e.source e.target).blocks =
      (g.drawnAll (done ++ [e])).blocks := by
    rw [blocks_draw, drawnAll, List.map_map]
    refine List.map_congr_left fun b _ => ?_
    simp [Function.comp, plugsOf, Block.blank_append]
  have hcan : (g.drawnAll done).canConnect e.source e.target = true :=
    h.toWellFormed.canConnect_redrawn hdrawn hedges
      (h.running e (hedges ▸ List.mem_append_right done List.mem_cons_self))
  rw [Workspace.redraw, if_pos hcan, Workspace.draw, drawnAll, hkept]
  exact congrArg (fun blocks => (⟨blocks, _, _, _⟩ : Workspace)) hblocks

/-- **Of an orderly graph every edge is drawn**, and stays. -/
theorem Orderly.foldl_redraw (h : g.Orderly) (hedges : g.edges = done ++ rest) :
    done.foldl redraw { blocks := g.blocks } = g.drawnAll done := by
  induction done using List.reverseRecOn generalizing rest with
  | nil => simp [drawnAll, plugsOf, Block.blank]
  | append_singleton done e ih =>
    rw [List.append_assoc] at hedges
    have hdrawn := redrawn_foldl g.blocks done
    rw [ih hedges] at hdrawn
    rw [List.foldl_append, ih hedges]
    exact h.redraw_drawnAll hedges hdrawn

theorem Orderly.repaired_eq (h : g.Orderly) (hdrawable : Drawable { blocks := g.blocks }) :
    g.repaired = .ok (g.drawnAll g.edges).snapshot := by
  have hdrawn := h.foldl_redraw (List.append_nil g.edges).symm
  rw [repaired, ofGraph_eq hdrawable, hdrawn]
  rfl

/-! ## Repaired graphs -/

/-- What drawing a graph anew makes of it. -/
structure Repairs (g g' : ProgramGraph) : Prop where
  orderly : g'.Orderly
  /-- where something is plugged in, the empty text is stored -/
  blank : ∀ b ∈ g'.blocks, ∀ socket, Plugged g'.edges b.id socket → b.IsBlank socket
  /-- and nothing else has changed in the blocks -/
  blocks : ∃ sockets : String → List String,
    (∀ id socket, socket ∈ sockets id ↔ Plugged g'.edges id socket) ∧
      g'.blocks = g.blocks.map fun b => b.blank (sockets b.id)
  /-- some of the edges are left, in order, with the fields of their kinds -/
  edges : g'.edges.Sublist (g.edges.map Edge.trimmed)
  /-- and all of them, if they were orderly -/
  kept : g.Orderly → g'.edges = g.edges.map Edge.trimmed

theorem repairs_foldl_redraw (hdrawable : Drawable { blocks := g.blocks }) :
    g.Repairs (g.edges.foldl redraw { blocks := g.blocks }).snapshot := by
  have hgraph := ofGraph_eq hdrawable
  have hdrawn := redrawn_foldl g.blocks g.edges
  have hkept (h : g.Orderly) :
      (g.edges.foldl redraw { blocks := g.blocks }).edges = g.edges.map Edge.trimmed := by
    rw [h.foldl_redraw (List.append_nil g.edges).symm]
    rfl
  generalize g.edges.foldl redraw { blocks := g.blocks } = ws at hgraph hdrawn hkept ⊢
  have hwellFormed : WellFormed ws :=
    kept_of_changes WellFormed.plain wellFormed_empty (plain_of_ofGraph True hgraph)
  have hunique : UniqueSlots ws :=
    kept_of_changes UniqueSlots.plain uniqueSlots_empty (plain_of_ofGraph True hgraph)
  refine ⟨⟨hwellFormed.keep rfl fun _ hid => hid, hunique, fun e he hkind => ?_, hdrawn.running⟩,
    fun b hb socket hplugged => ?_, hdrawn.blocks, hdrawn.edges, hkept⟩
  · obtain ⟨e₀, -, rfl⟩ := List.mem_map.1 (hdrawn.edges.subset he)
    rw [Edge.kind_trimmed] at hkind
    rw [Edge.socket_trimmed hkind]
    rfl
  · obtain ⟨sockets, hsockets, hblocks⟩ := hdrawn.blocks
    have hmem : b ∈ g.blocks.map fun b => b.blank (sockets b.id) := hblocks ▸ hb
    obtain ⟨b₀, hb₀, rfl⟩ := List.mem_map.1 hmem
    rw [Block.id_blank] at hplugged
    exact Block.isBlank_blank (hdrawable.inputs b₀ hb₀) ((hsockets _ _).2 hplugged)

/-- Drawing a repaired graph anew changes nothing. -/
theorem Repairs.repaired_again (h : g.Repairs g') (hdrawable : Drawable { blocks := g'.blocks }) :
    g'.repaired = .ok g' := by
  have htrimmed : ∀ e ∈ g'.edges, e.trimmed = e := by
    intro e he
    obtain ⟨e₀, -, rfl⟩ := List.mem_map.1 (h.edges.subset he)
    exact e₀.trimmed_trimmed
  have hblank : ∀ b ∈ g'.blocks, b.blank (plugsOf g'.edges b.id) = b := by
    refine fun b hb => Block.blank_of_isBlank fun socket hsocket => h.blank b hb socket ?_
    obtain ⟨e, he, hplugs⟩ := List.mem_flatMap.1 hsocket
    refine ⟨e, he, ?_⟩
    rw [← htrimmed e he]
    exact fillsSocket_edge.2 hplugs
  have hblocks : (g'.blocks.map fun b => b.blank (plugsOf g'.edges b.id)) = g'.blocks :=
    (List.map_congr_left hblank).trans (List.map_id' _)
  have hedges : g'.edges.map Edge.trimmed = g'.edges :=
    (List.map_congr_left htrimmed).trans (List.map_id' _)
  rw [h.orderly.repaired_eq hdrawable, drawnAll, hblocks, hedges]
  rfl

/-- **Drawing a graph anew repairs it.** Whatever its edges are, it succeeds for distinct ids and
dictionaries as inputs; the result is orderly, has the blocks of the graph with the empty text where
something is plugged in, and some of its edges in order, or all if they were orderly. Drawing the
result anew gives it back. -/
theorem exists_repaired (hids : (g.blocks.map (·.id)).Nodup)
    (hinputs : ∀ b ∈ g.blocks, b.HasInputs) :
    ∃ g', g.repaired = .ok g' ∧ g.Repairs g' ∧ g'.repaired = .ok g' := by
  have hdrawable : Drawable { blocks := g.blocks } := ⟨hids, hinputs⟩
  have hrepairs := repairs_foldl_redraw hdrawable
  obtain ⟨hdistinct, hdicts⟩ := hdrawable.foldl g.edges
  exact ⟨_, congrArg (Except.map snapshot) (ofGraph_eq hdrawable), hrepairs,
    hrepairs.repaired_again ⟨hdistinct, hdicts⟩⟩

/-- A graph with edges of all sorts that no editor would have drawn. -/
def outOfOrder : ProgramGraph where
  blocks := [
    { id := "a", type := .str "start" },
    { id := "r", type := .str "repeat_times", inputs := .dict [(.str "times", .str "3")] },
    { id := "c", type := .str "clear" },
    { id := "z", type := .str "stop" },
    { id := "v", type := .str "variable", inputs := .dict [(.str "name", .str "n")] }]
  edges := [
    .stack "a" "r",
    .stack "r" "nowhere",
    .stack "r" "a",
    .stack "z" "c",
    .toBranch "r" none "c",
    .toInput "r" (some "times") "v",
    .toInput "r" none "v",
    .stack "a" "r"]

/-- The edges to nowhere, around a circle and out of a `stop` are gone, the first of the two that
are the same has given way to the last, and missing slots are filled in. -/
theorem exists_repaired_outOfOrder : ∃ g', outOfOrder.repaired = .ok g' ∧
    g'.edges = [.toBranch "r" (some "body") "c", .toInput "r" (some "times") "v",
      .toInput "r" (some "") "v", .stack "a" "r"] ∧
    outOfOrder.Repairs g' ∧ g'.repaired = .ok g' := by
  obtain ⟨g', hg', hrepairs, hagain⟩ := @exists_repaired outOfOrder (by decide) (by decide +kernel)
  have hedges : outOfOrder.repaired.toOption.map (·.edges) =
      some [.toBranch "r" (some "body") "c", .toInput "r" (some "times") "v",
        .toInput "r" (some "") "v", .stack "a" "r"] := by decide +kernel
  rw [hg'] at hedges
  exact ⟨g', hg', Option.some.inj hedges, hrepairs, hagain⟩

end ProgramGraph

end BlockProgram
