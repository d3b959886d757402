import BlockProgram.Proofs.Value.Dict
import BlockProgram.Proofs.Workspace.BranchSlot
import BlockProgram.Proofs.Workspace.Guard

/-!
# Drawing a graph anew

A bare graph is drawn anew before it is compiled, edge by edge, in a workspace that holds its
blocks. An edge is drawn with only the field of its own kind (`Edge.trimmed`), or refused; one that
is drawn makes its rivals give way.

With distinct ids and dictionaries as inputs this cannot fail (`Workspace.ofGraph_eq`). After any
number of edges, some of them are left, in order, and the blocks are what they were but for the
empty text where something is plugged in (`Workspace.redrawn_foldl`).
-/

namespace BlockProgram

open Relation

/-! ## Blank sockets -/

namespace Block

/-- A socket of a block holds the empty text. -/
def IsBlank (b : Block) (socket : String) : Prop :=
  ∃ entries, b.inputs = .dict entries ∧ Dict.named? entries socket = some (.str "")

/-- A block with the empty text at some of its sockets. -/
def blank (b : Block) (sockets : List String) : Block := sockets.foldl blankAt b

/-- Blanking sets sockets to the empty text, one after another. -/
theorem inputs_blank {b : Block} {entries : Dict} (h : b.inputs = .dict entries)
    (sockets : List String) : b.blank sockets =
      { b with inputs := .dict (Dict.setAll entries (sockets.map fun s => (s, .str ""))) } := by
  induction sockets generalizing b entries with
  | nil =>
    rw [blank, List.map_nil, Dict.setAll, List.foldl_nil, List.foldl_nil, ← h]
  | cons socket rest ih =>
    have hblank : b.blankAt socket =
        { b with inputs := .dict (Dict.setNamed entries socket (.str "")) } := by
      rw [blankAt, h]
    have hinputs : (b.blankAt socket).inputs = .dict (Dict.setNamed entries socket (.str "")) := by
      rw [hblank]
    refine (ih hinputs).trans ?_
    rw [hblank]
    rfl

@[simp] theorem id_blank (b : Block) (sockets : List String) : (b.blank sockets).id = b.id := by
  induction sockets generalizing b with
  | nil => rfl
  | cons socket rest ih => exact (ih _).trans (id_blankAt b socket)

@[simp] theorem type_blank (b : Block) (sockets : List String) :
    (b.blank sockets).type = b.type := by
  induction sockets generalizing b with
  | nil => rfl
  | cons socket rest ih => exact (ih _).trans (type_blankAt b socket)

theorem blank_append (b : Block) (sockets sockets' : List String) :
    b.blank (sockets ++ sockets') = (b.blank sockets).blank sockets' := List.foldl_append

theorem HasInputs.blank {b : Block} (h : b.HasInputs) (sockets : List String) :
    (b.blank sockets).HasInputs := by
  obtain ⟨entries, hentries⟩ := h
  exact ⟨_, congrArg Block.inputs (inputs_blank hentries sockets)⟩

/-- The sockets that were blanked are blank. -/
theorem isBlank_blank {b : Block} (h : b.HasInputs) {sockets : List String} {socket : String}
    (hsocket : socket ∈ sockets) : (b.blank sockets).IsBlank socket := by
  obtain ⟨entries, hentries⟩ := h
  refine ⟨_, congrArg Block.inputs (inputs_blank hentries sockets), ?_⟩
  clear hentries
  induction sockets using List.reverseRecOn with
  | nil => cases hsocket
  | append_singleton sockets last ih =>
    rw [List.map_append, List.map_singleton, Dict.setAll_append, Dict.setAll_singleton,
      Dict.named?_setNamed]
    split
    · rfl
    · rename_i hne
      refine ih ((List.mem_append.1 hsocket).resolve_right fun hlast => hne ?_)
      exact (List.mem_singleton.1 hlast).symm

/-- Sockets that are blank already stay as they are. -/
theorem blank_of_isBlank {b : Block} {sockets : List String}
    (h : ∀ socket ∈ sockets, b.IsBlank socket) : b.blank sockets = b := by
  induction sockets with
  | nil => rfl
  | cons socket rest ih =>
    obtain ⟨entries, hentries, hsocket⟩ := h socket List.mem_cons_self
    have hsame : b.blankAt socket = b := by
      rw [blankAt, hentries]
      simp only [Dict.setNamed_of_named? hsocket, ← hentries]
    rw [blank, List.foldl_cons, hsame]
    exact ih fun socket hsocket => h socket (List.mem_cons_of_mem _ hsocket)

end Block

/-! ## Edges drawn anew -/

namespace Connection

/-- The sockets of a block that a connection plugs in at. -/
def plugs (c : Connection) (source id : String) : List String :=
  match c with
  | .input socket => if id == source then [socket] else []
  | _ => []

/-- What a connection leaves of a block is the block without what was typed in where it plugs in. -/
theorem leave_eq (c : Connection) (source : String) (b : Block) :
    c.leave source b = b.blank (c.plugs source b.id) := by
  cases c with
  | stack | branch => rfl
  | input socket =>
    simp only [leave, plugs]
    split <;> rfl

end Connection

namespace Edge

/-- The connection that drawing an edge makes: a key that is missing or empty becomes the default
one, a missing socket becomes the empty one. -/
def connection (e : Edge) : Connection :=
  match e.kind with
  | .stack => .stack
  | .branch => .branch (some (branchKey e.branch))
  | .input => .input (e.socket.getD "")

/-- An edge with only the field of its kind, as drawing it makes it. -/
def trimmed (e : Edge) : Edge := e.connection.edge e.source e.target

@[simp] theorem source_trimmed (e : Edge) : e.trimmed.source = e.source :=
  Connection.source_edge e.connection

@[simp] theorem target_trimmed (e : Edge) : e.trimmed.target = e.target :=
  Connection.target_edge e.connection

@[simp] theorem kind_trimmed (e : Edge) : e.trimmed.kind = e.kind := by
  rcases h : e.kind <;> simp [trimmed, connection, h] <;> rfl

@[simp] theorem branchKey_branchKey (key : Option String) :
    branchKey (some (branchKey key)) = branchKey key :=
  Workspace.branchKey_some (Workspace.branchKey_ne_empty key)

@[simp] theorem connection_trimmed (e : Edge) : e.trimmed.connection = e.connection := by
  rcases h : e.kind <;> simp only [connection, kind_trimmed, h] <;>
    simp [trimmed, connection, h, Connection.edge, toBranch, toInput]

@[simp] theorem trimmed_trimmed (e : Edge) : e.trimmed.trimmed = e.trimmed := by
  rw [trimmed, connection_trimmed, source_trimmed, target_trimmed]
  rfl

/-- A branch keeps its key, and gets the usual one if it has none. -/
theorem branch_trimmed {e : Edge} (h : e.kind = .branch) :
    e.trimmed.branch = some (branchKey e.branch) := by
  simp [trimmed, connection, h, Connection.edge, toBranch]

/-- A plug keeps its socket, and gets the nameless one if it has none. -/
theorem socket_trimmed {e : Edge} (h : e.kind = .input) :
    e.trimmed.socket = some (e.socket.getD "") := by
  simp [trimmed, connection, h, Connection.edge, toInput]

/-- An edge to a reporter names its socket. -/
def Named (e : Edge) : Prop := e.kind = .input → e.socket.isSome = true

instance (e : Edge) : Decidable e.Named :=
  inferInstanceAs (Decidable (e.kind = .input → e.socket.isSome = true))

/-- Trimming takes away what does not count for the kind of an edge, so the slot stays. -/
theorem slot_trimmed {e : Edge} (h : e.Named) : e.trimmed.slot = e.slot := by
  rcases hkind : e.kind
  all_goals simp only [slot, kind_trimmed, hkind]
  · rw [branch_trimmed hkind, branchKey_branchKey]
  · obtain ⟨socket, hsocket⟩ := Option.isSome_iff_exists.1 (h hkind)
    rw [socket_trimmed hkind, hsocket, Option.getD_some]

/-- A trimmed edge gives way where the edge does. -/
theorem replaces_trimmed {e : Edge} (h : e.Named) (c : Connection) (source target : String) :
    c.replaces source target e.trimmed = c.replaces source target e := by
  cases c with
  | stack =>
    simp only [Connection.replaces, Workspace.rivalsStack, kind_trimmed, source_trimmed,
      target_trimmed]
  | branch key =>
    simp only [Connection.replaces, Workspace.fillsBranch, kind_trimmed, source_trimmed,
      slot_trimmed h]
  | input socket =>
    simp only [Connection.replaces, Workspace.fillsSocket, kind_trimmed, source_trimmed]
    rcases hkind : e.kind
    · rfl
    · rfl
    · have hslot := slot_trimmed h
      simp only [slot, kind_trimmed, hkind] at hslot
      rw [hslot]

end Edge

namespace Workspace

variable {ws ws' : Workspace} {source target : String} {edges : List Edge}

/-! ## Drawing one edge -/

/-- Connecting by an edge is connecting as its kind says. -/
theorem connectEdge_eq_connect (e : Edge) :
    connectEdge e = e.connection.connect e.source e.target := by
  rcases h : e.kind <;> simp only [connectEdge, Edge.connection, h, Connection.connect, Edge.slot]

/-- The workspace after an edge was drawn or refused. -/
def redraw (ws : Workspace) (e : Edge) : Workspace :=
  if ws.canConnect e.source e.target then ws.draw e.connection e.source e.target else ws

/-- What drawing edges relies on. -/
structure Drawable (ws : Workspace) : Prop where
  distinct : Distinct ws
  inputs : ∀ b ∈ ws.blocks, b.HasInputs

/-- Drawing a connection blanks the socket that it plugs into, and changes no other block. -/
theorem blocks_draw (ws : Workspace) (c : Connection) (source target : String) :
    (ws.draw c source target).blocks = ws.blocks.map fun b => b.blank (c.plugs source b.id) :=
  List.map_congr_left fun b _ => c.leave_eq source b

theorem distinct_redraw (h : Distinct ws) (e : Edge) : Distinct (ws.redraw e) := by
  simp only [redraw]
  split
  · rw [Distinct, blocks_draw, List.map_map]
    exact (List.map_congr_left fun b _ => Block.id_blank b _).symm ▸ h
  · exact h

/-- A drawn edge leaves a workspace that can be drawn on. -/
theorem Drawable.redraw (h : Drawable ws) (e : Edge) : Drawable (ws.redraw e) := by
  refine ⟨distinct_redraw h.distinct e, ?_⟩
  simp only [Workspace.redraw]
  split
  · intro b hb
    rw [blocks_draw] at hb
    obtain ⟨b', hb', rfl⟩ := List.mem_map.1 hb
    exact (h.inputs b' hb').blank _
  · exact h.inputs

theorem Drawable.foldl (h : Drawable ws) (edges : List Edge) :
    Drawable (edges.foldl Workspace.redraw ws) := by
  induction edges generalizing ws with
  | nil => exact h
  | cons e rest ih => exact ih (h.redraw e)

/-- Drawing an edge does not fail. -/
theorem connectEdge_eq (h : Drawable ws) (e : Edge) :
    connectEdge e ws = (.ok (ws.canConnect e.source e.target), ws.redraw e) := by
  rw [connectEdge_eq_connect]
  exact Connection.connect_eq h.distinct _ fun _ _ b hb _ => h.inputs b hb

/-! ## Drawing a graph -/

/-- Adding blocks does not fail if all ids are distinct, and adds them in order. -/
theorem forM_addBlock (blocks : List Block)
    (h : ((ws.blocks ++ blocks).map (·.id)).Nodup) :
    (blocks.forM fun b => Edit.update fun ws => ws.addBlock b) ws =
      (.ok (), { ws with blocks := ws.blocks ++ blocks }) := by
  induction blocks generalizing ws with
  | nil => simp only [List.append_nil]; rfl
  | cons b rest ih =>
    have hnew : ws.has b.id = false := by
      rw [has_eq_contains, List.contains_eq_mem, decide_eq_false_iff_not]
      rw [List.map_append] at h
      intro hid
      exact (List.nodup_append.1 h).2.2 _ hid _ (List.mem_map_of_mem List.mem_cons_self) rfl
    have hadd : (Edit.update fun ws => ws.addBlock b) ws =
        (.ok (), { ws with blocks := ws.blocks ++ [b] }) := by
      simp [Edit.update, addBlock, hnew]
    refine (Edit.bind_ok hadd).trans ((ih ?_).trans ?_)
    · simpa using h
    · simp

/-- **Drawing edges one by one does not fail**, and draws each of them that the guard lets
through. -/
theorem forM_connectEdge (h : Drawable ws) (edges : List Edge) :
    (edges.forM fun e => do let _ ← connectEdge e) ws = (.ok (), edges.foldl redraw ws) := by
  induction edges generalizing ws with
  | nil => rfl
  | cons e rest ih =>
    have hdraw : (do let _ ← connectEdge e : Edit PUnit) ws = (.ok (), ws.redraw e) :=
      Edit.bind_ok (connectEdge_eq h e)
    exact (Edit.bind_ok hdraw).trans (ih (h.redraw e))

/-- **Drawing a graph anew does not fail** if its ids are distinct and its inputs dictionaries. -/
theorem ofGraph_eq {g : ProgramGraph} (h : Drawable { blocks := g.blocks }) :
    ofGraph g = .ok (g.edges.foldl redraw { blocks := g.blocks }) := by
  have hblocks : (g.blocks.forM fun b => Edit.update fun ws => ws.addBlock b) {} =
      (.ok (), { blocks := g.blocks }) := forM_addBlock g.blocks h.distinct
  have hreplay : replay g {} = (.ok (), g.edges.foldl redraw { blocks := g.blocks }) :=
    (Edit.bind_ok hblocks).trans (forM_connectEdge h g.edges)
  rw [ofGraph, hreplay]

/-! ## Graphs that could be drawn -/

/-- Storing a value has not failed only if the inputs of the block are a dictionary. -/
theorem inputs_of_storeInput {id : String} {socket value : Value}
    (h : storeInput id socket value ws = (.ok (), ws')) {b : Block} (hb : ws.block? id = some b) :
    b.HasInputs := by
  rw [Block.hasInputs_iff]
  cases hinputs : b.inputs with
  | dict entries => rfl
  | _ =>
    simp only [storeInput, Edit.update, hb, withInput, hinputs] at h
    cases h

/-- Plugging in at a socket has not failed only if the inputs of the block are a dictionary. -/
theorem fits_of_connect {c : Connection} {answer : Bool} (h : Distinct ws)
    (hcan : ws.canConnect source target = true)
    (hok : c.connect source target ws = (.ok answer, ws')) : c.Fits ws source := by
  rintro socket rfl b hb hid
  simp only [Connection.connect, connectInput, hcan, if_true] at hok
  obtain ⟨⟨⟩, ws₁, hstored, -⟩ := Edit.bind_eq_ok hok
  obtain ⟨b', hb'⟩ : ∃ b', ws.block? source = some b' := by
    rw [← Option.isSome_iff_exists, block?, List.find?_isSome]
    exact ⟨b, hb, beq_iff_eq.2 hid⟩
  rw [eq_of_block? h hb' hb hid]
  exact inputs_of_storeInput hstored hb'

/-- An edge that has not failed to be drawn was drawn or refused. -/
theorem connectEdge_ok (h : Distinct ws) {e : Edge} {answer : Bool}
    (hok : connectEdge e ws = (.ok answer, ws')) : ws' = ws.redraw e := by
  rw [connectEdge_eq_connect] at hok
  rw [redraw]
  rcases hcan : ws.canConnect e.source e.target with _ | _
  · rw [e.connection.connect_refused hcan] at hok
    cases hok
    rfl
  · rw [Connection.connect_eq h _ (fits_of_connect h hcan hok), hcan] at hok
    cases hok
    rfl

/-- Conversely, if adding has not failed, the ids are distinct. -/
theorem forM_addBlock_ok {blocks : List Block} (h : Distinct ws)
    (hok : (blocks.forM fun b => Edit.update fun ws => ws.addBlock b) ws = (.ok (), ws')) :
    Distinct ws' ∧ ws' = { ws with blocks := ws.blocks ++ blocks } := by
  induction blocks generalizing ws with
  | nil =>
    cases hok
    exact ⟨h, by rw [List.append_nil]⟩
  | cons b rest ih =>
    obtain ⟨⟨⟩, ws₁, hadd, hrest⟩ := Edit.bind_eq_ok hok
    simp only [Edit.update, addBlock] at hadd
    rcases hnew : ws.has b.id with _ | _
    · rw [hnew] at hadd
      cases hadd
      have hadded : Plain False ws { ws with blocks := ws.blocks ++ [b] } := .add hnew
      obtain ⟨hdistinct, rfl⟩ := ih (h.plain hadded) hrest
      exact ⟨hdistinct, by rw [List.append_assoc]; rfl⟩
    · rw [hnew] at hadd
      cases hadd

/-- If drawing has not failed, it has done the same as drawing where nothing can fail. -/
theorem forM_connectEdge_ok {edges : List Edge} (h : Distinct ws)
    (hok : (edges.forM fun e => do let _ ← connectEdge e) ws = (.ok (), ws')) :
    ws' = edges.foldl redraw ws := by
  induction edges generalizing ws with
  | nil =>
    cases hok
    rfl
  | cons e rest ih =>
    obtain ⟨⟨⟩, ws₁, hfirst, hrest⟩ := Edit.bind_eq_ok hok
    obtain ⟨answer, ws₂, hdraw, hdone⟩ := Edit.bind_eq_ok hfirst
    cases hdone
    obtain rfl := connectEdge_ok h hdraw
    exact ih (distinct_redraw h e) hrest

/-- **What drawing a graph anew gives, if it does not fail**, whatever its blocks are. -/
theorem ofGraph_ok {g : ProgramGraph} (h : ofGraph g = .ok ws) :
    (g.blocks.map (·.id)).Nodup ∧ ws = g.edges.foldl redraw { blocks := g.blocks } := by
  simp only [ofGraph] at h
  split at h
  · rename_i hreplay
    cases h
    obtain ⟨⟨⟩, ws₁, hblocks, hedges⟩ := Edit.bind_eq_ok hreplay
    have hempty : Distinct {} := List.nodup_nil
    obtain ⟨hdistinct, rfl⟩ := forM_addBlock_ok hempty hblocks
    exact ⟨hdistinct, forM_connectEdge_ok hdistinct hedges⟩
  · cases h

/-! ## What is plugged in -/

/-- Whether an edge fills a socket of a block. -/
def Plugged (edges : List Edge) (id socket : String) : Prop :=
  ∃ e ∈ edges, fillsSocket id (some socket) e = true

theorem mem_plugs {c : Connection} {id socket : String} :
    socket ∈ c.plugs source id ↔ c = .input socket ∧ id = source := by
  cases c with
  | stack | branch => simp [Connection.plugs]
  | input other =>
    simp only [Connection.plugs, Connection.input.injEq]
    split
    · rename_i h
      rw [beq_iff_eq] at h
      simp [h, eq_comm]
    · rename_i h
      rw [beq_iff_eq] at h
      simp [h]

theorem fillsSocket_edge {c : Connection} {id socket : String} :
    fillsSocket id (some socket) (c.edge source target) = true ↔ socket ∈ c.plugs source id := by
  rw [fillsSocket_iff, mem_plugs, Connection.source_edge]
  cases c with
  | stack | branch => simp [Connection.edge, Edge.stack, Edge.toBranch]
  | input other => simp [Connection.edge, Edge.toInput, eq_comm, and_comm]

/-- An edge at a socket gives way only to another one there. -/
theorem mem_plugs_of_replaces {c : Connection} {id socket : String} {e : Edge}
    (hfills : fillsSocket id (some socket) e = true)
    (hgone : c.replaces source target e = true) : socket ∈ c.plugs source id := by
  obtain ⟨hkind, hid, hsocket⟩ := fillsSocket_iff.1 hfills
  cases c with
  | stack => simp [Connection.replaces, rivalsStack, hkind] at hgone
  | branch key => simp [Connection.replaces, fillsBranch, hkind] at hgone
  | input other =>
    obtain ⟨-, hsource, hother⟩ := fillsSocket_iff.1 hgone
    rw [mem_plugs, ← hid, ← hsource]
    refine ⟨?_, rfl⟩
    rw [hsocket] at hother
    cases hother
    rfl

/-- Where something was plugged in, something stays plugged in. -/
theorem plugged_drawnIn {c : Connection} {id socket : String} :
    Plugged (c.drawnIn source target edges) id socket ↔
      Plugged edges id socket ∨ socket ∈ c.plugs source id := by
  have hnew : c.edge source target ∈ c.drawnIn source target edges :=
    List.mem_append_right _ (List.mem_singleton_self _)
  constructor
  · rintro ⟨e, he, hfills⟩
    rcases List.mem_append.1 he with he | he
    · exact .inl ⟨e, (List.mem_filter.1 he).1, hfills⟩
    · rw [List.mem_singleton.1 he] at hfills
      exact .inr (fillsSocket_edge.1 hfills)
  · rintro (⟨e, he, hfills⟩ | hsocket)
    · by_cases hgone : c.replaces source target e = true
      · exact ⟨_, hnew, fillsSocket_edge.2 (mem_plugs_of_replaces hfills hgone)⟩
      · refine ⟨e, List.mem_append_left _ (List.mem_filter.2 ⟨he, ?_⟩), hfills⟩
        simpa using hgone
    · exact ⟨_, hnew, fillsSocket_edge.2 hsocket⟩

/-! ## What drawing keeps -/

/-- Changes that keep ids and types turn no block into a stop, and no stop into something else. -/
theorem isStop_of_map {f : Block → Block} (hblocks : ws'.blocks = ws.blocks.map f)
    (hid : ∀ b, (f b).id = b.id) (htype : ∀ b, (f b).type = b.type) (id : String) :
    ws'.isStop id = ws.isStop id := by
  have hids : ((fun b : Block => b.id == id) ∘ f) = fun b => b.id == id := by
    funext b
    simp only [Function.comp, hid]
  simp only [isStop, block?, hblocks, List.find?_map, hids]
  cases ws.blocks.find? fun b => b.id == id with
  | none => rfl
  | some b => simp only [Option.map_some, htype]

theorem has_of_map {f : Block → Block} (hblocks : ws'.blocks = ws.blocks.map f)
    (hid : ∀ b, (f b).id = b.id) (id : String) : ws'.has id = ws.has id := by
  rw [has_eq_contains, has_eq_contains, hblocks, List.map_map]
  simp only [Function.comp_def, hid]

/-- What is left when some edges have been drawn in a workspace with blocks: some of them, in
order, none of which leaves a block that ends the program, and blocks that are blank where
something was plugged in. -/
structure Redrawn (blocks : List Block) (done : List Edge) (ws : Workspace) : Prop where
  edges : ws.edges.Sublist (done.map Edge.trimmed)
  running : ∀ e ∈ ws.edges, ws.isStop e.source = false
  blocks : ∃ sockets : String → List String,
    (∀ id socket, socket ∈ sockets id ↔ Plugged ws.edges id socket) ∧
      ws.blocks = blocks.map fun b => b.blank (sockets b.id)

/-- **One more edge keeps this**, whether it is drawn or refused. -/
theorem Redrawn.redraw {blocks : List Block} {done : List Edge} (h : Redrawn blocks done ws)
    (e : Edge) : Redrawn blocks (done ++ [e]) (ws.redraw e) := by
  simp only [Workspace.redraw]
  split
  · rename_i hcan
    obtain ⟨sockets, hsockets, hblocks⟩ := h.blocks
    refine ⟨?_, fun e' he' => ?_,
      fun id => sockets id ++ e.connection.plugs e.source id, fun id socket => ?_, ?_⟩
    · rw [List.map_append]
      exact (List.filter_sublist.trans h.edges).append (List.Sublist.refl _)
    · rw [isStop_of_map (blocks_draw ws e.connection e.source e.target)
        (fun _ => Block.id_blank _ _) fun _ => Block.type_blank _ _]
      rcases List.mem_append.1 he' with he' | he'
      · exact h.running e' (List.mem_filter.1 he').1
      · rw [List.mem_singleton.1 he', Connection.source_edge]
        exact (canConnect_iff.1 hcan).2.2.1
    · rw [List.mem_append, hsockets]
      exact plugged_drawnIn.symm
    · rw [blocks_draw, hblocks, List.map_map]
      refine List.map_congr_left fun b _ => ?_
      simp only [Function.comp, Block.id_blank, Block.blank_append]
  · refine ⟨h.edges.trans ?_, h.running, h.blocks⟩
    rw [List.map_append]
    exact List.sublist_append_left _ _

/-- So it holds when all edges have been drawn in a workspace that had blocks only. -/
theorem redrawn_foldl (blocks : List Block) (edges : List Edge) :
    Redrawn blocks edges (edges.foldl Workspace.redraw { blocks }) := by
  induction edges using List.reverseRecOn with
  | nil =>
    refine ⟨List.Sublist.refl _, fun e he => absurd he List.not_mem_nil, fun _ => [],
      fun id socket => ?_, ?_⟩
    · simp [Plugged]
    · exact (List.map_id' blocks).symm
  | append_singleton edges e ih =>
    rw [List.foldl_append]
    exact ih.redraw e

/-- Trimming changes no ends, so it joins the same blocks. -/
theorem joins_trimmed {done : List Edge} {a b : String} :
    Joins (done.map Edge.trimmed) a b ↔ Joins done a b := by
  simp [Joins]

/-- An edge of a workspace may be drawn again when those before it have been drawn or given way, if
it does not leave a block that ends the program. -/
theorem WellFormed.canConnect_redrawn {done rest : List Edge} {e : Edge} (hws : WellFormed ws)
    (h : Redrawn ws.blocks done ws') (hedges : ws.edges = done ++ e :: rest)
    (hrunning : ws.isStop e.source = false) : ws'.canConnect e.source e.target = true := by
  have hmem : e ∈ ws.edges := by simp [hedges]
  obtain ⟨hsource, htarget⟩ := hws.ends e hmem
  obtain ⟨sockets, -, hblocks⟩ := h.blocks
  have hhas := has_of_map hblocks (fun _ => Block.id_blank _ _)
  have hstop := isStop_of_map hblocks (fun _ => Block.id_blank _ _) (fun _ => Block.type_blank _ _)
  refine canConnect_iff.2 ⟨(hhas _).trans hsource, (hhas _).trans htarget,
    (hstop _).trans hrunning, fun hback => ?_⟩
  -- with the edge itself, a way back would be a cycle of the workspace
  have hacyclic : Acyclic (done ++ [e]) := hws.acyclic.mono fun e' he' => by
    rw [hedges, List.append_cons]
    exact List.mem_append_left rest he'
  refine (acyclic_append_iff (hacyclic.mono fun _ => List.mem_append_left _)).1 hacyclic ?_
  refine .mono (fun _ _ hjoins => joins_trimmed.1 ?_) _ _ hback
  exact hjoins.mono fun _ => h.edges.mem

end Workspace

end BlockProgram
