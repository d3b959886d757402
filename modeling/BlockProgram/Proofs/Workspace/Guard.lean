import BlockProgram.Proofs.Workspace.Invariant
import Mathlib.Data.List.Nodup

/-!
# The guard is exact

Two blocks are connected as a stack, by a branch or at a socket (`Connection`). The new edge takes
the place of some others, and the guard looks for a cycle before these are gone. Here it is shown to
refuse no connection for their sake:

* `Connection.connect_eq`: a connection is drawn exactly if the guard allows it, and otherwise
  nothing changes;
* `canConnect_iff_acyclic`: the guard allows it exactly if both ends are blocks, the first one does
  not end the program, and the edges that the connection leaves have no cycle;
* `Connection.connect_exact` puts the two together for every workspace that an editor can come to.
-/

namespace BlockProgram

open Relation

theorem Value.eq_dict_of_dict? {v : Value} {entries : Dict} (h : v.dict? = some entries) :
    v = .dict entries := by
  cases v with
  | dict _ =>
    cases h
    rfl
  | _ => cases h

/-- The inputs of a block are a dictionary. -/
def Block.HasInputs (b : Block) : Prop := ∃ entries, b.inputs = .dict entries

theorem Block.hasInputs_iff {b : Block} : b.HasInputs ↔ b.inputs.dict?.isSome = true := by
  constructor
  · rintro ⟨entries, hentries⟩
    rw [hentries]
    rfl
  · intro h
    obtain ⟨entries, hentries⟩ := Option.isSome_iff_exists.1 h
    exact ⟨entries, Value.eq_dict_of_dict? hentries⟩

instance (b : Block) : Decidable b.HasInputs := decidable_of_iff _ Block.hasInputs_iff.symm

/-- A block with the empty text at a socket of its inputs, if these are a dictionary. -/
def Block.blankAt (b : Block) (socket : String) : Block :=
  match b.inputs with
  | .dict entries => { b with inputs := .dict (Dict.setNamed entries socket (.str "")) }
  | _ => b

@[simp] theorem Block.id_blankAt (b : Block) (socket : String) : (b.blankAt socket).id = b.id := by
  simp only [blankAt]
  split <;> rfl

@[simp] theorem Block.type_blankAt (b : Block) (socket : String) :
    (b.blankAt socket).type = b.type := by
  simp only [blankAt]
  split <;> rfl

/-- The ways to connect a block to another. -/
inductive Connection where
  /-- the second block follows the first one -/
  | stack
  /-- the second block is the head of a branch of the first one -/
  | branch (key : Option String)
  /-- the second block is the reporter at a socket of the first one -/
  | input (socket : String)

namespace Connection

open Workspace

variable {ws : Workspace} {source target : String}

/-- The edge that is drawn. -/
def edge (c : Connection) (source target : String) : Edge :=
  match c with
  | .stack => .stack source target
  | .branch key => .toBranch source key target
  | .input socket => .toInput source (some socket) target

/-- Whether an edge gives way to the one that is drawn. A branch does if its slot is the key as it
is given. -/
def replaces (c : Connection) (source target : String) : Edge → Bool :=
  match c with
  | .stack => rivalsStack source target
  | .branch key => fillsBranch source key
  | .input socket => fillsSocket source (some socket)

/-- The edges with the new one at the end and without those that give way to it. -/
def drawnIn (c : Connection) (source target : String) (edges : List Edge) : List Edge :=
  (edges.filter fun e => !c.replaces source target e) ++ [c.edge source target]

/-- A block as the connection leaves it: a socket that is plugged in holds the empty text. -/
def leave (c : Connection) (source : String) (b : Block) : Block :=
  match c with
  | .input socket => if b.id == source then b.blankAt socket else b
  | _ => b

/-- Connects a block to another. -/
def connect (c : Connection) (source target : String) : Edit Bool :=
  match c with
  | .stack => Edit.change fun ws => ws.connectStack source target
  | .branch key => Edit.change fun ws => ws.connectBranch source key target
  | .input socket => connectInput source (some socket) target

@[simp] theorem source_edge (c : Connection) : (c.edge source target).source = source := by
  cases c <;> rfl

@[simp] theorem target_edge (c : Connection) : (c.edge source target).target = target := by
  cases c <;> rfl

/-- An edge that gives way leaves the same block or enters the same one. -/
theorem ends_of_replaces {c : Connection} {e : Edge} (h : c.replaces source target e = true) :
    e.source = source ∨ e.target = target := by
  cases c with
  | stack =>
    simp only [replaces, rivalsStack, Bool.and_eq_true, Bool.or_eq_true, beq_iff_eq] at h
    exact h.2
  | branch key =>
    simp only [replaces, fillsBranch, Bool.and_eq_true, beq_iff_eq] at h
    exact .inl h.1.2
  | input socket =>
    simp only [replaces, fillsSocket, Bool.and_eq_true, beq_iff_eq] at h
    exact .inl h.1.2

/-- The inputs of the first block are a dictionary, if it is to be plugged in at. -/
def Fits (c : Connection) (ws : Workspace) (source : String) : Prop :=
  ∀ socket, c = .input socket → ∀ b ∈ ws.blocks, b.id = source → b.HasInputs

end Connection

namespace Workspace

variable {ws : Workspace} {source target : String}

/-- The workspace with a connection drawn. -/
def draw (ws : Workspace) (c : Connection) (source target : String) : Workspace :=
  { ws with
    blocks := ws.blocks.map (c.leave source)
    edges := c.drawnIn source target ws.edges }

theorem eq_of_block? (h : Distinct ws) {b b' : Block} (hb : ws.block? source = some b)
    (hb' : b' ∈ ws.blocks) (hid : b'.id = source) : b' = b :=
  List.inj_on_of_nodup_map h hb' (List.mem_of_find?_eq_some hb) (hid.trans (block?_id hb).symm)

/-- Plugging in stores the empty text at the socket. -/
theorem storeInput_eq (h : Distinct ws) (socket : String) (hknown : ws.has source = true)
    (hinputs : ∀ b ∈ ws.blocks, b.id = source → b.HasInputs) :
    storeInput source (socketKey (some socket)) (.str "") ws =
      (.ok (), { ws with blocks := ws.blocks.map ((Connection.input socket).leave source) }) := by
  obtain ⟨b, hb⟩ : ∃ b, ws.block? source = some b := by
    rw [← Option.isSome_iff_exists, block?, List.find?_isSome]
    exact List.any_eq_true.1 hknown
  obtain ⟨entries, hentries⟩ := hinputs b (List.mem_of_find?_eq_some hb) (block?_id hb)
  have hstored : withInput b (socketKey (some socket)) (.str "") = .ok (b.blankAt socket) := by
    simp only [withInput, Block.blankAt, hentries]
    rfl
  -- the block found is the only one with the id
  have hblocks : ws.blocks.map (fun b' => if b'.id == source then b.blankAt socket else b') =
      ws.blocks.map ((Connection.input socket).leave source) := by
    refine List.map_congr_left fun b' hb' => ?_
    simp only [Connection.leave]
    split
    · rename_i hid
      rw [eq_of_block? h hb hb' (beq_iff_eq.1 hid)]
    · rfl
  simp only [storeInput, Edit.update, hb, hstored, Except.map, modifyBlock, hblocks]

end Workspace

namespace Connection

open Workspace

variable {ws : Workspace} {source target : String}

/-- A connection that the guard does not allow is refused, and nothing changes. -/
theorem connect_refused (c : Connection) (hcan : ws.canConnect source target = false) :
    c.connect source target ws = (.ok false, ws) := by
  cases c with
  | stack => simp [connect, Edit.change, connectStack, hcan]
  | branch key => simp [connect, Edit.change, connectBranch, hcan]
  | input socket => simp [connect, connectInput, hcan]

/-- **A connection is drawn exactly if the guard allows it.** -/
theorem connect_eq (h : Distinct ws) (c : Connection) (hfits : c.Fits ws source) :
    c.connect source target ws =
      (.ok (ws.canConnect source target),
        if ws.canConnect source target then ws.draw c source target else ws) := by
  by_cases hcan : ws.canConnect source target = true
  · rw [hcan, if_pos rfl]
    cases c with
    | stack =>
      have hblocks : ws.blocks.map (Connection.stack.leave source) = ws.blocks := List.map_id' _
      simp only [connect, Edit.change, connectStack, hcan, if_true, draw, hblocks]
      rfl
    | branch key =>
      have hblocks : ws.blocks.map ((branch key).leave source) = ws.blocks := List.map_id' _
      simp only [connect, Edit.change, connectBranch, hcan, if_true, draw, hblocks]
      rfl
    | input socket =>
      have hknown := (canConnect_iff.1 hcan).1
      -- the edge is drawn first, which changes no block
      have hdistinct : Distinct (ws.replaceEdges (fillsSocket source (some socket))
        (.toInput source (some socket) target)) := h
      have hstored := storeInput_eq hdistinct socket hknown (hfits socket rfl)
      simp only [connect, connectInput, hcan, if_true]
      exact Edit.bind_ok hstored
  · rw [Bool.not_eq_true] at hcan
    rw [c.connect_refused hcan, hcan]
    rfl

end Connection

namespace Workspace

variable {ws : Workspace} {source target : String}

/-- **The guard looks at the edges that a connection would leave**, although it searches those
that there are. -/
theorem canConnect_iff_acyclic (h : Acyclic ws.edges) (c : Connection) :
    ws.canConnect source target = true ↔
      ws.has source = true ∧ ws.has target = true ∧ ws.isStop source = false ∧
        Acyclic (c.drawnIn source target ws.edges) := by
  have hdrawn : Acyclic (c.drawnIn source target ws.edges) ↔
      ¬ ReflTransGen (Joins ws.edges) (c.edge source target).target (c.edge source target).source :=
    acyclic_replace_iff h fun e _ hreplaced => by simpa using Connection.ends_of_replaces hreplaced
  rw [Connection.source_edge, Connection.target_edge] at hdrawn
  rw [canConnect_iff, hdrawn]

end Workspace

namespace Connection

open Workspace

variable {ws : Workspace} {source target : String}

/-- **Connecting two blocks is exact.** In every workspace that an editor can come to, a connection
is answered with `true` exactly if both ends are blocks, the first one does not end the program, and
the edges without those that give way and with the new one at the end have no cycle. Then these are
the edges, and nothing else changes but the text at a socket that is plugged in; otherwise nothing
changes at all. -/
theorem connect_exact (hws : Reachable ws) (c : Connection) (hfits : c.Fits ws source) :
    ∃ answer, c.connect source target ws =
        (.ok answer, if answer then ws.draw c source target else ws) ∧
      (answer = true ↔ ws.has source = true ∧ ws.has target = true ∧ ws.isStop source = false ∧
        Acyclic (c.drawnIn source target ws.edges)) :=
  ⟨ws.canConnect source target, connect_eq hws.distinct c hfits,
    canConnect_iff_acyclic hws.wellFormed.acyclic c⟩

/-- A text to say and two reporters for it. -/
def twoReporters : Workspace where
  blocks := [
    { id := "s", type := .str "say", inputs := .dict [(.str "text", .str "hello")] },
    { id := "v", type := .str "variable", inputs := .dict [(.str "name", .str "v")] },
    { id := "w", type := .str "variable", inputs := .dict [(.str "name", .str "w")] }]

/-- The first of them is plugged in. -/
def firstPlugged : Workspace :=
  ((Request.connectInput (.str "s") (.str "text") (.str "v")).perform twoReporters).2

/-- Whether an edit has answered `true`. -/
def isAgreed : Except Fault Bool → Bool
  | .ok answer => answer
  | .error _ => false

/-- The second one takes its place, and what is left has no cycle. -/
theorem connect_firstPlugged :
    (input "text").connect "s" "w" firstPlugged =
      (.ok true, firstPlugged.draw (input "text") "s" "w") ∧
    (input "text").drawnIn "s" "w" firstPlugged.edges = [.toInput "s" (some "text") "w"] ∧
    Acyclic [.toInput "s" (some "text") "w"] := by
  have hgraph : ofGraph twoReporters.snapshot = .ok twoReporters := rfl
  have hreachable : Reachable firstPlugged := .asked (.drawn 0 hgraph) trivial
  have hfits : (input "text").Fits firstPlugged "s" := by
    have hinputs : ∀ b ∈ firstPlugged.blocks, b.HasInputs := by decide +kernel
    exact fun _ _ b hb _ => hinputs b hb
  have hedges : (input "text").drawnIn "s" "w" firstPlugged.edges =
      [.toInput "s" (some "text") "w"] := by decide +kernel
  have hagreed : isAgreed ((input "text").connect "s" "w" firstPlugged).1 = true := by
    decide +kernel
  obtain ⟨answer, hconnect, hexact⟩ := @connect_exact _ _ "w" hreachable (input "text") hfits
  rw [hconnect] at hagreed
  obtain rfl : answer = true := hagreed
  exact ⟨hconnect, hedges, hedges ▸ (hexact.1 rfl).2.2.2⟩

end Connection

end BlockProgram
