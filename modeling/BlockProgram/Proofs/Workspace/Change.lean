import BlockProgram.Workspace.Request
import Mathlib.Logic.Relation

/-!
# Requests as chains of changes

Whatever an editor asks for, and whether or not it fails midway, a workspace is changed in only
a few ways (`Workspace.Plain`): blocks are added or altered, edges are removed, an edge takes the
place of its rivals where it may be drawn, a block is deleted. So what these changes keep is kept
by every request (`Request.makes_perform`). Updates alone turn blocks into ones that end the
program, and only with leave to `retype` them.

Changes that store no input and plug nothing in are mild (`Workspace.Mild`). All others come from
updates, from values that are stored and from reporters that are plugged in
(`Request.makes_mild`).

One request is set apart (`Request.blankBranch?`): a branch drawn under a key that is missing or
empty. It is drawn without taking the place of any other edge (`Request.perform_blankBranch`).
-/

namespace BlockProgram

open Relation

/-! ## Edits that make only certain changes -/

namespace Edit

variable {α β : Type} {R : Workspace → Workspace → Prop} {ws : Workspace}

/-- An edit leaves a workspace that changes of a kind lead to, also when it fails. -/
def Makes (R : Workspace → Workspace → Prop) (x : Edit α) (ws : Workspace) : Prop :=
  ReflTransGen R ws (x ws).2

/-- Two edits in a row: the second one starts from what the first has left, unless that has
failed. -/
theorem bind_apply (x : Edit α) (f : α → Edit β) (ws : Workspace) :
    (x >>= f) ws = match x ws with
      | (.ok a, ws') => f a ws'
      | (.error fault, ws') => (.error fault, ws') := by
  change (ExceptT.bind x f) ws = _
  simp only [ExceptT.bind, ExceptT.mk, bind, StateT.bind, ExceptT.bindCont]
  rcases x ws with ⟨_ | a, ws'⟩ <;> rfl

theorem bind_ok {x : Edit α} {f : α → Edit β} {a : α} {ws ws' : Workspace}
    (h : x ws = (.ok a, ws')) : (x >>= f) ws = f a ws' := by
  rw [bind_apply, h]

/-- An answer that is worked out at the end changes nothing. -/
theorem bind_pure_snd (x : Edit α) (f : α → β) (ws : Workspace) :
    ((x >>= fun a => pure (f a) : Edit β) ws).2 = (x ws).2 := by
  rw [bind_apply]
  rcases x ws with ⟨_ | a, ws'⟩ <;> rfl

theorem lift_of_eq {result result' : Except Fault α} (h : result = result') :
    Edit.lift result ws = (result', ws) :=
  congrArg (·, ws) h

/-- A check that is passed has left the workspace alone. -/
theorem lift_eq_ok {result : Except Fault α} {a : α} {ws' : Workspace}
    (h : Edit.lift result ws = (.ok a, ws')) : result = .ok a ∧ ws' = ws := by
  obtain ⟨hresult, hws⟩ := Prod.mk.inj h
  exact ⟨hresult, hws.symm⟩

/-- An update that is done is what the function says. -/
theorem update_eq_ok {f : Workspace → Except Fault Workspace} {ws' : Workspace}
    (h : Edit.update f ws = (.ok (), ws')) : f ws = .ok ws' := by
  simp only [Edit.update] at h
  split at h
  · cases h
    assumption
  · cases h

/-- A sequence that has not failed. -/
theorem bind_eq_ok {x : Edit α} {f : α → Edit β} {b : β} {ws ws' : Workspace}
    (h : (x >>= f) ws = (.ok b, ws')) : ∃ a ws₁, x ws = (.ok a, ws₁) ∧ f a ws₁ = (.ok b, ws') := by
  rw [bind_apply] at h
  rcases hx : x ws with ⟨fault | a, ws₁⟩ <;> rw [hx] at h
  · cases h
  · exact ⟨a, ws₁, rfl, h⟩

/-- Steps of one kind are steps of every kind that includes it. -/
theorem Makes.mono {S : Workspace → Workspace → Prop} {x : Edit α} (h : Makes R x ws)
    (hRS : ∀ ws ws', R ws ws' → S ws ws') : Makes S x ws := ReflTransGen.mono hRS _ _ h

theorem Makes.pure (a : α) : Makes R (pure a) ws := .refl

/-- The steps of two edits in a row are those of the first, and if it has not failed those of the
second. What the second is may rely on the result of the first. -/
theorem Makes.bind {x : Edit α} {f : α → Edit β} (hx : Makes R x ws)
    (hf : ∀ a ws', x ws = (.ok a, ws') → Makes R (f a) ws') : Makes R (x >>= f) ws := by
  simp only [Makes] at hx ⊢
  rw [bind_apply]
  rcases h : x ws with ⟨fault | a, ws'⟩ <;> rw [h] at hx
  · exact hx
  · exact hx.trans (hf a ws' h)

/-- What follows does not depend on the result. -/
theorem Makes.andThen {x : Edit α} {f : α → Edit β} (hx : Makes R x ws)
    (hf : ∀ a ws', Makes R (f a) ws') : Makes R (x >>= f) ws :=
  hx.bind fun a ws' _ => hf a ws'

/-- What follows a check may rely on its answer. -/
theorem Makes.check {result : Except Fault α} {f : α → Edit β}
    (hf : ∀ a, result = .ok a → Makes R (f a) ws) : Makes R (Edit.lift result >>= f) ws := by
  rcases result with fault | a
  · exact .refl
  · exact hf a rfl

theorem Makes.read {f : Workspace → Edit β} (hf : Makes R (f ws) ws) :
    Makes R (get >>= f) ws := hf

theorem Makes.change {f : Workspace → α × Workspace} (h : ReflTransGen R ws (f ws).2) :
    Makes R (Edit.change f) ws := h

theorem Makes.modify {f : Workspace → Workspace} (h : ReflTransGen R ws (f ws)) :
    Makes R (modify f : Edit PUnit) ws := h

theorem Makes.set {ws' : Workspace} (h : ReflTransGen R ws ws') :
    Makes R (set ws' : Edit PUnit) ws := h

/-- An update that fails leaves the workspace as it is, so only one that is done has to be accounted
for. -/
theorem Makes.update {f : Workspace → Except Fault Workspace}
    (h : ∀ ws', f ws = .ok ws' → ReflTransGen R ws ws') : Makes R (Edit.update f) ws := by
  simp only [Makes, Edit.update]
  rcases hf : f ws with fault | ws'
  · exact .refl
  · exact h ws' hf

/-- Going through a list makes the steps of its items, wherever it stops. -/
theorem Makes.forM {items : List α} {f : α → Edit PUnit} (hf : ∀ a ws, Makes R (f a) ws) :
    Makes R (items.forM f) ws := by
  induction items generalizing ws with
  | nil => exact .refl
  | cons a rest ih => exact (hf a ws).andThen fun _ _ => ih

end Edit

/-! ## Changes -/

namespace Workspace

open Edit

variable {R : Workspace → Workspace → Prop} {ws : Workspace} {retype : Prop}

/-- A block that is altered does not become one that ends the program. -/
def StaysRunning (ws : Workspace) (id : String) (f : Block → Block) : Prop :=
  ∀ b, ws.block? id = some b → (f b).type.isStr stopType = true → b.type.isStr stopType = true

/-- The palettes that come of that of a workspace: the same one, one with a new variable, or one
without some variable. -/
inductive Relabels (ws : Workspace) : List Variable → Prop
  | same : Relabels ws ws.palette
  | created (name : String) (initial : Value) : Relabels ws (ws.createVariable name initial).2.palette
  | deleted (id : String) : Relabels ws (ws.deleteVariable id).palette

theorem blocks_createVariable (ws : Workspace) (name : String) (initial : Value) :
    (ws.createVariable name initial).2.blocks = ws.blocks := by
  simp only [createVariable]
  split <;> rfl

theorem edges_createVariable (ws : Workspace) (name : String) (initial : Value) :
    (ws.createVariable name initial).2.edges = ws.edges := by
  simp only [createVariable]
  split <;> rfl

/-- The ways in which a workspace is changed, a branch under a blank key left aside. Only with leave
to `retype` them do blocks become ones that end the program. -/
inductive Plain (retype : Prop) (ws : Workspace) : Workspace → Prop
  /-- Blocks and edges stay as they are. -/
  | keep {ws' : Workspace} : ws'.blocks = ws.blocks → ws'.edges = ws.edges →
    ws.Relabels ws'.palette → Plain retype ws ws'
  /-- A block is altered in place and keeps its id. -/
  | alter {id : String} {f : Block → Block} : (∀ b, b.id = id → (f b).id = id) →
    (retype ∨ ws.StaysRunning id f) → Plain retype ws (ws.modifyBlock id f)
  /-- A block with a new id is added. -/
  | add {b : Block} : ws.has b.id = false → Plain retype ws { ws with blocks := ws.blocks ++ [b] }
  | remove (p : Edge → Bool) : Plain retype ws (ws.removeEdges p)
  | stack {above below : String} : ws.canConnect above below = true →
    Plain retype ws (ws.replaceEdges (rivalsStack above below) (.stack above below))
  | branch {parent key child : String} : key ≠ "" → ws.canConnect parent child = true →
    Plain retype ws
      (ws.replaceEdges (fillsBranch parent (some key)) (.toBranch parent (some key) child))
  | plugIn {parent child : String} (socket : Option String) :
    ws.canConnect parent child = true →
    Plain retype ws (ws.replaceEdges (fillsSocket parent socket) (.toInput parent socket child))
  | delete (id : String) : Plain retype ws (ws.deleteBlock id).2

/-- The plain changes that store no input and plug nothing in. -/
inductive Mild (ws : Workspace) : Workspace → Prop
  | keep {ws' : Workspace} : ws'.blocks = ws.blocks → ws'.edges = ws.edges →
    ws.Relabels ws'.palette → Mild ws ws'
  /-- A block is altered in place and keeps its id and its inputs. -/
  | alter {id : String} {f : Block → Block} : (∀ b, (f b).id = b.id) →
    (∀ b, (f b).inputs = b.inputs) → ws.StaysRunning id f → Mild ws (ws.modifyBlock id f)
  | add {b : Block} : ws.has b.id = false → Mild ws { ws with blocks := ws.blocks ++ [b] }
  | remove (p : Edge → Bool) : Mild ws (ws.removeEdges p)
  | stack {above below : String} : ws.canConnect above below = true →
    Mild ws (ws.replaceEdges (rivalsStack above below) (.stack above below))
  | branch {parent key child : String} : key ≠ "" → ws.canConnect parent child = true →
    Mild ws (ws.replaceEdges (fillsBranch parent (some key)) (.toBranch parent (some key) child))
  | delete (id : String) : Mild ws (ws.deleteBlock id).2

/-- A mild step is plain, whether types may change or not. -/
theorem Mild.plain {ws' : Workspace} (h : Mild ws ws') : Plain retype ws ws' := by
  cases h with
  | keep hblocks hedges hpalette => exact .keep hblocks hedges hpalette
  | alter hid _ hstays => exact .alter (fun b hb => (hid b).trans hb) (.inr hstays)
  | add hnew => exact .add hnew
  | remove p => exact .remove p
  | stack hcan => exact .stack hcan
  | branch hkey hcan => exact .branch hkey hcan
  | delete id => exact .delete id

/-- What every change keeps is kept by changes in a row. -/
theorem kept_of_changes {I : Workspace → Prop} {ws' : Workspace}
    (hI : ∀ {ws ws' : Workspace}, I ws → R ws ws' → I ws') (h : I ws)
    (hchanges : ReflTransGen R ws ws') : I ws' := by
  induction hchanges with
  | refl => exact h
  | tail _ hchange ih => exact hI ih hchange

/-! ## Deleting a block -/

/-- The workspace without a block and the edges that touch it. -/
def lacking (ws : Workspace) (id : String) : Workspace :=
  { ws with blocks := ws.blocks.filter (·.id != id) }.disconnectAll id

theorem edges_lacking (id : String) :
    (ws.lacking id).edges = ws.edges.filter fun e => !e.touches id := rfl

/-- Deleting one block does not take another one away. -/
theorem has_lacking {id other : String} (h : ws.has other = true) (hne : other ≠ id) :
    (ws.lacking id).has other = true := by
  obtain ⟨b, hb, hid⟩ := List.any_eq_true.1 h
  refine List.any_eq_true.2 ⟨b, List.mem_filter.2 ⟨hb, ?_⟩, hid⟩
  rw [beq_iff_eq] at hid
  rw [bne_iff_ne, hid]
  exact hne

/-- **What is left of a deleted block**: nothing has changed, it is lacking, or the stack around it
is joined as well. -/
theorem deleteBlock_cases (ws : Workspace) (id : String) :
    (ws.deleteBlock id).2 = ws ∨ (ws.deleteBlock id).2 = ws.lacking id ∨
      ∃ above below, ws.predecessor? id = some above ∧ ws.successor? id = some below ∧
        (ws.deleteBlock id).2 =
          (ws.lacking id).replaceEdges (rivalsStack above below) (.stack above below) := by
  simp only [deleteBlock]
  split
  · change (ws.lacking id).splice _ _ = ws ∨ (ws.lacking id).splice _ _ = _ ∨ ∃ above below,
      _ ∧ _ ∧ (ws.lacking id).splice _ _ = _
    rcases habove : ws.predecessor? id with _ | above
    · exact .inr (.inl rfl)
    rcases hbelow : ws.successor? id with _ | below
    · exact .inr (.inl rfl)
    simp only [splice]
    split
    · exact .inr (.inl rfl)
    · exact .inr (.inr ⟨above, below, rfl, rfl, rfl⟩)
  · exact .inl rfl

/-! ## What requests are made of -/

/-- Altering a block in place leaves all ids where they are. -/
theorem ids_modifyBlock {id : String} {f : Block → Block} (hf : ∀ b, b.id = id → (f b).id = id) :
    (ws.modifyBlock id f).blocks.map (·.id) = ws.blocks.map (·.id) := by
  rw [modifyBlock, List.map_map]
  refine List.map_congr_left fun b _ => ?_
  simp only [Function.comp]
  split
  · rename_i hid
    rw [beq_iff_eq] at hid
    rw [hf b hid, hid]
  · rfl

theorem has_eq_contains (ws : Workspace) (id : String) :
    ws.has id = (ws.blocks.map (·.id)).contains id := by
  rw [has, List.contains_eq_any_beq, List.any_map]
  congr 1
  funext b
  exact Bool.beq_comm

/-- Changing a block takes no block away, as long as the change keeps its id. -/
theorem has_modifyBlock {id : String} {f : Block → Block} (hf : ∀ b, b.id = id → (f b).id = id)
    (other : String) : (ws.modifyBlock id f).has other = ws.has other := by
  rw [has_eq_contains, has_eq_contains, ids_modifyBlock hf]

/-- Adding a block is a mild step, since it is refused where the id is known. -/
theorem mild_addBlock {b : Block} {ws' : Workspace} (h : ws.addBlock b = .ok ws') :
    ReflTransGen Mild ws ws' := by
  simp only [addBlock] at h
  split at h
  · cases h
  · rename_i hnew
    cases h
    exact .single (.add (by simpa using hnew))

theorem id_set (b : Block) (field : BlockField) (value : Value) : (b.set field value).id = b.id := by
  cases field <;> rfl

/-- Setting a field is a plain step if types may change, whatever field it is. -/
theorem plain_assign {id name : String} {value : Value} {ws' : Workspace} (hretype : retype)
    (h : ws.assign id name value = .ok ws') : ReflTransGen (Plain retype) ws ws' := by
  simp only [assign] at h
  split at h
  · cases h
  · split at h
    · cases h
      exact .single (.alter (fun b hid => (id_set b _ value).trans hid) (.inl hretype))
    · split at h
      · cases h
        exact .refl
      · cases h

/-- Storing a value changes nothing of a block but its inputs. -/
theorem withInput_ok {b b' : Block} {socket value : Value} (h : withInput b socket value = .ok b') :
    b'.id = b.id ∧ b'.type = b.type := by
  simp only [withInput] at h
  split at h
  · split at h
    · cases h
      exact ⟨rfl, rfl⟩
    · cases h
  · cases h

theorem block?_id {id : String} {b : Block} (h : ws.block? id = some b) : b.id = id := by
  simpa using List.find?_some h

theorem has_of_mem {b : Block} (h : b ∈ ws.blocks) : ws.has b.id = true :=
  List.any_eq_true.2 ⟨b, h, BEq.rfl⟩

theorem has_of_block? {id : String} {b : Block} (h : ws.block? id = some b) : ws.has id = true := by
  rw [← block?_id h]
  exact has_of_mem (List.mem_of_find?_eq_some h)

/-- Typing something in at a socket changes one block and no edge. -/
theorem makes_storeInput (id : String) (socket value : Value) :
    Makes (Plain retype) (storeInput id socket value) ws := by
  refine .update fun ws' h => ?_
  rcases hb : ws.block? id with _ | b
  · simp only [hb] at h
    cases h
    exact .refl
  · simp only [hb] at h
    rcases hinput : withInput b socket value with fault | b' <;> rw [hinput] at h
    · cases h
    · cases h
      obtain ⟨hid, htype⟩ := withInput_ok hinput
      -- the block that is put in place has the id of those that it replaces
      refine .single (.alter (fun _ _ => hid.trans (block?_id hb)) (.inr fun b₀ hb₀ hstop => ?_))
      rw [hb] at hb₀
      cases hb₀
      rwa [htype] at hstop

/-- Linking two blocks is a mild step, also where the guard refuses it. -/
theorem mild_connectStack (above below : String) :
    ReflTransGen Mild ws (ws.connectStack above below).2 := by
  simp only [connectStack]
  split
  · rename_i h
    exact .single (.stack h)
  · exact .refl

/-- So is linking a branch, if its key is not empty. An empty key replaces nothing. -/
theorem mild_connectBranch {parent key child : String} (hkey : key ≠ "") :
    ReflTransGen Mild ws (ws.connectBranch parent (some key) child).2 := by
  simp only [connectBranch]
  split
  · rename_i h
    exact .single (.branch hkey h)
  · exact .refl

/-- Plugging in takes two steps, the second of which may fail: the edge is drawn, and what was typed
in is taken out. -/
theorem makes_connectInput (parent : String) (socket : Option String) (child : String) :
    Makes (Plain retype) (connectInput parent socket child) ws := by
  simp only [Makes, connectInput]
  split
  · rename_i h
    refine .head (.plugIn socket h) ?_
    exact (makes_storeInput parent _ _).andThen fun _ _ => .pure _
  · exact .refl

/-- The key that an edge stands for is never empty. -/
theorem branchKey_ne_empty (key : Option String) : Edge.branchKey key ≠ "" := by
  simp only [Edge.branchKey]
  split
  · rename_i key
    split
    · decide
    · rename_i h
      exact fun hkey => h (by rw [hkey]; rfl)
  · decide

/-- An edge given as a whole is never drawn under a blank key. -/
theorem makes_connectEdge (e : Edge) : Makes (Plain retype) (connectEdge e) ws := by
  simp only [connectEdge]
  rcases hk : e.kind
  · exact (Makes.change (mild_connectStack _ _)).mono fun _ _ => Mild.plain
  · simp only [Edge.slot, hk]
    exact (Makes.change (mild_connectBranch (branchKey_ne_empty _))).mono fun _ _ => Mild.plain
  · exact makes_connectInput _ _ _

/-- Replaying a graph is adding its blocks and drawing its edges, so it takes plain steps only. -/
theorem makes_replay (g : ProgramGraph) : Makes (Plain retype) (replay g) ws := by
  simp only [replay]
  have hblocks : Makes Mild (g.blocks.forM fun b => Edit.update fun ws => ws.addBlock b) ws :=
    .forM fun b _ => .update fun _ h => mild_addBlock h
  refine (hblocks.mono fun _ _ => Mild.plain).andThen fun _ _ => ?_
  exact .forM fun e _ => (makes_connectEdge e).andThen fun _ _ => .pure _

/-- A workspace drawn from a graph is reached from the empty one. -/
theorem plain_of_ofGraph (retype : Prop) {g : ProgramGraph} (h : ofGraph g = .ok ws) :
    ReflTransGen (Plain retype) {} ws := by
  have hmakes : Makes (Plain retype) (replay g) {} := makes_replay g
  simp only [Makes] at hmakes
  simp only [ofGraph] at h
  split at h
  · rename_i hreplay
    cases h
    rw [hreplay] at hmakes
    exact hmakes
  · cases h

theorem makes_setInput (id : String) (socket value : Value) :
    Makes (Plain retype) (setInput id socket value) ws :=
  .head (.remove _) (makes_storeInput id socket value)

/-! ## Enders -/

/-- An ender is added like any other block. -/
theorem makes_addEnder (owner : Block) (type : String) (height gap : Int) (extra : Dict) :
    Makes Mild (addEnder owner type height gap extra) ws := by
  refine Makes.andThen (.change (.single (.keep rfl rfl .same))) fun id ws => ?_
  refine .check fun place _ => .check fun ender _ => ?_
  exact Makes.andThen (.update fun _ h => mild_addBlock h) fun _ _ => .pure _

theorem makes_needBlock (id : String) : Makes R (needBlock id) ws := by
  simp only [Makes, needBlock]
  split <;> exact .refl

theorem makes_ensureIfEnder (id : String) : Makes Mild (ensureIfEnder id) ws := by
  refine (makes_needBlock id).andThen fun owner ws => .read (.check fun found _ => ?_)
  split
  · exact .pure _
  · exact makes_addEnder _ _ _ _ _

/-- The ender of a loop is never taken for a stop, whatever size is in its type. -/
theorem repeatEnderType_ne_stop (size : Int) : repeatEnderType size ≠ stopType := by
  intro h
  have hlength := congrArg String.length h
  have hmark : repeatEnderMark.length = 17 := by decide
  have hstop : stopType.length = 4 := by decide
  rw [repeatEnderType, String.length_append, String.length_append, hmark, hstop] at hlength
  omega

/-- The ender of a loop is changed in place if it is there and added otherwise. -/
theorem makes_ensureRepeatEnder (id : String) : Makes Mild (ensureRepeatEnder id) ws := by
  refine (makes_needBlock id).andThen fun owner ws => .read (.check fun found _ => ?_)
  split
  · dsimp only
    split
    · refine Makes.andThen (.set (.single ?_)) fun _ _ => .pure _
      refine .alter (fun _ => rfl) (fun _ => rfl) ?_
      exact fun _ _ hstop => absurd hstop (by simp [Value.isStr, repeatEnderType_ne_stop])
    · exact .pure _
  · exact makes_addEnder _ _ _ _ _

theorem makes_ensureEnder (b : Block) : Makes Mild (ensureEnder b) ws := by
  refine .check fun pairing _ => ?_
  split
  · exact (makes_ensureIfEnder _).andThen fun _ _ => .pure _
  · exact (makes_ensureRepeatEnder _).andThen fun _ _ => .pure _
  · exact .pure _

theorem mild_deleteBlocks (blocks : List Block) :
    ReflTransGen Mild ws (blocks.foldl (fun ws b => (ws.deleteBlock b.id).2) ws) := by
  induction blocks generalizing ws with
  | nil => exact .refl
  | cons b rest ih => exact .head (.delete b.id) ih

/-- **Tending the enders takes mild steps only**: enders are added and retyped, and orphans
deleted. -/
theorem makes_syncEnders : Makes Mild syncEnders ws := by
  refine .read (Makes.andThen (.forM fun b _ => makes_ensureEnder b) fun _ ws => .read ?_)
  refine .check fun orphans _ => ?_
  exact Makes.andThen (.set (mild_deleteBlocks orphans)) fun _ _ => .pure _

end Workspace

/-! ## Requests -/

namespace Request

open Edit Workspace

variable {R : Workspace → Workspace → Prop} {ws : Workspace} {retype : Prop}

/-- The key of an editor's socket name: a name that counts as false is empty. -/
def socketText (socket : Value) : String := if socket.truthy then socket.plain else ""

/-- The parent and the child of a branch asked for under a key that is missing or empty. -/
def blankBranch? : Request → Option (String × String)
  | .connectBranch (.str parent) (.str key) (.str child) =>
    if key = "" then some (parent, child) else none
  | .connectBranch (.str parent) .null (.str child) => some (parent, child)
  | .connectSocket (.str source) socket (.str target) =>
    if socketText socket = "" then some (source, target) else none
  | _ => none

/-- An edge to a socket is asked for. -/
inductive Plugs : Request → String → Option String → String → Prop
  | byName (parent socket child : String) :
    Plugs (.connectInput (.str parent) (.str socket) (.str child)) parent (some socket) child
  | unnamed (parent child : String) :
    Plugs (.connectInput (.str parent) .null (.str child)) parent none child
  | atSocket {socket : Value} {input : String} (parent child : String) :
    afterMark? inputSocketMark (socketText socket) = some input →
    Plugs (.connectSocket (.str parent) socket (.str child)) parent (some input) child
  | asRecord {record : Value} {e : Edge} : (Record.edge record).toExcept = .ok e →
    e.kind = .input → Plugs (.connectEdge record) e.source (some (e.socket.getD "")) e.target

theorem makes_known (id : Value) : Makes R (known id) ws := by
  simp only [Makes, known]
  split
  · split <;> exact .refl
  · exact .refl

theorem eq_str_of_str? {v : Value} {s : String} (h : v.str? = some s) : v = .str s := by
  cases v with
  | str t =>
    cases h
    rfl
  | _ => cases h

theorem map_needKey {v : Value} {name : Option String}
    (h : (Fault.needKey v).map (fun _ => v.str?) = .ok name) : v.str? = name := by
  rcases hk : Fault.needKey v with fault | ⟨⟩ <;> rw [hk] at h
  · cases h
  · cases h
    rfl

/-- An edit between two blocks is refused where their ids are not texts, so only texts have to be
accounted for. -/
theorem makes_between {a b : Value} {connect : String → String → Edit Bool}
    (h : ∀ a' b', a = .str a' → b = .str b' → Makes R (connect a' b') ws) :
    Makes R (between a b connect) ws := by
  refine .check fun a' ha => .check fun b' hb => ?_
  have ha := map_needKey ha
  have hb := map_needKey hb
  split
  · exact (h _ _ (eq_str_of_str? ha) (eq_str_of_str? hb)).andThen fun _ _ => .pure _
  · exact .pure _

/-- A key or socket is missing or a text. -/
theorem eq_of_slotName {field : String} {slot : Value} {name : Option String}
    (h : (Checked.under [.field field] (Record.optionalText slot)).toExcept = .ok name) :
    slot = .null ∧ name = none ∨ ∃ s, slot = .str s ∧ name = some s := by
  cases slot with
  | null =>
    cases h
    exact .inl ⟨rfl, rfl⟩
  | str s =>
    cases h
    exact .inr ⟨s, rfl, rfl⟩
  | _ => cases h

/-- The slot of an edge is looked at only if the edge may be drawn, and is nothing or a text if it
is drawn. -/
theorem makes_withSlot {field : String} {slot : Value} {source target : String}
    {connect : Option String → Edit Bool}
    (h : ∀ name, ws.canConnect source target = true →
      (slot = .null ∧ name = none ∨ ∃ s, slot = .str s ∧ name = some s) →
      Makes R (connect name) ws) :
    Makes R (withSlot field slot source target connect) ws := by
  refine .read ?_
  split
  · rename_i hcan
    exact .check fun name hname => h name hcan (eq_of_slotName hname)
  · exact .pure _

theorem makes_assignAll (hretype : retype) (id : String) (updates : Dict) :
    Makes (Plain retype) (assignAll id updates) ws :=
  .forM fun _ _ => .update fun _ h => plain_assign hretype h

/-- Sockets of the names of inputs are left aside. -/
theorem makes_connectSocket {source text target : String}
    (hplain : afterMark? inputSocketMark text = none)
    (h : text = "" → ws.canConnect source target = false) :
    Makes Mild (Workspace.connectSocket source text target) ws := by
  rw [Workspace.connectSocket, hplain]
  dsimp only
  split
  · exact .change (mild_connectStack _ _)
  · refine .change ?_
    by_cases htext : text = ""
    · rw [Workspace.connectBranch, h htext]
      exact .refl
    · exact mild_connectBranch htext

/-- **A request makes only mild changes**, unless it updates a block, stores a value, plugs a
reporter in or draws a branch under a blank key. -/
theorem makes_mild {r : Request} (hupdate : ∀ id updates, r ≠ .updateBlock id updates)
    (hset : ∀ id socket value, r ≠ .setInput id socket value)
    (hplugs : ∀ parent socket child, ¬ r.Plugs parent socket child)
    (h : ∀ parent child, r.blankBranch? = some (parent, child) →
      ws.canConnect parent child = false) : Makes Mild r.perform ws := by
  cases r with
  | addBlock record =>
    exact .check fun b _ => Makes.andThen (.update fun _ h => mild_addBlock h) fun _ _ => .pure _
  | getBlock id => exact (makes_known id).andThen fun _ _ => .pure _
  | hasBlock id => exact .check fun _ _ => .read (.pure _)
  | moveBlock id x y =>
    refine (makes_known id).andThen fun name _ => ?_
    refine Makes.andThen (.modify (.single ?_)) fun _ _ => .pure _
    exact .alter (fun _ => rfl) (fun _ => rfl) fun _ _ hstop => hstop
  | updateBlock id updates => exact absurd rfl (hupdate id updates)
  | deleteBlock id =>
    refine .check fun name _ => ?_
    split
    · exact Makes.andThen (.change (.single (.delete _))) fun _ _ => .pure _
    · exact .pure _
  | disconnectAll id =>
    dsimp only [perform]
    split
    · exact Makes.andThen (.modify (.single (.remove _))) fun _ _ => .pure _
    · exact .pure _
  | setInput id socket value => exact absurd rfl (hset id socket value)
  | wouldCycle source target => exact .read (.refl)
  | connectStack above below =>
    exact makes_between fun _ _ _ _ => .change (mild_connectStack _ _)
  | connectBranch parent key child =>
    refine makes_between fun a b ha hb => makes_withSlot fun name hcan hname => ?_
    subst ha hb
    rcases hname with ⟨rfl, rfl⟩ | ⟨s, rfl, rfl⟩
    -- a missing or empty key is what the hypothesis speaks of
    · rw [h a b rfl] at hcan
      cases hcan
    · refine .change (mild_connectBranch fun hs => ?_)
      rw [h a b (if_pos hs)] at hcan
      cases hcan
  | connectInput parent socket child =>
    refine makes_between fun a b ha hb => makes_withSlot fun name _ hname => ?_
    subst ha hb
    rcases hname with ⟨rfl, -⟩ | ⟨s, rfl, -⟩
    · exact absurd (.unnamed a b) (hplugs a none b)
    · exact absurd (.byName a s b) (hplugs a (some s) b)
  | connectSocket source socket target =>
    refine makes_between fun a b ha hb => ?_
    subst ha hb
    refine makes_connectSocket ?_ fun htext => h a b (if_pos htext)
    exact Option.eq_none_iff_forall_ne_some.2 fun input hinput =>
      hplugs a (some input) b (.atSocket a b hinput)
  | connectEdge record =>
    refine .check fun e he => Makes.andThen ?_ fun _ _ => .pure _
    simp only [Workspace.connectEdge]
    rcases hk : e.kind
    · exact .change (mild_connectStack _ _)
    · simp only [Edge.slot, hk]
      exact .change (mild_connectBranch (branchKey_ne_empty _))
    · exact absurd (.asRecord he hk) (hplugs e.source _ e.target)
  | successor id => exact .read (.pure _)
  | predecessor id => exact .read (.pure _)
  | branchHead id key =>
    refine .read ?_
    split <;> exact .pure _
  | inputSource id socket =>
    refine .read ?_
    split <;> exact .pure _
  | createVariable name initial =>
    refine .check fun name _ => Makes.andThen (.change (.single ?_)) fun _ _ => .pure _
    exact .keep (blocks_createVariable ws name initial) (edges_createVariable ws name initial)
      (.created name initial)
  | deleteVariable id =>
    dsimp only [perform]
    split
    · exact Makes.andThen (.modify (.single (.keep rfl rfl (.deleted _)))) fun _ _ => .pure _
    · exact .pure _
  | initialVars => exact .read (.pure _)
  | ensureIfEnder id =>
    refine (makes_known id).andThen fun name _ => ?_
    exact (makes_ensureIfEnder name).andThen fun _ _ => .pure _
  | ensureRepeatEnder id =>
    refine (makes_known id).andThen fun name _ => ?_
    exact (makes_ensureRepeatEnder name).andThen fun _ _ => .pure _
  | findEnder id => exact .read (.check fun _ _ => .pure _)
  | syncEnders => exact makes_syncEnders.andThen fun _ _ => .pure _
  | lastInStack id => exact .read .refl
  | stackLength id => exact .read .refl
  | save library indent => exact .check fun _ _ => .read (.check fun _ _ => .pure _)

/-- Two texts are connected. -/
theorem between_apply (a b : String) (connect : String → String → Edit Bool) :
    between (.str a) (.str b) connect ws =
      (connect a b >>= fun answer => pure (.bool answer)) ws := rfl

/-- A key or socket is looked at where an edge may be drawn. -/
theorem withSlot_apply {field : String} {slot : Value} {name : Option String}
    {source target : String} (connect : Option String → Edit Bool)
    (hslot : slotName field slot ws = (.ok name, ws))
    (hcan : ws.canConnect source target = true) :
    withSlot field slot source target connect ws = connect name ws := by
  simp only [withSlot]
  rw [bind_ok (show (get : Edit Workspace) ws = (.ok ws, ws) from rfl), if_pos hcan,
    bind_ok hslot]

/-- **Requests that plug a reporter in** do nothing else. -/
theorem perform_plugs {r : Request} {parent child : String} {socket : Option String}
    (h : r.Plugs parent socket child) :
    (r.perform ws).2 = (Workspace.connectInput parent socket child ws).2 := by
  have hanswer (x : Edit Bool) :
      ((x >>= fun answer => pure (.bool answer) : Edit Value) ws).2 = (x ws).2 :=
    bind_pure_snd x Value.bool ws
  -- a socket is looked at only where the edge may be drawn, and this one is in order
  have hslot (slot : Value) (hname : slotName "port" slot ws = (.ok socket, ws)) :
      (withSlot "port" slot parent child
        (fun socket => Workspace.connectInput parent socket child) ws).2 =
        (Workspace.connectInput parent socket child ws).2 := by
    by_cases hcan : ws.canConnect parent child = true
    · rw [withSlot_apply _ hname hcan]
    · rw [Workspace.connectInput, if_neg hcan, withSlot, bind_ok
        (show (get : Edit Workspace) ws = (.ok ws, ws) from rfl), if_neg hcan]
      rfl
  cases h with
  | byName _ name _ => exact (hanswer _).trans (hslot _ rfl)
  | unnamed => exact (hanswer _).trans (hslot _ rfl)
  | @atSocket text input _ _ hinput =>
    have hconnect : Workspace.connectSocket parent (socketText text) child ws =
        Workspace.connectInput parent (some input) child ws := by
      rw [Workspace.connectSocket, hinput]
    exact (hanswer _).trans (congrArg Prod.snd hconnect)
  | @asRecord record e hrecord hkind =>
    have hconnect : Workspace.connectEdge e ws =
        Workspace.connectInput e.source (some (e.socket.getD "")) e.target ws := by
      rw [Workspace.connectEdge, hkind]
    have hread : Edit.lift (Record.edge record).toExcept ws = (.ok e, ws) := lift_of_eq hrecord
    have hperform := bind_ok (f := fun e => do return Value.bool (← Workspace.connectEdge e)) hread
    exact (congrArg Prod.snd hperform).trans ((hanswer _).trans (congrArg Prod.snd hconnect))

/-- **A request makes only plain changes**, unless it draws a branch under a blank key. Only updates
need the leave to make blocks end the program. -/
theorem makes_perform {r : Request} (hretype : ∀ id updates, r = .updateBlock id updates → retype)
    (h : ∀ parent child, r.blankBranch? = some (parent, child) →
      ws.canConnect parent child = false) : Makes (Plain retype) r.perform ws := by
  by_cases hplugs : ∃ parent socket child, r.Plugs parent socket child
  · obtain ⟨parent, socket, child, hplugs⟩ := hplugs
    rw [Makes, perform_plugs hplugs]
    exact makes_connectInput parent socket child
  have hmild (hupdate : ∀ id updates, r ≠ .updateBlock id updates)
      (hset : ∀ id socket value, r ≠ .setInput id socket value) :
      Makes (Plain retype) r.perform ws := by
    refine (makes_mild hupdate hset (fun parent socket child hp => ?_) h).mono fun _ _ => Mild.plain
    exact hplugs ⟨parent, socket, child, hp⟩
  cases r with
  | updateBlock id updates =>
    refine .check fun updates _ => (makes_known id).andThen fun name _ => ?_
    exact (makes_assignAll (hretype _ _ rfl) name updates).andThen fun _ _ => .pure _
  | setInput id socket value =>
    refine (makes_known id).andThen fun name _ => ?_
    exact (makes_setInput name socket value).andThen fun _ _ => .pure _
  | _ => exact hmild nofun nofun

/-- No branch edge is found under a blank key, so none gives way. -/
theorem connectBranch_blank {parent child : String} {key : Option String}
    (hkey : key = none ∨ key = some "") (hcan : ws.canConnect parent child = true) :
    (ws.connectBranch parent key child).2 = ws.appendEdge (.toBranch parent key child) := by
  have hfills (e : Edge) : fillsBranch parent key e = false := by
    by_cases hbranch : e.kind = .branch
    · have hslot : e.slot = some (Edge.branchKey e.branch) := by simp only [Edge.slot, hbranch]
      have hne := branchKey_ne_empty e.branch
      rcases hkey with rfl | rfl <;> simp [fillsBranch, hslot, hne]
    · simp [fillsBranch, hbranch]
  have hkept : ws.removeEdges (fillsBranch parent key) = ws := by
    rw [removeEdges, List.filter_eq_self.2 fun e _ => by rw [hfills e]; rfl]
  rw [Workspace.connectBranch, if_pos hcan, replaceEdges, hkept]

/-- A request to link a branch comes down to linking it once its slot is read. -/
theorem perform_connectBranch {parent child : String} {slot : Value} {key : Option String}
    (hslot : slotName "branch" slot ws = (.ok key, ws)) (hcan : ws.canConnect parent child = true) :
    ((Request.connectBranch (.str parent) slot (.str child)).perform ws).2 =
      (ws.connectBranch parent key child).2 := by
  have hdrawn : withSlot "branch" slot parent child (fun key => Edit.change fun ws =>
      ws.connectBranch parent key child) ws =
        (.ok (ws.connectBranch parent key child).1, (ws.connectBranch parent key child).2) :=
    withSlot_apply _ hslot hcan
  exact congrArg Prod.snd (bind_ok hdrawn)

/-- A branch asked for under a blank key is drawn as it is. -/
theorem perform_blankBranch {r : Request} {parent child : String}
    (h : r.blankBranch? = some (parent, child)) (hcan : ws.canConnect parent child = true) :
    ∃ key, (key = none ∨ key = some "") ∧
      (r.perform ws).2 = (ws.connectBranch parent key child).2 := by
  simp only [blankBranch?] at h
  split at h
  · obtain ⟨rfl, hends⟩ := Option.ite_none_right_eq_some.1 h
    cases hends
    have hslot : slotName "branch" (.str "") ws = (.ok (some ""), ws) := rfl
    exact ⟨some "", .inr rfl, perform_connectBranch hslot hcan⟩
  · cases h
    have hslot : slotName "branch" .null ws = (.ok none, ws) := rfl
    exact ⟨none, .inl rfl, perform_connectBranch hslot hcan⟩
  · rename_i source socket target
    obtain ⟨htext, hends⟩ := Option.ite_none_right_eq_some.1 h
    cases hends
    have hdrawn : Workspace.connectSocket parent (socketText socket) child ws =
        (.ok (ws.connectBranch parent (some "") child).1,
          (ws.connectBranch parent (some "") child).2) := by
      rw [htext]
      rfl
    refine ⟨some "", .inr rfl, ?_⟩
    show (between _ _ _ ws).2 = _
    exact congrArg Prod.snd (bind_ok hdrawn)
  · cases h

end Request

end BlockProgram
