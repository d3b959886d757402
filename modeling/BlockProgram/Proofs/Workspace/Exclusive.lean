import BlockProgram.Proofs.Workspace.Terminal

/-!
# Stored values and plugged-in reporters

A workspace is **exclusive** (`Workspace.Exclusive`) if a socket with a reporter plugged in holds
the empty text. Plugging a reporter in empties the socket and storing a value unplugs the reporter,
so what an editor does at sockets keeps a workspace exclusive, and a reporter that is deleted or
disconnected brings no value back.

Two kinds of requests do not (`Request.Exposes`): an update that puts other inputs in the place of
those with an emptied socket, and a reporter that is plugged in where the inputs are no dictionary,
which fails but leaves the edge. There are no others (`Workspace.exclusive_perform_iff`).
-/

namespace BlockProgram

open Relation Workspace

/-! ## What is stored at a socket -/

/-- What a block stores at a socket. -/
def Block.stored? (b : Block) (socket : Option String) : Option Value :=
  b.inputs.dict?.bind fun entries => Dict.get? entries (socketKey socket)

/-- What is stored at a socket is what the inputs of the block have there. -/
theorem Block.stored?_eq {b : Block} {entries : Dict} (h : b.inputs = .dict entries)
    (socket : Option String) : b.stored? socket = Dict.get? entries (socketKey socket) := by
  rw [stored?, h]
  rfl

/-- A block without inputs stores nothing. -/
theorem Block.stored?_eq_none {b : Block} (h : ¬ b.HasInputs) (socket : Option String) :
    b.stored? socket = none := by
  rw [hasInputs_iff, Bool.not_eq_true, Option.isSome_eq_false_iff, Option.isNone_iff_eq_none] at h
  rw [stored?, h]
  rfl

/-- Only the key of a socket is taken for it. -/
theorem sameKey_socketKey {v : Value} {socket : Option String} :
    v.sameKey (socketKey socket) = true ↔ v = socketKey socket := by
  cases socket with
  | some name => exact Value.sameKey_str
  | none => cases v <;> simp [socketKey, Value.sameKey, Value.number?]

theorem socketKey_sameKey (v : Value) (socket : Option String) :
    (socketKey socket).sameKey v = v.sameKey (socketKey socket) := by
  cases socket <;> cases v <;> first | rfl | exact Bool.beq_comm

namespace Dict

theorem get?_cons (entry : Value × Value) (rest : Dict) (socket : Option String) :
    get? (entry :: rest) (socketKey socket) =
      if entry.1.sameKey (socketKey socket) then some entry.2
      else get? rest (socketKey socket) := by
  rw [get?, List.find?_cons]
  split
  · rename_i hsame
    rw [if_pos hsame]
    rfl
  · rename_i hother
    rw [if_neg (Bool.eq_false_iff.1 hother)]
    rfl

/-- What a socket holds is what was stored there last, under whatever key. -/
theorem get?_insert (d : Dict) (key value : Value) (socket : Option String) :
    get? (insert d key value) (socketKey socket) =
      if key.sameKey (socketKey socket) then some value else get? d (socketKey socket) := by
  induction d with
  | nil =>
    rw [insert, get?_cons]
  | cons entry rest ih =>
    rw [insert]
    by_cases hkey : key.sameKey (socketKey socket) = true
    · -- the entries of this key are those of the socket
      obtain rfl := sameKey_socketKey.1 hkey
      by_cases hsame : entry.1.sameKey (socketKey socket) = true
      · rw [if_pos hsame, get?_cons, if_pos hsame, if_pos hkey]
      · rw [if_neg hsame, get?_cons, if_neg hsame, ih, if_pos hkey, if_pos hkey]
    · by_cases hsame : entry.1.sameKey key = true
      · have hentry : ¬ entry.1.sameKey (socketKey socket) = true := by
          intro hentry
          rw [sameKey_socketKey.1 hentry, socketKey_sameKey] at hsame
          exact hkey hsame
        rw [if_pos hsame, get?_cons, get?_cons, if_neg hentry, if_neg hentry, if_neg hkey]
      · rw [if_neg hsame, get?_cons, get?_cons, ih, if_neg hkey, if_neg hkey]

end Dict

namespace Workspace

variable {ws ws' : Workspace} {id : String}

/-- What is stored at a socket of a block. -/
def stored? (ws : Workspace) (id : String) (socket : Option String) : Option Value :=
  (ws.block? id).bind fun b => b.stored? socket

/-- What is stored depends on the blocks alone. -/
theorem stored?_congr (h : ws'.blocks = ws.blocks) : ws'.stored? = ws.stored? := by
  funext id socket
  rw [stored?, stored?, block?, block?, h]

/-- Changing a block leaves what the others store. -/
theorem stored?_modifyBlock_of_ne {f : Block → Block} (hf : ∀ b, (f b).id = b.id) {other : String}
    (hne : other ≠ id) (socket : Option String) :
    (ws.modifyBlock id f).stored? other socket = ws.stored? other socket := by
  rw [stored?, stored?, block?_modifyBlock fun b hid => (hf b).trans hid]
  rcases hb : ws.block? other with _ | b
  · rfl
  · have hid : b.id ≠ id := by rwa [block?_id hb]
    simp [hid]

theorem stored?_modifyBlock_self {f : Block → Block} (hf : ∀ b, (f b).id = b.id) {b : Block}
    (hb : ws.block? id = some b) (socket : Option String) :
    (ws.modifyBlock id f).stored? id socket = (f b).stored? socket := by
  rw [stored?, block?_modifyBlock fun b hid => (hf b).trans hid, hb]
  simp [block?_id hb]

/-- Only the inputs count. -/
theorem stored?_modifyBlock {f : Block → Block} (hf : ∀ b, (f b).id = b.id)
    (hinputs : ∀ b, (f b).inputs = b.inputs) :
    (ws.modifyBlock id f).stored? = ws.stored? := by
  funext other socket
  by_cases hother : other = id
  · subst hother
    rcases hb : ws.block? other with _ | b
    · rw [stored?, stored?, block?_modifyBlock fun b hid => (hf b).trans hid, hb]
      rfl
    · rw [stored?_modifyBlock_self hf hb, stored?, hb, Block.stored?, hinputs]
      rfl
  · exact stored?_modifyBlock_of_ne hf hother socket

/-- An added block hides nothing that is stored. -/
theorem stored?_append {b : Block} {other : String} {socket : Option String} {v : Value}
    (h : ws.stored? other socket = some v) :
    stored? { ws with blocks := ws.blocks ++ [b] } other socket = some v := by
  obtain ⟨b', hb', hstored⟩ := Option.bind_eq_some_iff.1 h
  have hfound : block? { ws with blocks := ws.blocks ++ [b] } other = some b' := by
    rw [block?, List.find?_append, show ws.blocks.find? (·.id == other) = some b' from hb',
      Option.some_or]
  rw [stored?, hfound]
  exact hstored

/-- Deleting a block leaves what the others store. -/
theorem stored?_lacking {other : String} (hne : other ≠ id) (socket : Option String) :
    (ws.lacking id).stored? other socket = ws.stored? other socket := by
  rw [stored?, stored?, block?_lacking, if_neg hne]

/-- A block that is deleted takes nothing with it that other blocks store. -/
theorem stored?_deleteBlock {other : String} (hne : other ≠ id) (socket : Option String) :
    (ws.deleteBlock id).2.stored? other socket = ws.stored? other socket := by
  rcases deleteBlock_cases ws id with hsame | hgone | ⟨above, below, -, -, hjoined⟩
  · rw [hsame]
  · rw [hgone, stored?_lacking hne]
  · rw [hjoined]
    exact stored?_lacking hne socket

/-! ## Storing a value -/

/-- A known block that does not lack inputs has them. -/
theorem eq_dict_of_hasInputs {b : Block} (h : ¬ ws.LacksInputs id) (hb : ws.block? id = some b) :
    b.HasInputs := by
  by_contra hlacks
  exact h ⟨b, hb, hlacks⟩

/-- A value is stored in the inputs of a block if they are a dictionary and there is such a key. -/
theorem storeInput_apply {b : Block} {entries : Dict} {key : Value} (hb : ws.block? id = some b)
    (hentries : b.inputs = .dict entries) (hkey : key.isKey = true) (value : Value) :
    storeInput id key value ws = (.ok (), ws.modifyBlock id fun _ =>
      { b with inputs := .dict (Dict.insert entries key value) }) := by
  simp only [storeInput, Edit.update, hb, withInput, hentries, hkey, if_true]
  rfl

/-- **What sockets hold after a value was stored**: the value where it was stored, and elsewhere
what they held before. -/
theorem stored?_storeInput {b : Block} {entries : Dict} {key : Value} (hb : ws.block? id = some b)
    (hentries : b.inputs = .dict entries) (hkey : key.isKey = true) (value : Value)
    (other : String) (socket : Option String) :
    (storeInput id key value ws).2.stored? other socket =
      if other = id ∧ key.sameKey (socketKey socket) then some value
      else ws.stored? other socket := by
  have hid : b.id = id := block?_id hb
  have hstored := congrArg Prod.snd (storeInput_apply hb hentries hkey value)
  rw [hstored, stored?, block?_modifyBlock (by exact fun _ _ => hid), stored?]
  by_cases hother : other = id
  · subst hother
    simp only [hb, Option.map_some, Option.bind_some, hid, BEq.rfl, if_true, true_and]
    rw [Block.stored?_eq rfl, Dict.get?_insert, Block.stored?_eq hentries]
  · rw [if_neg fun h => hother h.1]
    rcases hb' : ws.block? other with _ | b'
    · rfl
    · have hid' : b'.id ≠ id := by rwa [block?_id hb']
      simp [hid']

/-- Storing a value touches no edge. -/
theorem edges_storeInput (ws : Workspace) (id : String) (key value : Value) :
    (storeInput id key value ws).2.edges = ws.edges := by
  simp only [storeInput, Edit.update]
  split
  · rename_i ws₁ hok
    split at hok
    · cases hok
      rfl
    · rename_i b hb
      rcases hwith : withInput b key value with fault | b' <;> rw [hwith] at hok <;> cases hok
      rfl
  · rfl

/-- A value that is not stored leaves all blocks as they were. -/
theorem storeInput_cases (ws : Workspace) (id : String) (key value : Value) :
    (storeInput id key value ws).2 = ws ∨
      ∃ b entries, ws.block? id = some b ∧ b.inputs = .dict entries ∧ key.isKey = true := by
  rcases hb : ws.block? id with _ | b
  · simp [storeInput, Edit.update, hb]
  · by_cases hinputs : b.HasInputs
    · obtain ⟨entries, hentries⟩ := hinputs
      by_cases hkey : key.isKey = true
      · exact .inr ⟨b, entries, rfl, hentries, hkey⟩
      · refine .inl ?_
        simp [storeInput, Edit.update, hb, withInput, hentries, hkey, Except.map]
    · exact .inl (congrArg Prod.snd (storeInput_of_lacksInputs ⟨b, hb, hinputs⟩ key value))

/-! ## Exclusive workspaces -/

/-- A socket with a reporter plugged in holds the empty text. -/
def Exclusive (ws : Workspace) : Prop :=
  ∀ e ∈ ws.edges, e.kind = .input → ws.stored? e.source e.socket = some (.str "")

/-- Without edges nothing is plugged in. -/
theorem exclusive_empty : Exclusive {} := fun _ he => absurd he List.not_mem_nil

/-- Only the edges to sockets count, and what these hold. -/
theorem Exclusive.of_edges (h : Exclusive ws)
    (hedges : ∀ e ∈ ws'.edges, e.kind = .input → e ∈ ws.edges)
    (hstored : ∀ e ∈ ws'.edges, e.kind = .input →
      ws.stored? e.source e.socket = some (.str "") →
      ws'.stored? e.source e.socket = some (.str "")) : Exclusive ws' :=
  fun e he hkind => hstored e he hkind (h e (hedges e he hkind) hkind)

/-- An edge that is not to a socket may take the place of others. -/
theorem Exclusive.replace (h : Exclusive ws) {rivals : Edge → Bool} {e : Edge}
    (he : e.kind ≠ .input) : Exclusive (ws.replaceEdges rivals e) := by
  refine h.of_edges (fun e' he' hkind => ?_) fun _ _ _ hstored => hstored
  rcases List.mem_append.1 he' with he' | he'
  · exact (List.mem_filter.1 he').1
  · rw [List.mem_singleton.1 he'] at hkind
    exact absurd hkind he

/-- Deleting a block unplugs it everywhere, and takes no literal away from the others. -/
theorem Exclusive.lacking (h : Exclusive ws) (id : String) : Exclusive (ws.lacking id) := by
  refine h.of_edges (fun e he _ => (List.mem_filter.1 he).1) fun e he _ hstored => ?_
  have haway : e.source ≠ id := by
    intro hsource
    rw [edges_lacking, List.mem_filter, Edge.touches, hsource] at he
    simp at he
  rw [stored?_lacking haway]
  exact hstored

/-- **Deleting a block keeps a workspace exclusive.** -/
theorem Exclusive.delete (h : Exclusive ws) (id : String) : Exclusive (ws.deleteBlock id).2 := by
  rcases deleteBlock_cases ws id with hsame | hgone | ⟨above, below, -, -, hjoined⟩
  · rw [hsame]
    exact h
  · rw [hgone]
    exact h.lacking id
  · rw [hjoined]
    exact (h.lacking id).replace (by rintro ⟨⟩)

/-- **Mild changes keep a workspace exclusive.** -/
theorem Exclusive.mild (h : Exclusive ws) (hchange : Mild ws ws') : Exclusive ws' := by
  cases hchange with
  | keep hblocks hedges _ =>
    refine h.of_edges (fun e he _ => hedges ▸ he) fun e _ _ hstored => ?_
    rwa [stored?_congr hblocks]
  | alter hid hinputs _ =>
    refine h.of_edges (fun e he _ => he) fun e _ _ hstored => ?_
    rwa [stored?_modifyBlock hid hinputs]
  | add _ => exact h.of_edges (fun e he _ => he) fun e _ _ hstored => stored?_append hstored
  | remove p =>
    exact h.of_edges (fun e he _ => (List.mem_filter.1 he).1) fun _ _ _ hstored => hstored
  | stack _ => exact h.replace (by rintro ⟨⟩)
  | branch _ _ => exact h.replace (by rintro ⟨⟩)
  | delete id => exact h.delete id

/-! ## What is done at sockets -/

/-- The empty text may be stored anywhere, and other values where nothing is plugged in. -/
theorem Exclusive.storeInput (h : Exclusive ws) {key value : Value}
    (hfree : value = .str "" ∨
      ∀ e ∈ ws.edges, e.kind = .input → e.source = id → key ≠ socketKey e.socket) :
    Exclusive (storeInput id key value ws).2 := by
  rcases storeInput_cases ws id key value with hsame | ⟨b, entries, hb, hentries, hkey⟩
  · rw [hsame]
    exact h
  intro e he hkind
  rw [edges_storeInput] at he
  rw [stored?_storeInput hb hentries hkey]
  split
  · rename_i hhere
    rcases hfree with hempty | hfree
    · rw [hempty]
    · exact absurd (sameKey_socketKey.1 hhere.2) (hfree e he hkind hhere.1)
  · exact h e he hkind

/-- **Storing a value keeps a workspace exclusive**, as it unplugs what is there. -/
theorem Exclusive.setInput (h : Exclusive ws) (id : String) (key value : Value) :
    Exclusive (setInput id key value ws).2 := by
  have hunplugged : Exclusive (ws.unplug id key) :=
    h.of_edges (fun e he _ => (List.mem_filter.1 he).1) fun _ _ _ hstored => hstored
  refine hunplugged.storeInput (.inr fun e he hkind hsource hkey => ?_)
  have hkept := (List.mem_filter.1 he).2
  have hgone : (socketKey e.socket).sameKey key = true := by
    rw [socketKey_sameKey]
    exact sameKey_socketKey.2 hkey
  simp [hgone, hkind, hsource] at hkept

/-- **Plugging in keeps a workspace exclusive exactly if the socket can be emptied.** -/
theorem exclusive_connectInput_iff (h : Exclusive ws) (parent : String) (socket : Option String)
    (child : String) : Exclusive (connectInput parent socket child ws).2 ↔
      ¬ (ws.LacksInputs parent ∧ ws.canConnect parent child = true) := by
  by_cases hcan : ws.canConnect parent child = true
  · by_cases hlacks : ws.LacksInputs parent
    · rw [connectInput_of_lacksInputs hlacks hcan]
      refine iff_of_false (fun hexclusive => ?_) fun hnot => hnot ⟨hlacks, hcan⟩
      -- the new edge is there, and nothing can be stored at its socket
      have hnew : Edge.toInput parent socket child ∈ (ws.plug parent socket child).edges :=
        List.mem_append_right _ (List.mem_singleton_self _)
      have hstored := hexclusive _ hnew rfl
      obtain ⟨b, hb, hinputs⟩ := hlacks
      change (ws.block? parent).bind _ = _ at hstored
      rw [hb, Option.bind_some, Block.stored?_eq_none hinputs] at hstored
      cases hstored
    · refine iff_of_true ?_ fun hboth => hlacks hboth.1
      obtain ⟨b, hb⟩ := Option.isSome_iff_exists.1 (show (ws.block? parent).isSome = true from
        List.find?_isSome.2 (List.any_eq_true.1 (canConnect_iff.1 hcan).1))
      obtain ⟨entries, hentries⟩ := eq_dict_of_hasInputs hlacks hb
      have hkey : (socketKey socket).isKey = true := by cases socket <;> rfl
      have hplugged : (ws.plug parent socket child).block? parent = some b := hb
      have hstored := storeInput_apply hplugged hentries hkey (.str "")
      have hdone : (connectInput parent socket child ws).2 =
          (Workspace.storeInput parent (socketKey socket) (.str "")
            (ws.plug parent socket child)).2 := by
        rw [connectInput, if_pos hcan, hstored]
        exact congrArg Prod.snd (Edit.bind_ok hstored)
      rw [hdone]
      intro e he hkind
      rw [edges_storeInput] at he
      rw [stored?_storeInput hplugged hentries hkey]
      split
      · rfl
      · rename_i helsewhere
        rcases List.mem_append.1 he with he | he
        · exact h e (List.mem_filter.1 he).1 hkind
        · rw [List.mem_singleton.1 he] at helsewhere
          exact absurd ⟨rfl, sameKey_socketKey.2 rfl⟩ helsewhere
  · rw [connectInput, if_neg hcan]
    exact iff_of_true h fun hboth => hcan hboth.2

/-! ## Drawn graphs -/

/-- Drawing an edge that is accepted keeps this: what was typed in at its socket is cleared. -/
theorem Exclusive.connectEdge_ok (h : Exclusive ws) {e : Edge} {answer : Bool}
    (hok : connectEdge e ws = (.ok answer, ws')) : Exclusive ws' := by
  obtain rfl : (connectEdge e ws).2 = ws' := congrArg Prod.snd hok
  rcases hkind : e.kind
  all_goals simp only [connectEdge, hkind] at hok ⊢
  · exact kept_of_changes Exclusive.mild h (mild_connectStack _ _)
  · simp only [Edge.slot, hkind]
    exact kept_of_changes Exclusive.mild h (mild_connectBranch (branchKey_ne_empty _))
  · refine (exclusive_connectInput_iff h _ _ _).2 fun hboth => ?_
    rw [connectInput_of_lacksInputs hboth.1 hboth.2] at hok
    cases hok

/-- **A workspace drawn from a graph is exclusive.** -/
theorem exclusive_of_ofGraph {g : ProgramGraph} (h : ofGraph g = .ok ws) : Exclusive ws := by
  simp only [ofGraph] at h
  split at h
  · rename_i hreplay
    cases h
    obtain ⟨⟨⟩, ws₁, hblocks, hedges⟩ := Edit.bind_eq_ok hreplay
    have hadded : Edit.Makes Mild (g.blocks.forM fun b => Edit.update fun ws => ws.addBlock b) {} :=
      .forM fun b _ => .update fun _ h => mild_addBlock h
    rw [Edit.Makes, hblocks] at hadded
    have hws₁ : Exclusive ws₁ := kept_of_changes Exclusive.mild exclusive_empty hadded
    clear hblocks hadded hreplay
    generalize g.edges = edges at hedges
    induction edges generalizing ws₁ with
    | nil =>
      cases hedges
      exact hws₁
    | cons e rest ih =>
      obtain ⟨⟨⟩, ws₂, hfirst, hrest⟩ := Edit.bind_eq_ok hedges
      obtain ⟨answer, ws₃, hdraw, hdone⟩ := Edit.bind_eq_ok hfirst
      cases hdone
      exact ih ws₂ (hws₁.connectEdge_ok hdraw) hrest
  · cases h

end Workspace

/-! ## What brings a value beside a reporter -/

/-- The requests that leave something else than the empty text where a reporter is plugged in. -/
inductive Request.Exposes (ws : Workspace) : Request → Prop
  /-- A block is updated whose sockets had been emptied for reporters. -/
  | updated {id : String} {updates : Dict} {b : Block} {e : Edge} :
    areUpdates (.dict updates) = .ok updates → ws.block? id = some b →
    e ∈ ws.edges → e.kind = .input → e.source = id →
    (b.assignAll (acceptedOf updates)).stored? e.socket ≠ some (.str "") →
    Exposes ws (.updateBlock (.str id) (.dict updates))
  /-- A reporter is plugged in at a block whose inputs are no dictionary. -/
  | plugged {r : Request} {parent child : String} {socket : Option String} :
    r.Plugs parent socket child → ws.LacksInputs parent → ws.canConnect parent child = true →
    Exposes ws r

namespace Workspace

variable {ws : Workspace}

/-- An update keeps a workspace exclusive unless it exposes a value. -/
theorem Exclusive.update (h : Exclusive ws) {id updates : Value}
    (hr : ¬ (Request.updateBlock id updates).Exposes ws) :
    Exclusive ((Request.updateBlock id updates).perform ws).2 := by
  rcases Request.update_cases id updates ws with
    ⟨fault, hrefused⟩ | ⟨name, entries, rfl, rfl, hentries, hname⟩
  · rw [hrefused]
    exact h
  · rw [Request.perform_updateBlock hentries hname]
    have hid (b : Block) : (b.assignAll (acceptedOf entries)).id = b.id := b.id_assignAll _
    intro e he hkind
    by_cases hsource : e.source = name
    · obtain ⟨b, hb, -⟩ := Option.bind_eq_some_iff.1 (h e he hkind)
      rw [hsource] at hb ⊢
      rw [stored?_modifyBlock_self hid hb]
      by_contra hstored
      exact hr (.updated hentries hb he hkind hsource hstored)
    · rw [stored?_modifyBlock_of_ne hid hsource]
      exact h e he hkind

/-- **Requests that neither update nor store nor plug in** keep a workspace exclusive. -/
theorem Exclusive.perform (h : Exclusive ws) {r : Request}
    (hupdate : ∀ id updates, r ≠ .updateBlock id updates)
    (hset : ∀ id socket value, r ≠ .setInput id socket value)
    (hplugs : ∀ parent socket child, ¬ r.Plugs parent socket child) :
    Exclusive (r.perform ws).2 := by
  by_cases hblank : ∃ parent child, r.blankBranch? = some (parent, child) ∧
      ws.canConnect parent child = true
  · obtain ⟨parent, child, hr, hcan⟩ := hblank
    obtain ⟨key, -, hdrawn⟩ := Request.perform_blankBranch hr hcan
    rw [hdrawn, connectBranch, if_pos hcan]
    exact h.replace (by rintro ⟨⟩)
  · refine kept_of_changes Exclusive.mild h
      (Request.makes_mild hupdate hset hplugs fun parent child hr => ?_)
    exact Bool.eq_false_iff.2 fun hcan => hblank ⟨parent, child, hr, hcan⟩

/-- A request to set an input comes down to setting it once its block is known. -/
theorem perform_setInput {name : String} (hname : ws.has name = true) (socket value : Value) :
    ((Request.setInput (.str name) socket value).perform ws).2 =
      (setInput name socket value ws).2 := by
  have hperform := Edit.bind_ok (f := fun name => do setInput name socket value; return Value.null)
    (Request.known_apply hname)
  exact (congrArg Prod.snd hperform).trans (Edit.bind_pure_snd _ (fun _ => Value.null) ws)

/-- **A request keeps a workspace exclusive exactly if it does not expose a value.** -/
theorem exclusive_perform_iff (h : Exclusive ws) (r : Request) :
    Exclusive (r.perform ws).2 ↔ ¬ r.Exposes ws := by
  constructor
  · rintro hexclusive (⟨hentries, hb, he, hkind, rfl, hstored⟩ | ⟨hplugs, hlacks, hcan⟩)
    · rw [Request.perform_updateBlock hentries (has_of_block? hb)] at hexclusive
      refine hstored ?_
      rw [← stored?_modifyBlock_self (fun b => b.id_assignAll _) hb]
      exact hexclusive _ he hkind
    · rw [Request.perform_plugs hplugs] at hexclusive
      exact (exclusive_connectInput_iff h _ _ _).1 hexclusive ⟨hlacks, hcan⟩
  · intro hr
    by_cases hplugs : ∃ parent socket child, r.Plugs parent socket child
    · obtain ⟨parent, socket, child, hplugs⟩ := hplugs
      rw [Request.perform_plugs hplugs]
      exact (exclusive_connectInput_iff h _ _ _).2 fun hboth => hr (.plugged hplugs hboth.1 hboth.2)
    have hno (parent : String) (socket : Option String) (child : String) :
        ¬ r.Plugs parent socket child := fun hp => hplugs ⟨parent, socket, child, hp⟩
    cases r with
    | updateBlock id updates => exact h.update hr
    | setInput id socket value =>
      rcases Request.known_cases id ws with ⟨name, rfl, hname, -⟩ | ⟨fault, hunknown⟩
      · rw [perform_setInput hname]
        exact h.setInput name socket value
      · rw [show (Request.setInput id socket value).perform ws = (.error fault, ws) from
          Edit.bind_error hunknown]
        exact h
    | _ => exact h.perform (by rintro _ _ ⟨⟩) (by rintro _ _ _ ⟨⟩) hno

/-- **As long as no request exposes a literal at a plugged socket, none is there.** -/
theorem ReachableBy.exclusive (h : ReachableBy (fun ws r => ¬ r.Exposes ws) ws) :
    Exclusive ws := by
  induction h with
  | drawn issued hdrawn =>
    have hws := exclusive_of_ofGraph hdrawn
    exact hws
  | @asked ws r _ hr ih => exact (exclusive_perform_iff ih r).2 hr

/-- **A stored value and a plugged-in reporter exclude each other** as long as no update puts
another value where a reporter is plugged in, and none is plugged in where the inputs are no
dictionary. Then the socket holds the empty text, also when the reporter is deleted or
disconnected, and the next request leaves a value beside a reporter exactly if it is such a one. -/
theorem exclusive_of_reachableBy (h : ReachableBy (fun ws r => ¬ r.Exposes ws) ws) :
    (∀ e ∈ ws.edges, e.kind = .input →
      ws.stored? e.source e.socket = some (.str "") ∧
      ((Request.deleteBlock (.str e.target)).perform ws).2.stored? e.source e.socket =
        some (.str "") ∧
      ((Request.disconnectAll (.str e.target)).perform ws).2.stored? e.source e.socket =
        some (.str "")) ∧
      ∀ r : Request, (∀ e ∈ (r.perform ws).2.edges, e.kind = .input →
        (r.perform ws).2.stored? e.source e.socket = some (.str "")) ↔ ¬ r.Exposes ws := by
  have hexclusive := h.exclusive
  refine ⟨fun e he hkind => ?_, exclusive_perform_iff hexclusive⟩
  have hstored := hexclusive e he hkind
  refine ⟨hstored, ?_, hstored⟩
  have hne : e.source ≠ e.target := by
    intro hends
    exact h.wellFormed.acyclic e.source (.single ⟨e, he, rfl, hends.symm⟩)
  have hdeleted : ((Request.deleteBlock (.str e.target)).perform ws).2 =
      (ws.deleteBlock e.target).2 := rfl
  rw [hdeleted, stored?_deleteBlock hne]
  exact hstored

/-- An update of the text beside the variable that is plugged in there. -/
def overwrite : Request :=
  .updateBlock (.str "a") (.dict [(.str "inputs", .dict [(.str "text", .str "hello")])])

/-- The text is empty where the variable is plugged in, until it is overwritten. -/
theorem exclusive_speaker : Request.speaker.stored? "a" (some "text") = some (.str "") ∧
    ¬ Exclusive (overwrite.perform Request.speaker).2 := by
  obtain ⟨hstored, hiff⟩ := exclusive_of_reachableBy (.drawn 0 Request.ofGraph_speaker)
  refine ⟨(hstored (.toInput "a" (some "text") "v") (List.mem_singleton_self _) rfl).1, ?_⟩
  intro hexclusive
  refine (hiff overwrite).1 hexclusive (.updated rfl rfl (List.mem_singleton_self _) rfl rfl ?_)
  intro hempty
  injection hempty with hempty
  injection hempty with hempty
  exact absurd hempty (by decide)

/-- **A value beside a reporter**, which comes back when the reporter is deleted. -/
theorem stored?_overwritten : ∃ ws, Reachable ws ∧
    ws.edges = [.toInput "a" (some "text") "v"] ∧
    ws.stored? "a" (some "text") = some (.str "hello") ∧
    ((Request.deleteBlock (.str "v")).perform ws).2.edges = [] ∧
    ((Request.deleteBlock (.str "v")).perform ws).2.stored? "a" (some "text") =
      some (.str "hello") :=
  ⟨_, .asked (r := overwrite) (.drawn 0 Request.ofGraph_speaker) trivial, rfl, rfl, rfl, rfl⟩

end Workspace

end BlockProgram
