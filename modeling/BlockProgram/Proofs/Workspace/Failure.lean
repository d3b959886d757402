import BlockProgram.Proofs.Workspace.Redraw

/-!
# Requests that fail

A request that fails leaves the workspace as it was, with three exceptions (`Request.Leaves`). They
are made in stages, of which an earlier one is not taken back when a later one fails:

* fields are set one after the other, up to the first name that is refused;
* a reporter is unplugged before the value that takes its place is stored;
* an edge to a socket is drawn before the socket is emptied.

The last two fail only at a block whose inputs are no dictionary, which nothing but an update makes
of them. So where all inputs are dictionaries only updates of several fields can fail halfway
(`Request.Leaves.eq_of_hasInputs`).
-/

namespace BlockProgram

/-! ## Edits that fail -/

namespace Edit

variable {α β : Type} {P : Fault → Workspace → Prop} {ws : Workspace}

/-- What holds of the fault of an edit and of the workspace that it leaves, if it fails. -/
def Fails (P : Fault → Workspace → Prop) (x : Edit α) (ws : Workspace) : Prop :=
  ∀ fault ws', x ws = (.error fault, ws') → P fault ws'

theorem Fails.pure (a : α) : Fails P (pure a) ws := nofun

theorem Fails.change (f : Workspace → α × Workspace) : Fails P (Edit.change f) ws := nofun

theorem Fails.modify (f : Workspace → Workspace) : Fails P (modify f : Edit PUnit) ws := nofun

theorem Fails.lift {result : Except Fault α} (h : ∀ fault, P fault ws) :
    Fails P (Edit.lift result) ws := by
  intro fault ws' hfault
  cases hfault
  exact h fault

/-- An update that fails has changed nothing. -/
theorem Fails.update {f : Workspace → Except Fault Workspace}
    (h : ∀ fault, f ws = .error fault → P fault ws) : Fails P (Edit.update f) ws := by
  intro fault ws' hfault
  simp only [Edit.update] at hfault
  rcases hf : f ws with fault' | ws₁ <;> rw [hf] at hfault
  · cases hfault
    exact h fault hf
  · cases hfault

/-- Of two edits in a row the first fails, or the second after the first has made its changes. -/
theorem Fails.bind {x : Edit α} {f : α → Edit β} (hx : Fails P x ws)
    (hf : ∀ a ws', x ws = (.ok a, ws') → Fails P (f a) ws') : Fails P (x >>= f) ws := by
  intro fault ws' hfault
  rw [bind_apply] at hfault
  rcases h : x ws with ⟨fault' | a, ws₁⟩ <;> rw [h] at hfault
  · cases hfault
    exact hx fault ws' h
  · exact hf a ws₁ h fault ws' hfault

theorem bind_error {x : Edit α} {f : α → Edit β} {fault : Fault} {ws' : Workspace}
    (h : x ws = (.error fault, ws')) : (x >>= f) ws = (.error fault, ws') := by
  rw [bind_apply, h]

/-- What follows cannot fail. -/
theorem Fails.andThen {x : Edit α} {f : α → Edit β} (hx : Fails P x ws)
    (hf : ∀ a ws', Fails P (f a) ws') : Fails P (x >>= f) ws :=
  hx.bind fun a ws' _ => hf a ws'

/-- A check fails before anything is changed, and what follows it may rely on its answer. -/
theorem Fails.check {result : Except Fault α} {f : α → Edit β} (h : ∀ fault, P fault ws)
    (hf : ∀ a, result = .ok a → Fails P (f a) ws) : Fails P (Edit.lift result >>= f) ws := by
  refine (Fails.lift h).bind fun a ws' hok => ?_
  cases hok
  exact hf a rfl

theorem Fails.read {f : Workspace → Edit β} (hf : Fails P (f ws) ws) : Fails P (get >>= f) ws := hf

/-- Less may be said of how an edit fails. -/
theorem Fails.mono {Q : Fault → Workspace → Prop} {x : Edit α} (h : Fails P x ws)
    (hPQ : ∀ fault ws', P fault ws' → Q fault ws') : Fails Q x ws :=
  fun fault ws' hfault => hPQ fault ws' (h fault ws' hfault)

end Edit

/-! ## Fields that are set -/

/-- What is wrong with a name under which a field is to be set. -/
def BlockField.refusal? (name : String) : Option Fault :=
  if name == "id" then some .immutableId
  else if (named? name).isSome || name.startsWith "_" then none
  else some (.noSuchField name)

/-- A block with the field of a name set, if there is one. -/
def Block.assign (b : Block) (name : String) (value : Value) : Block :=
  match BlockField.named? name with
  | some field => b.set field value
  | none => b

/-- A block with fields set one after the other. -/
def Block.assignAll (b : Block) (updates : Dict) : Block :=
  updates.foldl (fun b update => b.assign update.1.plain update.2) b

/-- Updates up to the first one that is refused. -/
def acceptedOf (updates : Dict) : Dict :=
  updates.takeWhile fun update => (BlockField.refusal? update.1.plain).isNone

/-- Why the first one is refused of the updates that are. -/
def refusalOf? (updates : Dict) : Option Fault :=
  updates.findSome? fun update => BlockField.refusal? update.1.plain

theorem Block.id_assign (b : Block) (name : String) (value : Value) :
    (b.assign name value).id = b.id := by
  simp only [assign]
  split
  · exact Workspace.id_set b _ value
  · rfl

/-- No updates change the id of a block: ids cannot be assigned. -/
theorem Block.id_assignAll (b : Block) (updates : Dict) : (b.assignAll updates).id = b.id := by
  induction updates generalizing b with
  | nil => rfl
  | cons update rest ih => exact (ih _).trans (b.id_assign _ _)

namespace Workspace

variable {ws : Workspace} {id : String}

theorem modifyBlock_id (ws : Workspace) (id : String) : (ws.modifyBlock id fun b => b) = ws := by
  have hblocks : ws.blocks.map (fun b => if b.id == id then b else b) = ws.blocks := by
    simp only [ite_self, List.map_id']
  rw [modifyBlock, hblocks]

/-- Two changes of a block are one change, if the first keeps its id. -/
theorem modifyBlock_modifyBlock {f : Block → Block} (hf : ∀ b, (f b).id = b.id)
    (g : Block → Block) :
    (ws.modifyBlock id f).modifyBlock id g = ws.modifyBlock id fun b => g (f b) := by
  simp only [modifyBlock, List.map_map]
  congr 1
  refine List.map_congr_left fun b _ => ?_
  simp only [Function.comp]
  by_cases hid : b.id = id
  · simp [hid, hf]
  · simp [hid]

/-- **A field is set unless its name is refused.** -/
theorem assign_eq (name : String) (value : Value) :
    ws.assign id name value = match BlockField.refusal? name with
      | some fault => .error fault
      | none => .ok (ws.modifyBlock id (·.assign name value)) := by
  simp only [assign, BlockField.refusal?, Block.assign]
  by_cases hname : name = "id"
  · simp [hname]
  · rcases BlockField.named? name with _ | field
    · by_cases hprivate : name.startsWith "_" = true
      · simp [hname, hprivate, modifyBlock_id]
      · simp [hname, hprivate]
    · simp [hname]

/-- **Fields are set up to the first one that is refused**, and none after it. -/
theorem assignAll_eq (ws : Workspace) (id : String) (updates : Dict) :
    Request.assignAll id updates ws =
      ((refusalOf? updates).elim (.ok ()) .error,
        ws.modifyBlock id (·.assignAll (acceptedOf updates))) := by
  induction updates generalizing ws with
  | nil => exact congrArg (Prod.mk _) (modifyBlock_id ws id).symm
  | cons update rest ih =>
    obtain ⟨name, value⟩ := update
    have hcons : Request.assignAll id ((name, value) :: rest) ws =
        (Edit.update (fun ws => ws.assign id name.plain value) >>= fun _ =>
          Request.assignAll id rest) ws := rfl
    rw [hcons]
    rcases hrefusal : BlockField.refusal? name.plain with _ | fault
    · have hfirst : Edit.update (fun ws => ws.assign id name.plain value) ws =
          (.ok (), ws.modifyBlock id (·.assign name.plain value)) := by
        simp only [Edit.update, assign_eq, hrefusal]
      rw [Edit.bind_ok hfirst, ih, modifyBlock_modifyBlock fun b => b.id_assign _ _]
      simp [refusalOf?, acceptedOf, hrefusal, Block.assignAll]
    · have hfirst : Edit.update (fun ws => ws.assign id name.plain value) ws =
          (.error fault, ws) := by
        simp only [Edit.update, assign_eq, hrefusal]
      rw [Edit.bind_error hfirst]
      simp [refusalOf?, acceptedOf, hrefusal, Block.assignAll, modifyBlock_id]

/-! ## Values that are stored -/

/-- What compares equal to a key can be a key itself. -/
theorem isKey_of_sameKey {a b : Value} (h : a.sameKey b = true) : b.isKey = true := by
  cases b with
  | list => cases a <;> simp [Value.sameKey, Value.number?] at h
  | dict => cases a <;> simp [Value.sameKey, Value.number?] at h
  | _ => rfl

/-- The inputs of a block are known not to be a dictionary. -/
def LacksInputs (ws : Workspace) (id : String) : Prop :=
  ∃ b, ws.block? id = some b ∧ ¬ b.HasInputs

/-- Typing something in fails only where the block has no inputs or the socket can be no key, and
then nothing is changed. -/
theorem fails_storeInput (ws : Workspace) (id : String) (socket value : Value) :
    Edit.Fails (fun fault ws' => ws' = ws ∧ fault = .wrongType ∧
      (ws.LacksInputs id ∨ socket.isKey = false)) (storeInput id socket value) ws := by
  refine .update fun fault h => ?_
  rcases hb : ws.block? id with _ | b
  · simp only [hb] at h
    cases h
  · simp only [hb, withInput] at h
    split at h
    · split at h
      · cases h
      · rename_i hkey
        cases h
        exact ⟨rfl, rfl, .inr (by simpa using hkey)⟩
    · rename_i hinputs
      cases h
      refine ⟨rfl, rfl, .inl ⟨b, hb, ?_⟩⟩
      rintro ⟨entries, hentries⟩
      exact hinputs entries hentries

/-- A block without inputs is a known one. -/
theorem has_of_lacksInputs (h : ws.LacksInputs id) : ws.has id = true := by
  obtain ⟨b, hb, -⟩ := h
  refine List.any_eq_true.2 ⟨b, List.mem_of_find?_eq_some hb, ?_⟩
  simpa using block?_id hb

/-- Conversely, it does fail on a block without inputs. -/
theorem storeInput_of_lacksInputs (h : ws.LacksInputs id) (socket value : Value) :
    storeInput id socket value ws = (.error .wrongType, ws) := by
  obtain ⟨b, hb, hlacks⟩ := h
  have hwith : withInput b socket value = .error .wrongType := by
    simp only [withInput]
    split
    · rename_i entries hentries
      exact absurd ⟨entries, hentries⟩ hlacks
    · rfl
  simp only [storeInput, Edit.update, hb, hwith]
  rfl

/-- The workspace without what is plugged in at a socket. -/
def unplug (ws : Workspace) (id : String) (socket : Value) : Workspace :=
  ws.removeEdges fun e => e.kind == .input && e.source == id && (socketKey e.socket).sameKey socket

/-- At what can be no socket nothing is plugged in. -/
theorem unplug_of_not_isKey {socket : Value} (h : socket.isKey = false) :
    ws.unplug id socket = ws := by
  have hkept : ws.edges.filter (fun e => !(e.kind == .input && e.source == id &&
      (socketKey e.socket).sameKey socket)) = ws.edges := by
    refine List.filter_eq_self.2 fun e _ => ?_
    have hother : (socketKey e.socket).sameKey socket = false := by
      refine Bool.eq_false_iff.2 fun hsame => ?_
      rw [isKey_of_sameKey hsame] at h
      cases h
    simp [hother]
  rw [unplug, removeEdges, hkept]

/-- Setting an input first unplugs the reporter there. So where it then fails the edge is gone, and
the inputs are as they were. -/
theorem fails_setInput (id : String) (socket value : Value) :
    Edit.Fails (fun fault ws' => ws' = ws ∨
      fault = .wrongType ∧ ws.LacksInputs id ∧ ws' = ws.unplug id socket)
      (setInput id socket value) ws := by
  intro fault ws' hfault
  obtain ⟨hws', hwrong, hinputs | hkey⟩ :=
    fails_storeInput (ws.unplug id socket) id socket value fault ws' hfault
  · exact .inr ⟨hwrong, hinputs, hws'⟩
  · exact .inl (hws'.trans (unplug_of_not_isKey hkey))

/-- Conversely, it does fail so on a block without inputs. -/
theorem setInput_of_lacksInputs (h : ws.LacksInputs id) (socket value : Value) :
    setInput id socket value ws = (.error .wrongType, ws.unplug id socket) := by
  have hlacks : (ws.unplug id socket).LacksInputs id := h
  exact storeInput_of_lacksInputs hlacks socket value

/-- The workspace with an edge to a socket in place of another. -/
def plug (ws : Workspace) (parent : String) (socket : Option String) (child : String) : Workspace :=
  ws.replaceEdges (fillsSocket parent socket) (.toInput parent socket child)

theorem fails_connectInput (parent : String) (socket : Option String) (child : String) :
    Edit.Fails (fun fault ws' => fault = .wrongType ∧ ws.LacksInputs parent ∧
      ws.canConnect parent child = true ∧ ws' = ws.plug parent socket child)
      (connectInput parent socket child) ws := by
  intro fault ws' hfault
  simp only [connectInput] at hfault
  split at hfault
  · rename_i hcan
    have hstore := (fails_storeInput (ws.plug parent socket child) parent
      (socketKey socket) (.str "")).andThen (f := fun _ => pure true) (fun _ _ => .pure true)
    obtain ⟨hws', hwrong, hinputs | hkey⟩ := hstore fault ws' hfault
    · exact ⟨hwrong, hinputs, hcan, hws'⟩
    · cases socket <;> cases hkey
  · cases hfault

/-- Conversely, it does fail so on a block without inputs, if the edge may be drawn. -/
theorem connectInput_of_lacksInputs {parent child : String} (h : ws.LacksInputs parent)
    (hcan : ws.canConnect parent child = true) (socket : Option String) :
    connectInput parent socket child ws = (.error .wrongType, ws.plug parent socket child) := by
  have hlacks : (ws.plug parent socket child).LacksInputs parent := h
  rw [connectInput, if_pos hcan]
  exact Edit.bind_error (storeInput_of_lacksInputs hlacks (socketKey socket) (.str ""))

end Workspace

namespace Request

open Edit Workspace

variable {ws : Workspace} {P : Fault → Workspace → Prop}

/-- **The ways in which requests fail halfway**, and what they leave of a workspace. -/
inductive Halfway (ws : Workspace) : Fault → Request → Workspace → Prop
  /-- Those fields are set that come before the first one refused. -/
  | updated {id : String} {updates : Dict} {fault : Fault} :
    areUpdates (.dict updates) = .ok updates → ws.has id = true →
    refusalOf? updates = some fault → Halfway ws fault (.updateBlock (.str id) (.dict updates))
      (ws.modifyBlock id (·.assignAll (acceptedOf updates)))
  /-- A reporter is unplugged, but the value that takes its place cannot be stored. -/
  | unplugged {id : String} (socket value : Value) : ws.LacksInputs id →
    Halfway ws .wrongType (.setInput (.str id) socket value) (ws.unplug id socket)
  /-- A reporter is plugged in, but the socket cannot be emptied. -/
  | plugged {r : Request} {parent child : String} {socket : Option String} :
    r.Plugs parent socket child → ws.LacksInputs parent → ws.canConnect parent child = true →
    Halfway ws .wrongType r (ws.plug parent socket child)

/-- What a request that fails leaves of a workspace. -/
def Leaves (ws : Workspace) (fault : Fault) (r : Request) (ws' : Workspace) : Prop :=
  ws' = ws ∨ Halfway ws fault r ws'

/-- The requests that add, change or delete enders. -/
def ofEnders : Request → Bool
  | .ensureIfEnder _ | .ensureRepeatEnder _ | .syncEnders => true
  | _ => false

theorem known_apply {id : String} (h : ws.has id = true) :
    known (.str id) ws = (.ok id, ws) := by
  rw [known, if_pos h]

/-- An id is that of a known block, or looking it up fails and changes nothing. -/
theorem known_cases (id : Value) (ws : Workspace) :
    (∃ name, id = .str name ∧ ws.has name = true ∧ known id ws = (.ok name, ws)) ∨
      ∃ fault, known id ws = (.error fault, ws) := by
  simp only [known]
  split
  · split
    · rename_i name hname
      exact .inl ⟨name, rfl, hname, rfl⟩
    · exact .inr ⟨_, rfl⟩
  · exact .inr (by split <;> exact ⟨_, rfl⟩)

/-- What follows may rely on the block being there. -/
theorem fails_known {β : Type} {id : Value} {f : String → Edit β} (h : ∀ fault, P fault ws)
    (hf : ∀ name, id = .str name → ws.has name = true → Fails P (f name) ws) :
    Fails P (known id >>= f) ws := by
  intro fault ws' hfault
  rcases known_cases id ws with ⟨name, hid, hname, hok⟩ | ⟨_, herror⟩
  · rw [bind_ok hok] at hfault
    exact hf name hid hname fault ws' hfault
  · rw [bind_error herror] at hfault
    cases hfault
    exact h _

/-- What is done between two blocks may rely on their ids being texts. -/
theorem fails_between {a b : Value} {connect : String → String → Edit Bool}
    (h : ∀ fault, P fault ws)
    (hf : ∀ a' b', a = .str a' → b = .str b' → Fails P (connect a' b') ws) :
    Fails P (between a b connect) ws := by
  refine .check h fun a' ha => .check h fun b' hb => ?_
  have ha := map_needKey ha
  have hb := map_needKey hb
  split
  · exact (hf _ _ (eq_str_of_str? ha) (eq_str_of_str? hb)).andThen fun _ _ => .pure _
  · exact .pure _

/-- What is done with a slot may rely on its being nothing or a text. -/
theorem fails_withSlot {field : String} {slot : Value} {source target : String}
    {connect : Option String → Edit Bool} (h : ∀ fault, P fault ws)
    (hf : ∀ name, (slot = .null ∧ name = none ∨ ∃ s, slot = .str s ∧ name = some s) →
      Fails P (connect name) ws) :
    Fails P (withSlot field slot source target connect) ws := by
  refine .read ?_
  split
  · exact .check h fun name hname => hf name (eq_of_slotName hname)
  · exact .pure _

theorem fails_connectInput {r : Request} {parent child : String} {socket : Option String}
    (h : r.Plugs parent socket child) :
    Fails (fun fault ws' => Leaves ws fault r ws') (Workspace.connectInput parent socket child)
      ws := by
  intro fault ws' hfault
  obtain ⟨rfl, hlacks, hcan, rfl⟩ :=
    Workspace.fails_connectInput parent socket child fault ws' hfault
  exact .inr (.plugged h hlacks hcan)

/-- So does plugging in by the name of a socket. -/
theorem fails_connectSocket (source : String) (socket : Value) (target : String) :
    Fails (fun fault ws' => Leaves ws fault (.connectSocket (.str source) socket (.str target)) ws')
      (Workspace.connectSocket source (socketText socket) target) ws := by
  simp only [Workspace.connectSocket]
  split
  · rename_i input hinput
    exact fails_connectInput (.atSocket source target hinput)
  · split
    · exact .change _
    · exact .change _

/-- Updates are accepted only as a dictionary. -/
theorem eq_dict_of_areUpdates {updates : Value} {entries : Dict}
    (h : areUpdates updates = .ok entries) : updates = .dict entries := by
  simp only [areUpdates] at h
  split at h
  · split at h
    · cases h
      rfl
    · cases h
  · cases h

/-- **What an update does**: it sets fields up to the first one that is refused. -/
theorem perform_updateBlock {id : String} {updates : Dict}
    (hupdates : areUpdates (.dict updates) = .ok updates) (hid : ws.has id = true) :
    (Request.updateBlock (.str id) (.dict updates)).perform ws =
      ((refusalOf? updates).elim (.ok (.str id)) .error,
        ws.modifyBlock id (·.assignAll (acceptedOf updates))) := by
  have hassign : (assignAll id updates >>= fun _ => (pure (.str id) : Edit Value)) ws =
      ((refusalOf? updates).elim (.ok (.str id)) .error,
        ws.modifyBlock id (·.assignAll (acceptedOf updates))) := by
    rw [bind_apply, assignAll_eq]
    cases refusalOf? updates <;> rfl
  exact (bind_ok (lift_of_eq hupdates)).trans ((bind_ok (known_apply hid)).trans hassign)

/-- An update is refused at once, or it does what it does to a known block. -/
theorem update_cases (id updates : Value) (ws : Workspace) :
    (∃ fault, (Request.updateBlock id updates).perform ws = (.error fault, ws)) ∨
      ∃ name entries, id = .str name ∧ updates = .dict entries ∧
        areUpdates (.dict entries) = .ok entries ∧ ws.has name = true := by
  rcases hentries : areUpdates updates with fault | entries
  · exact .inl ⟨fault, bind_error (lift_of_eq hentries)⟩
  · obtain rfl := eq_dict_of_areUpdates hentries
    rcases known_cases id ws with ⟨name, rfl, hname, -⟩ | ⟨fault, hunknown⟩
    · exact .inr ⟨name, entries, rfl, rfl, hentries, hname⟩
    · exact .inl ⟨fault, (bind_ok (lift_of_eq hentries)).trans (bind_error hunknown)⟩

/-- Updates are made one after another. The first one that is refused stops them, and those before
it stay. -/
theorem fails_updateBlock (id updates : Value) :
    Fails (fun fault ws' => Leaves ws fault (.updateBlock id updates) ws')
      (Request.updateBlock id updates).perform ws := by
  intro fault ws' hfault
  rcases update_cases id updates ws with ⟨_, hrefused⟩ | ⟨name, entries, rfl, rfl, hentries, hname⟩
  · rw [hrefused] at hfault
    cases hfault
    exact .inl rfl
  · rw [perform_updateBlock hentries hname] at hfault
    obtain ⟨hrefusal, rfl⟩ := Prod.mk.inj hfault
    refine .inr (.updated hentries hname ?_)
    rcases hsome : refusalOf? entries with _ | refusal <;> rw [hsome] at hrefusal
    · cases hrefusal
    · cases hrefusal
      rfl

/-- **How a request fails** is said by the table of what it leaves, for every request but those
about enders. -/
theorem fails_perform {r : Request} (hr : r.ofEnders = false) :
    Fails (fun fault ws' => Leaves ws fault r ws') r.perform ws := by
  have hintact (fault : Fault) : Leaves ws fault r ws := .inl rfl
  cases r with
  | addBlock record =>
    refine .check hintact fun b _ => .andThen (.update ?_) fun _ _ => .pure _
    exact fun fault _ => hintact fault
  | getBlock id => exact fails_known hintact fun _ _ _ => .pure _
  | hasBlock id => exact .check hintact fun _ _ => .read (.pure _)
  | moveBlock id x y =>
    exact fails_known hintact fun name _ _ => Fails.andThen (.modify _) fun _ _ => .pure _
  | updateBlock id updates => exact fails_updateBlock id updates
  | deleteBlock id =>
    refine .check hintact fun name _ => ?_
    split
    · exact Fails.andThen (.change _) fun _ _ => .pure _
    · exact .pure _
  | disconnectAll id =>
    dsimp only [perform]
    split
    · exact Fails.andThen (.modify _) fun _ _ => .pure _
    · exact .pure _
  | setInput id socket value =>
    refine fails_known hintact fun name hid _ => .andThen ?_ fun _ _ => .pure _
    subst hid
    refine (fails_setInput name socket value).mono ?_
    rintro fault ws' (rfl | ⟨rfl, hlacks, rfl⟩)
    · exact .inl rfl
    · exact .inr (.unplugged socket value hlacks)
  | wouldCycle source target => exact .read (.lift hintact)
  | connectStack above below => exact fails_between hintact fun _ _ _ _ => .change _
  | connectBranch parent key child =>
    exact fails_between hintact fun _ _ _ _ => fails_withSlot hintact fun _ _ => .change _
  | connectInput parent socket child =>
    refine fails_between hintact fun a b ha hb => fails_withSlot hintact fun name hname => ?_
    subst ha hb
    rcases hname with ⟨rfl, rfl⟩ | ⟨s, rfl, rfl⟩
    · exact fails_connectInput (.unnamed a b)
    · exact fails_connectInput (.byName a s b)
  | connectSocket source socket target =>
    refine fails_between hintact fun a b ha hb => ?_
    subst ha hb
    exact fails_connectSocket a socket b
  | connectEdge record =>
    refine .check hintact fun e he => .andThen ?_ fun _ _ => .pure _
    simp only [Workspace.connectEdge]
    rcases hk : e.kind
    · exact .change _
    · exact .change _
    · exact fails_connectInput (.asRecord he hk)
  | successor id => exact .read (.pure _)
  | predecessor id => exact .read (.pure _)
  | branchHead id key =>
    refine .read ?_
    split <;> exact .pure _
  | inputSource id socket =>
    refine .read ?_
    split <;> exact .pure _
  | createVariable name initial =>
    exact .check hintact fun name _ => Fails.andThen (.change _) fun _ _ => .pure _
  | deleteVariable id =>
    dsimp only [perform]
    split
    · exact Fails.andThen (.modify _) fun _ _ => .pure _
    · exact .pure _
  | initialVars => exact .read (.pure _)
  | ensureIfEnder id => cases hr
  | ensureRepeatEnder id => cases hr
  | findEnder id => exact .read (.check hintact fun _ _ => .pure _)
  | syncEnders => cases hr
  | lastInStack id => exact .read (.lift hintact)
  | stackLength id => exact .read (.lift hintact)
  | save library indent =>
    exact .check hintact fun _ _ => .read (.check hintact fun _ _ => .pure _)

/-! ## What a failure cannot change -/

namespace Halfway

variable {fault : Fault} {r : Request} {ws' : Workspace}

/-- These requests do fail. -/
theorem perform_eq (h : Halfway ws fault r ws') : r.perform ws = (.error fault, ws') := by
  cases h with
  | updated hupdates hid hrefusal =>
    rw [perform_updateBlock hupdates hid, hrefusal]
    rfl
  | unplugged socket value hlacks =>
    have hid := has_of_lacksInputs hlacks
    exact (bind_ok (known_apply hid)).trans
      (bind_error (setInput_of_lacksInputs hlacks socket value))
  | @plugged _ parent child socket hplugs hlacks hcan =>
    have hconnect := connectInput_of_lacksInputs hlacks hcan socket
    cases hplugs with
    | byName _ name _ =>
      have hslot : slotName "port" (.str name) ws = (.ok (some name), ws) := rfl
      have hdrawn := (withSlot_apply (fun socket => Workspace.connectInput parent socket child)
        hslot hcan).trans hconnect
      exact (between_apply parent child _).trans (bind_error hdrawn)
    | unnamed =>
      have hslot : slotName "port" .null ws = (.ok none, ws) := rfl
      have hdrawn := (withSlot_apply (fun socket => Workspace.connectInput parent socket child)
        hslot hcan).trans hconnect
      exact (between_apply parent child _).trans (bind_error hdrawn)
    | @atSocket text input _ _ hinput =>
      have hdrawn : Workspace.connectSocket parent (socketText text) child ws =
          (.error .wrongType, ws.plug parent (some input) child) := by
        rw [Workspace.connectSocket, hinput]
        exact hconnect
      exact (between_apply parent child _).trans (bind_error hdrawn)
    | @asRecord record e hrecord hkind =>
      have hdrawn : Workspace.connectEdge e ws =
          (.error .wrongType, ws.plug e.source (some (e.socket.getD "")) e.target) := by
        rw [Workspace.connectEdge, hkind]
        exact hconnect
      exact (bind_ok (lift_of_eq hrecord)).trans (bind_error hdrawn)

/-- The variables stay, and the blocks with their ids. -/
theorem kept (h : Halfway ws fault r ws') :
    ws'.palette = ws.palette ∧ ws'.issued = ws.issued ∧
      ws'.blocks.map (·.id) = ws.blocks.map (·.id) := by
  cases h with
  | updated => exact ⟨rfl, rfl, ids_modifyBlock fun b hid => (b.id_assignAll _).trans hid⟩
  | unplugged => exact ⟨rfl, rfl, rfl⟩
  | plugged => exact ⟨rfl, rfl, rfl⟩

/-- With all inputs in order, only an update of several fields can fail halfway. -/
theorem eq_of_hasInputs (h : Halfway ws fault r ws') (hinputs : ∀ b ∈ ws.blocks, b.HasInputs)
    (hfew : ∀ id updates, r = .updateBlock id (.dict updates) → updates.length ≤ 1) :
    ws' = ws := by
  have hnot (id : String) : ¬ ws.LacksInputs id := by
    rintro ⟨b, hb, hlacks⟩
    exact hlacks (hinputs b (List.mem_of_find?_eq_some hb))
  cases h with
  | @updated id updates _ _ _ hrefusal =>
    have hnone : acceptedOf updates = [] := by
      rcases updates with _ | ⟨update, _ | ⟨_, rest⟩⟩
      · rfl
      · have hfirst : BlockField.refusal? update.1.plain = some fault := by
          simpa [refusalOf?] using hrefusal
        simp [acceptedOf, hfirst]
      · have htwo := hfew _ _ rfl
        simp at htwo
    rw [hnone]
    exact modifyBlock_id ws id
  | unplugged _ _ hlacks => exact absurd hlacks (hnot _)
  | plugged _ hlacks => exact absurd hlacks (hnot _)

end Halfway

/-- **A request that fails leaves the workspace as it was, or fails halfway** in one of the ways
described, in which it always fails. Variables, ids and, with all inputs in order, everything are as
before, but for updates of several fields. -/
theorem left_of_error {r : Request} (hr : r.ofEnders = false) (ws ws' : Workspace) (fault : Fault) :
    (r.perform ws = (.error fault, ws') →
      (ws' = ws ∨ Halfway ws fault r ws') ∧
      (ws'.palette = ws.palette ∧ ws'.issued = ws.issued ∧
        ws'.blocks.map (·.id) = ws.blocks.map (·.id)) ∧
      ((∀ b ∈ ws.blocks, b.HasInputs) →
        (∀ id updates, r = .updateBlock id (.dict updates) → updates.length ≤ 1) → ws' = ws)) ∧
      (Halfway ws fault r ws' → r.perform ws = (.error fault, ws')) := by
  refine ⟨fun h => ?_, Halfway.perform_eq⟩
  rcases fails_perform hr fault ws' h with rfl | hhalfway
  · exact ⟨.inl rfl, ⟨rfl, rfl, rfl⟩, fun _ _ => rfl⟩
  · exact ⟨.inr hhalfway, hhalfway.kept, hhalfway.eq_of_hasInputs⟩

/-- A block that speaks, and a variable plugged in at its text. -/
def speaker : Workspace where
  blocks := [
    { id := "a", type := .str "say", inputs := .dict [(.str "text", .str "")] },
    { id := "v", type := .str "variable" }]
  edges := [.toInput "a" (some "text") "v"]

/-- The workspace of the examples is one that a graph is replayed to. -/
theorem ofGraph_speaker : ofGraph speaker.snapshot = .ok speaker := by
  have hdrawable : Drawable { blocks := speaker.blocks } := by
    refine ⟨?_, ?_⟩
    · simp [Distinct, speaker]
    · simp [speaker, Block.HasInputs]
  have hcan : canConnect { blocks := speaker.blocks } "a" "v" = true := by decide +kernel
  refine (ofGraph_eq hdrawable).trans (congrArg Except.ok ?_)
  exact if_pos hcan

/-- An update of the place and, against the rules, of the id. -/
def moveAndRename : Request :=
  .updateBlock (.str "a") (.dict [(.str "x", .int 5), (.str "id", .str "b")])

/-- The block has moved when it is renamed in vain, and keeps its id. -/
theorem left_moveAndRename : ∃ ws', moveAndRename.perform speaker = (.error .immutableId, ws') ∧
    ws'.blocks.map (·.x) = [.int 5, .float 0] ∧ ws'.blocks.map (·.id) = ["a", "v"] := by
  obtain ⟨hleft, hfails⟩ := left_of_error (r := moveAndRename) rfl speaker
    (speaker.modifyBlock "a" (·.assignAll [(.str "x", .int 5)])) .immutableId
  have hperform := hfails (.updated rfl rfl rfl)
  obtain ⟨-, ⟨-, -, hids⟩, -⟩ := hleft hperform
  exact ⟨_, hperform, rfl, hids⟩

/-- Inputs that are no dictionary. -/
def spoilInputs : Request := .updateBlock (.str "a") (.dict [(.str "inputs", .int 3)])

/-- A value for the socket of the variable. -/
def sayHello : Request := .setInput (.str "a") (.str "text") (.str "hello")

/-- Updates that fail halfway stay, and a value that cannot be stored still unplugs the variable. -/
theorem changed_of_error :
    Reachable speaker ∧ (∃ ws', moveAndRename.perform speaker = (.error .immutableId, ws') ∧
      ws'.blocks.map (·.x) = [.int 5, .float 0]) ∧
    Reachable (spoilInputs.perform speaker).2 ∧
      (spoilInputs.perform speaker).2.edges = speaker.edges ∧
      ∃ ws', sayHello.perform (spoilInputs.perform speaker).2 = (.error .wrongType, ws') ∧
        ws'.edges = [] := by
  have hreachable : Reachable speaker := .drawn 0 ofGraph_speaker
  exact ⟨hreachable, ⟨_, rfl, rfl⟩, .asked hreachable trivial, rfl, _, rfl, rfl⟩

end Request

end BlockProgram
