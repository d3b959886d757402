import BlockProgram.Proofs.Workspace.Terminal
import Mathlib.Data.List.Find

/-!
# Pairing owners with enders

What `Workspace.syncEnders` does to a workspace.

* `Workspace.findEnderIn_ok`: the search for an ender answers with the first block that is one.
* `Workspace.paired_of_ensureEnder`: pairing a block leaves the workspace alone, sets the type of
  an ender anew or adds one (`Workspace.Paired`).
* `Workspace.pairedAll_of_ok`: when all blocks have been paired, every owner has what it asks for
  (`Workspace.Tended`), and there are no orphans but those that were there.
* `Workspace.syncEnders_ok`: then the orphans that are there are deleted.
-/

namespace BlockProgram

open Workspace

/-! ## What a block is an ender of -/

/-- The owner that a block's data names, if it can be read. -/
def Block.partner? (b : Block) : Option Value := b.data.dict?.bind (Dict.named? · pairKey)

/-- Whether the type of a block is that of an ender. -/
def Block.closes (b : Block) : Bool := b.type.str?.any isEnderType

/-- Whether a block is an ender of an owner. -/
def Block.closesFor (b : Block) (owner : String) : Bool :=
  b.closes && b.partner?.any (·.isStr owner)

/-- What asks for enders can read of a block: its type is a text, and an ender has its data in a
dictionary, in which it names what can be an id or what counts as nothing. -/
structure Block.Legible (b : Block) : Prop where
  type : ∃ type, b.type = .str type
  data : b.closes = true → ∃ entries, b.data = .dict entries
  partner : b.closes = true → ∀ owner, b.partner? = some owner → owner.truthy = true →
    owner.isKey = true

namespace Block

variable {b : Block} {owner : String}

theorem isEnder_eq {type : String} (h : b.type = .str type) : b.isEnder = .ok b.closes := by
  rw [isEnder, closes, h]
  rfl

/-- Whether a block closes something is known only if its type is a text. -/
theorem isEnder_ok {answer : Bool} (h : b.isEnder = .ok answer) :
    (∃ type, b.type = .str type) ∧ answer = b.closes := by
  rw [isEnder] at h
  cases htype : b.type with
  | str type =>
    rw [htype] at h
    cases h
    exact ⟨⟨type, rfl⟩, by rw [closes, htype]; rfl⟩
  | _ =>
    rw [htype] at h
    cases h

theorem owner?_eq {entries : Dict} (h : b.data = .dict entries) : b.owner? = .ok b.partner? := by
  rw [owner?, partner?, h]
  rfl

/-- Whose ender a block is is known only if its data is a dictionary. -/
theorem owner?_ok {named : Option Value} (h : b.owner? = .ok named) :
    (∃ entries, b.data = .dict entries) ∧ named = b.partner? := by
  rw [owner?] at h
  cases hdata : b.data with
  | dict entries =>
    rw [hdata] at h
    cases h
    exact ⟨⟨entries, rfl⟩, by rw [partner?, hdata]; rfl⟩
  | _ =>
    rw [hdata] at h
    cases h

theorem isStr_iff {v : Value} {s : String} : v.isStr s = true ↔ v = .str s := by
  cases v <;> simp [Value.isStr]

/-- A block is the ender of an owner if it closes something and names the owner in its data. -/
theorem closesFor_iff : b.closesFor owner = true ↔
    b.closes = true ∧ b.partner? = some (.str owner) := by
  rw [closesFor, Bool.and_eq_true, Option.any_eq_true]
  constructor
  · rintro ⟨hcloses, v, hv, hstr⟩
    exact ⟨hcloses, hv.trans (congrArg some (isStr_iff.1 hstr))⟩
  · rintro ⟨hcloses, hpartner⟩
    exact ⟨hcloses, _, hpartner, isStr_iff.2 rfl⟩

/-- An ender has only one owner. -/
theorem closesFor_unique {other : String} (h : b.closesFor owner = true)
    (hother : b.closesFor other = true) : owner = other := by
  obtain ⟨-, hpartner⟩ := closesFor_iff.1 h
  obtain ⟨-, hpartner'⟩ := closesFor_iff.1 hother
  rw [hpartner] at hpartner'
  cases hpartner'
  rfl

end Block

namespace Workspace

variable {ws ws' : Workspace} {owner : String} {blocks : List Block}

/-! ## Finding an ender -/

/-- The first ender of an owner. -/
def enderOf? (ws : Workspace) (owner : String) : Option Block := ws.blocks.find? (·.closesFor owner)

/-- The search looks at one block after another and takes the first that closes the owner. -/
theorem findEnderIn_cons {b : Block} (htype : ∃ type, b.type = .str type)
    (hdata : b.closes = true → ∃ entries, b.data = .dict entries) (rest : List Block) :
    findEnderIn (.str owner) (b :: rest) =
      if b.closesFor owner then .ok (some b) else findEnderIn (.str owner) rest := by
  obtain ⟨type, htype⟩ := htype
  rw [findEnderIn, Block.isEnder_eq htype]
  rcases hcloses : b.closes with _ | _
  · rw [Block.closesFor, hcloses]
    rfl
  · obtain ⟨entries, hentries⟩ := hdata hcloses
    have hsame : (b.partner?.getD .null).sameKey (.str owner) = b.closesFor owner := by
      rw [Bool.eq_iff_iff, Value.sameKey_str, Block.closesFor_iff]
      rcases b.partner? with _ | v <;> simp [hcloses]
    rw [Block.owner?_eq hentries, ← hsame]
    rfl

/-- **What is found for an owner is its first ender.** -/
theorem findEnderIn_ok {found : Option Block} (h : findEnderIn (.str owner) blocks = .ok found) :
    found = blocks.find? (·.closesFor owner) := by
  induction blocks with
  | nil =>
    cases h
    rfl
  | cons b rest ih =>
    have hfirst := h
    rw [findEnderIn] at hfirst
    -- the search has not failed at the first block
    rcases hender : b.isEnder with fault | answer <;> rw [hender] at hfirst
    · cases hfirst
    obtain ⟨htype, rfl⟩ := Block.isEnder_ok hender
    have hdata (hcloses : b.closes = true) : ∃ entries, b.data = .dict entries := by
      rw [hcloses] at hfirst
      rcases hnamed : b.owner? with fault | named
      · rw [hnamed] at hfirst
        cases hfirst
      · exact (Block.owner?_ok hnamed).1
    rw [findEnderIn_cons htype hdata] at h
    rw [List.find?_cons]
    rcases hfor : b.closesFor owner with _ | _ <;> rw [hfor] at h
    · exact ih h
    · cases h
      rfl

/-- Among legible blocks the search does not fail. -/
theorem findEnderIn_eq (h : ∀ b ∈ blocks, b.Legible) :
    findEnderIn (.str owner) blocks = .ok (blocks.find? (·.closesFor owner)) := by
  induction blocks with
  | nil => rfl
  | cons b rest ih =>
    have hb := h b List.mem_cons_self
    rw [findEnderIn_cons hb.type hb.data, ih fun b' hb' => h b' (List.mem_cons_of_mem _ hb'),
      List.find?_cons]
    rcases b.closesFor owner with _ | _ <;> rfl

/-! ## Pairing one block -/

/-- The type of the ender that an owner asks for. -/
def wantedType (ws : Workspace) (id : String) : Pairing → String
  | .branches => ifEnderType
  | .loop => repeatEnderType (ws.bodyLength id)

/-- An ender of a loop with its type and variant set anew. -/
def retyped (ws : Workspace) (id : String) (ender : Block) : Block :=
  { ender with
    type := .str (ws.wantedType id .loop)
    data := .dict (Dict.setNamed (ender.data.dict?.getD []) variantKey
      (.int (clampVariant (ws.bodyLength id)))) }

/-- **What pairing a block does to a workspace.** -/
inductive Paired (ws : Workspace) (b : Block) : Workspace → Prop
  /-- The block asks for no ender. -/
  | none : pairing? b.type = .ok none → Paired ws b ws
  /-- It has one, of the type that it asks for. -/
  | found {k : Pairing} {ender : Block} : pairing? b.type = .ok (some k) →
    ws.enderOf? b.id = some ender → (k = .loop → ender.type = .str (ws.wantedType b.id k)) →
    Paired ws b ws
  /-- It has one, whose type follows the body. -/
  | retyped {ender : Block} : pairing? b.type = .ok (some .loop) →
    ws.enderOf? b.id = some ender →
    Paired ws b (ws.modifyBlock ender.id (ws.retyped b.id))
  /-- It has none and gets one. -/
  | added {k : Pairing} {ender : Block} : pairing? b.type = .ok (some k) →
    ws.enderOf? b.id = .none → ws.has ender.id = false →
    ender.type = .str (ws.wantedType b.id k) → ender.partner? = some (.str b.id) →
    ender.inputs = .dict [] →
    Paired ws b { ws with blocks := ws.blocks ++ [ender], issued := ws.issued + 1 }

/-- An ender that can be made has the type and the data that it was to have. -/
theorem makeEnder_ok {id type : String} {place : Value × Value} {data : Dict} {ender : Block}
    (h : (makeEnder id type place data).toExcept = .ok ender) :
    ∃ x y, ender = { id, type := .str type, x, y, data := .dict data } := by
  rcases hmake : makeEnder id type place data with issues | made <;> rw [hmake] at h
  · cases h
  · cases h
    obtain ⟨f, y, hf, -, rfl⟩ := Record.part_ok hmake
    obtain ⟨g, x, hg, -, rfl⟩ := Record.part_ok hf
    cases hg
    exact ⟨x, y, rfl⟩

/-- An ender that is added is the one that is answered, comes last and names its owner. -/
theorem addEnder_ok {owner : Block} {type : String} {height gap : Int} {extra : Dict}
    {id : String} (h : addEnder owner type height gap extra ws = (.ok id, ws')) :
    ∃ ender : Block, ender.id = id ∧ ws.has ender.id = false ∧ ender.type = .str type ∧
      ender.partner? = some (.str owner.id) ∧ ender.inputs = .dict [] ∧
      ws' = { ws with blocks := ws.blocks ++ [ender], issued := ws.issued + 1 } := by
  obtain ⟨fresh, ws₁, hfresh, h⟩ := Edit.bind_eq_ok h
  cases hfresh
  obtain ⟨place, ws₂, hplace, h⟩ := Edit.bind_eq_ok h
  obtain ⟨-, rfl⟩ := Edit.lift_eq_ok hplace
  obtain ⟨ender, ws₃, hlift, h⟩ := Edit.bind_eq_ok h
  obtain ⟨hmake, rfl⟩ := Edit.lift_eq_ok hlift
  obtain ⟨⟨⟩, ws₄, hupdate, h⟩ := Edit.bind_eq_ok h
  cases h
  obtain ⟨x, y, rfl⟩ := makeEnder_ok hmake
  have hadd := Edit.update_eq_ok hupdate
  rw [addBlock] at hadd
  split at hadd
  · cases hadd
  · rename_i hnew
    cases hadd
    have hpartner : Dict.named? ((.str pairKey, .str owner.id) :: (.str "auto", .bool true) ::
        extra) pairKey = some (.str owner.id) := Dict.named?_cons_self _
    exact ⟨_, rfl, Bool.eq_false_iff.2 hnew, rfl, hpartner, rfl, rfl⟩

/-- A block that was needed and found is the one with the id. -/
theorem needBlock_ok {id : String} {b : Block} (h : needBlock id ws = (.ok b, ws')) :
    ws.block? id = some b ∧ ws' = ws := by
  rw [needBlock] at h
  split at h
  · cases h
    exact ⟨by assumption, rfl⟩
  · cases h

/-- What pairs an owner looks for its ender first. -/
theorem of_search_ok {α : Type} {id : String} {f : Block → Workspace → Option Block → Edit α}
    {a : α} (h : (do
      let b ← needBlock id
      let ws ← get
      let found ← Edit.lift (ws.findEnder (.str id))
      f b ws found : Edit α) ws = (.ok a, ws')) :
    ∃ b : Block, b.id = id ∧ f b ws (ws.enderOf? id) ws = (.ok a, ws') := by
  obtain ⟨b, ws₁, hneed, hsearch⟩ := Edit.bind_eq_ok h
  obtain ⟨hb, rfl⟩ := needBlock_ok hneed
  have hsearch : (Edit.lift (ws₁.findEnder (.str id)) >>= f b ws₁) ws₁ = (.ok a, ws') := hsearch
  obtain ⟨found, ws₂, hlift, hrest⟩ := Edit.bind_eq_ok hsearch
  obtain ⟨hfound, rfl⟩ := Edit.lift_eq_ok hlift
  rw [findEnderIn_ok hfound] at hrest
  exact ⟨b, block?_id hb, hrest⟩

/-- What pairing a loop does, and the ender that is answered. -/
theorem paired_of_ensureRepeatEnder {b : Block} {id : String}
    (hpairing : pairing? b.type = .ok (some .loop))
    (h : ensureRepeatEnder b.id ws = (.ok id, ws')) : Paired ws b ws' ∧
      ∃ ender ∈ ws'.blocks, ender.id = id ∧ ender.type = .str (ws.wantedType b.id .loop) := by
  obtain ⟨owner, hid, h⟩ := of_search_ok h
  rcases hfound : ws.enderOf? b.id with _ | ender <;> rw [hfound] at h
  · obtain ⟨ender, heq, hnew, htype, hpartner, hinputs, rfl⟩ := addEnder_ok h
    rw [hid] at hpartner
    refine ⟨.added hpairing hfound hnew htype hpartner hinputs, ender, ?_, heq, htype⟩
    exact List.mem_append_right _ List.mem_cons_self
  · have hmem : ender ∈ ws.blocks := List.mem_of_find?_eq_some hfound
    dsimp only at h
    split at h
    · cases h
      refine ⟨.retyped hpairing hfound, ws.retyped b.id ender, ?_, rfl, rfl⟩
      exact List.mem_map.2 ⟨ender, hmem, if_pos BEq.rfl⟩
    · rename_i hsame
      cases h
      rw [Bool.not_eq_true, Bool.not_eq_false'] at hsame
      have htype := Block.isStr_iff.1 hsame
      exact ⟨.found hpairing hfound fun _ => htype, ender, hmem, rfl, htype⟩

/-- **Pairing a block does one of four things**, if it does not fail. -/
theorem paired_of_ensureEnder {b : Block} (h : ensureEnder b ws = (.ok (), ws')) :
    Paired ws b ws' := by
  obtain ⟨pairing, ws₁, hlift, h⟩ := Edit.bind_eq_ok h
  obtain ⟨hpairing, rfl⟩ := Edit.lift_eq_ok hlift
  rcases pairing with _ | _ | _
  · cases h
    exact .none hpairing
  · obtain ⟨id, ws₂, hensure, hdone⟩ := Edit.bind_eq_ok h
    cases hdone
    obtain ⟨owner, hid, h⟩ := of_search_ok hensure
    rcases hfound : ws₁.enderOf? b.id with _ | ender <;> rw [hfound] at h
    · obtain ⟨ender, -, hnew, htype, hpartner, hinputs, rfl⟩ := addEnder_ok h
      rw [hid] at hpartner
      exact .added hpairing hfound hnew htype hpartner hinputs
    · cases h
      exact .found hpairing hfound (by rintro ⟨⟩)
  · obtain ⟨id, ws₂, hensure, hdone⟩ := Edit.bind_eq_ok h
    cases hdone
    exact (paired_of_ensureRepeatEnder hpairing hensure).1

/-! ## What pairing keeps -/

/-- Which type an ender should have depends on the edges alone, since it counts the body of the
loop. -/
theorem wantedType_congr (h : ws'.edges = ws.edges) (id : String) (k : Pairing) :
    ws'.wantedType id k = ws.wantedType id k := by
  cases k with
  | branches => rfl
  | loop => rw [wantedType, wantedType, bodyLength, bodyLength, branchHead?, branchHead?, target?,
      target?, h]

/-- It is always the type of an ender. -/
theorem isEnderType_wantedType (ws : Workspace) (id : String) (k : Pairing) :
    isEnderType (ws.wantedType id k) = true := by
  cases k with
  | branches => rfl
  | loop =>
    have hmark : repeatEnderMark.toList.isPrefixOf
        (repeatEnderType (ws.bodyLength id)).toList = true := by
      rw [repeatEnderType, String.append_assoc, String.toList_append, List.isPrefixOf_iff_prefix]
      exact List.prefix_append _ _
    rw [wantedType, isEnderType, hmark, Bool.or_true]

theorem closes_of_type {b : Block} {id : String} {k : Pairing}
    (h : b.type = .str (ws.wantedType id k)) : b.closes = true := by
  rw [Block.closes, h]
  exact isEnderType_wantedType ws id k

theorem partner?_retyped (id : String) (b : Block) : (ws.retyped id b).partner? = b.partner? := by
  have hkeys : variantKey ≠ pairKey := by decide
  change Dict.named? (Dict.setNamed (b.data.dict?.getD []) variantKey _) pairKey = _
  rw [Dict.named?_setNamed, if_neg hkeys, Block.partner?]
  cases b.data.dict? <;> rfl

/-- An ender whose type is set anew stays the ender of its owner. -/
theorem closesFor_retyped {b : Block} (h : b.closes = true) (id : String) :
    (ws.retyped id b).closesFor owner = b.closesFor owner := by
  rw [Block.closesFor, Block.closesFor, partner?_retyped, h, closes_of_type rfl]

/-- Setting the type and the data of an ender leaves it legible. -/
theorem legible_retyped {b : Block} (h : b.Legible) (hcloses : b.closes = true) (id : String) :
    (ws.retyped id b).Legible := by
  refine ⟨⟨_, rfl⟩, fun _ => ⟨_, rfl⟩, fun _ named hnamed => ?_⟩
  rw [partner?_retyped] at hnamed
  exact h.partner hcloses named hnamed

/-- The ender of an owner is one of the blocks and closes for it. -/
theorem mem_of_enderOf? {ender : Block} (h : ws.enderOf? owner = some ender) :
    ender ∈ ws.blocks ∧ ender.closesFor owner = true := by
  rw [enderOf?, List.find?_eq_some_iff_append] at h
  obtain ⟨hfor, before, after, hblocks, -⟩ := h
  exact ⟨by simp [hblocks], hfor⟩

/-- Retyping one ender changes no pairing: every owner keeps its ender, and the one that was retyped
is the new one. -/
theorem enderOf?_retyped (hdistinct : Distinct ws) {id : String} {ender : Block}
    (h : ws.enderOf? id = some ender) (owner : String) :
    (ws.modifyBlock ender.id (ws.retyped id)).enderOf? owner =
      (ws.enderOf? owner).map fun b => if b.id == ender.id then ws.retyped id b else b := by
  obtain ⟨hmem, hfor⟩ := mem_of_enderOf? h
  rw [enderOf?, modifyBlock, List.find?_map, enderOf?]
  congr 1
  refine List.find?_congr fun b hb => ?_
  rw [Function.comp]
  split
  · rename_i hid
    obtain rfl := List.inj_on_of_nodup_map hdistinct hb hmem (beq_iff_eq.1 hid)
    exact closesFor_retyped (Block.closesFor_iff.1 hfor).1 id
  · rfl

namespace Paired

variable {b : Block}

/-- Pairing draws no edges. -/
theorem edges (h : Paired ws b ws') : ws'.edges = ws.edges := by
  cases h <;> rfl

/-- It keeps ids distinct, as a new ender gets an id of its own. -/
theorem distinct (h : Paired ws b ws') (hdistinct : Distinct ws) : Distinct ws' := by
  cases h with
  | none | found => exact hdistinct
  | retyped _ _ =>
    have hid : ∀ b' : Block, (ws.retyped b.id b').id = b'.id := fun _ => rfl
    rwa [Distinct, ids_modifyBlock fun b' hb' => (hid b').trans hb']
  | @added _ ender _ _ hnew =>
    have hadded : Plain False ws { ws with blocks := ws.blocks ++ [ender] } := .add hnew
    have hmore : Distinct { ws with blocks := ws.blocks ++ [ender] } := hdistinct.plain hadded
    exact hmore

/-- It takes no block away. -/
theorem has (h : Paired ws b ws') {id : String} (hid : ws.has id = true) : ws'.has id = true := by
  cases h with
  | none | found => exact hid
  | retyped _ _ =>
    have hkeeps : ∀ b' : Block, (ws.retyped b.id b').id = b'.id := fun _ => rfl
    rwa [has_modifyBlock fun b' hb' => (hkeeps b').trans hb']
  | added =>
    simp only [Workspace.has, List.any_append, Bool.or_eq_true] at hid ⊢
    exact .inl hid

/-- It keeps blocks legible. -/
theorem legible (h : Paired ws b ws') (hdistinct : Distinct ws)
    (hlegible : ∀ b ∈ ws.blocks, b.Legible) : ∀ b ∈ ws'.blocks, b.Legible := by
  cases h with
  | none | found => exact hlegible
  | @retyped ender _ hender =>
    obtain ⟨hmem, hfor⟩ := mem_of_enderOf? hender
    intro b' hb'
    obtain ⟨b₀, hb₀, rfl⟩ := List.mem_map.1 hb'
    split
    · rename_i hid
      obtain rfl := List.inj_on_of_nodup_map hdistinct hb₀ hmem (beq_iff_eq.1 hid)
      exact legible_retyped (hlegible _ hb₀) (Block.closesFor_iff.1 hfor).1 _
    · exact hlegible b₀ hb₀
  | @added k ender _ _ _ htype hpartner _ =>
    intro b' hb'
    rcases List.mem_append.1 hb' with hb' | hb'
    · exact hlegible b' hb'
    · obtain rfl := List.mem_singleton.1 hb'
      refine ⟨⟨_, htype⟩, fun _ => ?_, fun _ owner howner _ => ?_⟩
      · obtain ⟨entries, hentries, -⟩ := Option.bind_eq_some_iff.1 hpartner
        exact ⟨entries, Value.eq_dict_of_dict? hentries⟩
      · rw [hpartner] at howner
        cases howner
        rfl

/-- Other owners keep their enders. -/
theorem enderOf?_of_ne (h : Paired ws b ws') (hdistinct : Distinct ws) (hne : owner ≠ b.id)
    {ender : Block} (hender : ws.enderOf? owner = some ender) :
    ws'.enderOf? owner = some ender := by
  cases h with
  | none | found => exact hender
  | @retyped other _ hother =>
    rw [enderOf?_retyped hdistinct hother, hender, Option.map_some]
    have hapart : ender.id ≠ other.id := by
      intro hid
      obtain ⟨hmem, hfor⟩ := mem_of_enderOf? hender
      obtain ⟨hmem', hfor'⟩ := mem_of_enderOf? hother
      obtain rfl := List.inj_on_of_nodup_map hdistinct hmem hmem' hid
      exact hne (Block.closesFor_unique hfor hfor')
    rw [if_neg fun hid => hapart (beq_iff_eq.1 hid)]
  | added =>
    have hfirst : ws.blocks.find? (·.closesFor owner) = some ender := hender
    rw [enderOf?, List.find?_append, hfirst, Option.some_or]

/-- The block itself has what it asks for. -/
theorem enderOf?_self (h : Paired ws b ws') (hdistinct : Distinct ws) {k : Pairing}
    (hk : pairing? b.type = .ok (some k)) : ∃ ender, ws'.enderOf? b.id = some ender ∧
      (k = .loop → ender.type = .str (ws'.wantedType b.id k)) := by
  rw [wantedType_congr h.edges]
  cases h with
  | none hnone =>
    rw [hk] at hnone
    cases hnone
  | found hk' hender htype =>
    cases hk.symm.trans hk'
    exact ⟨_, hender, htype⟩
  | @retyped ender hk' hender =>
    cases hk.symm.trans hk'
    refine ⟨ws.retyped b.id ender, ?_, fun _ => rfl⟩
    rw [enderOf?_retyped hdistinct hender, hender, Option.map_some, if_pos BEq.rfl]
  | @added _ ender hk' hnone _ htype hpartner _ =>
    cases hk.symm.trans hk'
    refine ⟨ender, ?_, fun _ => htype⟩
    have hfirst : ws.blocks.find? (·.closesFor b.id) = .none := hnone
    have hfor : ender.closesFor b.id = true :=
      Block.closesFor_iff.2 ⟨closes_of_type htype, hpartner⟩
    rw [enderOf?, List.find?_append, hfirst, Option.none_or, List.find?_singleton, if_pos hfor]

end Paired

/-! ## Orphans -/

/-- Whether a block is an ender whose owner is gone. -/
def orphaned (ws : Workspace) (b : Block) : Bool :=
  b.closes && b.partner?.any fun owner => owner.truthy && !owner.str?.any ws.has

/-- The enders whose owner is gone. -/
def orphans (ws : Workspace) : List Block := ws.blocks.filter ws.orphaned

/-- An ender of an owner that is there is no orphan. -/
theorem not_orphaned_of_closesFor {b : Block} (h : b.closesFor owner = true)
    (howner : ws.has owner = true) : ws.orphaned b = false := by
  obtain ⟨-, hpartner⟩ := Block.closesFor_iff.1 h
  rw [orphaned, hpartner, Option.any_some, show (Value.str owner).str? = some owner from rfl,
    Option.any_some, howner, Bool.not_true, Bool.and_false, Bool.and_false]

/-- The blocks that are there after pairing a block. -/
theorem Paired.mem_blocks {b b' : Block} (h : Paired ws b ws') (hdistinct : Distinct ws)
    (hmem : b' ∈ ws'.blocks) : b' ∈ ws.blocks ∨ b'.closesFor b.id = true := by
  cases h with
  | none | found => exact .inl hmem
  | retyped _ hender =>
    obtain ⟨hown, hfor⟩ := mem_of_enderOf? hender
    obtain ⟨b₀, hb₀, rfl⟩ := List.mem_map.1 hmem
    split
    · rename_i hid
      obtain rfl := List.inj_on_of_nodup_map hdistinct hb₀ hown (beq_iff_eq.1 hid)
      exact .inr ((closesFor_retyped (Block.closesFor_iff.1 hfor).1 _).trans hfor)
    · exact .inl hb₀
  | added _ _ _ htype hpartner _ =>
    rcases List.mem_append.1 hmem with hb' | hb'
    · exact .inl hb'
    · obtain rfl := List.mem_singleton.1 hb'
      exact .inr (Block.closesFor_iff.2 ⟨closes_of_type htype, hpartner⟩)

/-- With more blocks there are no more orphans. -/
theorem orphaned_mono {b : Block} (hhas : ∀ id, ws.has id = true → ws'.has id = true)
    (h : ws'.orphaned b = true) : ws.orphaned b = true := by
  rw [orphaned, Bool.and_eq_true, Option.any_eq_true] at h ⊢
  obtain ⟨hcloses, owner, hpartner, horphaned⟩ := h
  refine ⟨hcloses, owner, hpartner, ?_⟩
  rw [Bool.and_eq_true, Bool.not_eq_true'] at horphaned ⊢
  refine ⟨horphaned.1, ?_⟩
  rw [Bool.eq_false_iff, Ne, Option.any_eq_true] at horphaned ⊢
  rintro ⟨id, hid, hknown⟩
  exact horphaned.2 ⟨id, hid, hhas id hknown⟩

/-- Pairing a known block makes no orphans. -/
theorem Paired.orphan {b b' : Block} (h : Paired ws b ws') (hdistinct : Distinct ws)
    (hknown : ws.has b.id = true) (hmem : b' ∈ ws'.orphans) : b' ∈ ws.orphans := by
  obtain ⟨hb', horphaned⟩ := List.mem_filter.1 hmem
  rcases h.mem_blocks hdistinct hb' with hbefore | hfor
  · exact List.mem_filter.2 ⟨hbefore, orphaned_mono (fun _ => h.has) horphaned⟩
  · rw [not_orphaned_of_closesFor hfor (h.has hknown)] at horphaned
    cases horphaned

/-! ## Pairing all blocks -/

/-- An owner has the ender that it asks for, of the type that it asks for if it is a loop. -/
def Tended (ws : Workspace) (b : Block) : Prop :=
  ∀ k, pairing? b.type = .ok (some k) → ∃ ender, ws.enderOf? b.id = some ender ∧
    (k = .loop → ender.type = .str (ws.wantedType b.id k))

/-- What is left when some blocks have been paired. -/
structure PairedAll (ws : Workspace) (done : List Block) (ws' : Workspace) : Prop where
  distinct : Distinct ws'
  has : ∀ id, ws.has id = true → ws'.has id = true
  blocks : ∀ b ∈ ws'.blocks, b ∈ ws.blocks ∨ b.closes = true
  tended : ∀ b ∈ done, ws'.Tended b
  orphan : ∀ b ∈ ws'.orphans, b ∈ ws.orphans

/-- Pairing one more owner leaves those paired before as they are. -/
theorem PairedAll.snoc {done : List Block} {b : Block} {ws₁ : Workspace}
    (h : PairedAll ws done ws₁) (hknown : ws.has b.id = true) (hnew : b.id ∉ done.map (·.id))
    (hpaired : Paired ws₁ b ws') : PairedAll ws (done ++ [b]) ws' where
  distinct := hpaired.distinct h.distinct
  has id hid := hpaired.has (h.has id hid)
  blocks b' hb' := by
    rcases hpaired.mem_blocks h.distinct hb' with hb' | hfor
    · exact h.blocks b' hb'
    · exact .inr (Block.closesFor_iff.1 hfor).1
  tended b' hb' := by
    rcases List.mem_append.1 hb' with hb' | hb'
    · intro k hk
      obtain ⟨ender, hender, htype⟩ := h.tended b' hb' k hk
      have hne : b'.id ≠ b.id := fun hid => hnew (hid ▸ List.mem_map_of_mem hb')
      refine ⟨ender, hpaired.enderOf?_of_ne h.distinct hne hender, ?_⟩
      rwa [wantedType_congr hpaired.edges]
    · obtain rfl := List.mem_singleton.1 hb'
      exact fun k hk => hpaired.enderOf?_self h.distinct hk
  orphan b' hb' := h.orphan b' (hpaired.orphan h.distinct (h.has _ hknown) hb')

/-- What holds before any block is paired, and is kept when one more is, holds when all have been
paired. -/
theorem forM_ensureEnder_induction {P : List Block → Workspace → Prop} (hdistinct : Distinct ws)
    (hstart : P [] ws)
    (hstep : ∀ {done : List Block} {b : Block} {cur next : Workspace}, b ∈ ws.blocks →
      b.id ∉ done.map (·.id) → Paired cur b next → P done cur → P (done ++ [b]) next)
    (h : ws.blocks.forM ensureEnder ws = (.ok (), ws')) : P ws.blocks ws' := by
  suffices ∀ (done rest : List Block) (cur : Workspace), ((done ++ rest).map (·.id)).Nodup →
      (∀ b ∈ rest, b ∈ ws.blocks) → P done cur →
      rest.forM ensureEnder cur = (.ok (), ws') → P (done ++ rest) ws' from
    this [] ws.blocks ws hdistinct (fun _ => id) hstart h
  clear h hstart
  intro done rest
  induction rest generalizing done with
  | nil =>
    intro cur _ _ hdone h
    cases h
    rwa [List.append_nil]
  | cons b rest ih =>
    intro cur hids hmem hdone h
    obtain ⟨⟨⟩, next, hfirst, hrest⟩ := Edit.bind_eq_ok h
    have hnew : b.id ∉ done.map (·.id) := by
      rw [List.map_append, List.nodup_append] at hids
      exact fun hid => hids.2.2 b.id hid b.id (List.mem_map_of_mem List.mem_cons_self) rfl
    rw [List.append_cons] at hids ⊢
    exact ih _ next hids (fun b' hb' => hmem b' (List.mem_cons_of_mem _ hb'))
      (hstep (hmem b List.mem_cons_self) hnew (paired_of_ensureEnder hfirst) hdone) hrest

/-- **Every owner has the ender that it asks for when all blocks have been paired.** -/
theorem pairedAll_of_ok (hdistinct : Distinct ws)
    (h : ws.blocks.forM ensureEnder ws = (.ok (), ws')) : PairedAll ws ws.blocks ws' := by
  refine forM_ensureEnder_induction hdistinct ?_ (fun hmem hnew hpaired hdone => ?_) h
  · exact ⟨hdistinct, fun _ => id, fun _ => .inl, fun b hb => absurd hb List.not_mem_nil,
      fun _ => id⟩
  · exact hdone.snoc (has_of_mem hmem) hnew hpaired

/-! ## Deleting orphans -/

/-- On a legible block the check for orphans does not fail, and says whether its owner is gone. -/
theorem isOrphan_eq {b : Block} (h : b.Legible) : ws.isOrphan b = .ok (ws.orphaned b) := by
  obtain ⟨type, htype⟩ := h.type
  rw [isOrphan, Block.isEnder_eq htype, orphaned]
  rcases hcloses : b.closes with _ | _
  · rfl
  obtain ⟨entries, hentries⟩ := h.data hcloses
  rw [Block.owner?_eq hentries]
  rcases hpartner : b.partner? with _ | owner
  · rfl
  change (if owner.truthy = true then _ else _) = _
  by_cases htruthy : owner.truthy = true
  · have hkey := h.partner hcloses owner hpartner htruthy
    rw [if_pos htruthy, Option.any_some, htruthy, Bool.true_and, Bool.true_and]
    cases owner with
    | str id => rfl
    | list | dict => cases hkey
    | _ => rfl
  · rw [if_neg htruthy, Option.any_some, Bool.eq_false_iff.2 htruthy]
    rfl

/-- Conversely, a block on which it does not fail is legible. -/
theorem legible_of_isOrphan {b : Block} {answer : Bool} (h : ws.isOrphan b = .ok answer) :
    b.Legible := by
  rw [isOrphan] at h
  rcases hender : b.isEnder with fault | closes <;> rw [hender] at h
  · cases h
  obtain ⟨htype, rfl⟩ := Block.isEnder_ok hender
  rcases hcloses : b.closes with _ | _ <;> rw [hcloses] at h
  · refine ⟨htype, fun htrue => ?_, fun htrue => ?_⟩
    all_goals
      rw [hcloses] at htrue
      cases htrue
  rcases hnamed : b.owner? with fault | named <;> rw [hnamed] at h
  · cases h
  obtain ⟨hdata, rfl⟩ := Block.owner?_ok hnamed
  refine ⟨htype, fun _ => hdata, fun _ owner howner htruthy => ?_⟩
  rw [howner] at h
  change (if owner.truthy = true then _ else _) = _ at h
  rw [if_pos htruthy] at h
  cases owner with
  | list | dict => cases h
  | _ => rfl

/-- A filter whose test does not fail is a plain filter. The induction keeps what was found so far,
in reverse. -/
theorem filterAuxM_eq {α : Type} {f : α → Except Fault Bool} {g : α → Bool} {items : List α}
    (h : ∀ a ∈ items, f a = .ok (g a)) (found : List α) :
    items.filterAuxM f found = .ok ((items.filter g).reverse ++ found) := by
  induction items generalizing found with
  | nil => rfl
  | cons a rest ih =>
    have hrest := ih fun a' ha' => h a' (List.mem_cons_of_mem _ ha')
    rw [List.filterAuxM, h a List.mem_cons_self, List.filter_cons]
    rcases g a with _ | _
    · exact hrest found
    · refine (hrest (a :: found)).trans ?_
      rw [if_pos rfl, List.reverse_cons, List.append_assoc]
      rfl

theorem filterM_eq {α : Type} {f : α → Except Fault Bool} {g : α → Bool} {items : List α}
    (h : ∀ a ∈ items, f a = .ok (g a)) : items.filterM f = .ok (items.filter g) := by
  rw [List.filterM, filterAuxM_eq h, List.append_nil]
  exact congrArg Except.ok (List.reverse_reverse _)

/-- If a filter has come to its end, the test has failed on none of its items. -/
theorem ok_of_filterM_ok {α : Type} {f : α → Except Fault Bool} {items kept : List α}
    (h : items.filterM f = .ok kept) : ∀ a ∈ items, ∃ answer, f a = .ok answer := by
  rw [List.filterM] at h
  generalize hfound : ([] : List α) = found at h
  clear hfound
  induction items generalizing found with
  | nil => exact fun a ha => absurd ha List.not_mem_nil
  | cons a rest ih =>
    rw [List.filterAuxM] at h
    rcases hfirst : f a with fault | answer <;> rw [hfirst] at h
    · cases h
    intro a' ha'
    rcases List.mem_cons.1 ha' with rfl | ha'
    · exact ⟨answer, hfirst⟩
    · exact ih _ h a' ha'

/-- The workspace without some blocks, deleted one after the other. -/
def deleteAll (ws : Workspace) (blocks : List Block) : Workspace :=
  blocks.foldl (fun ws b => (ws.deleteBlock b.id).2) ws

/-- Deleting a block removes it and no other block. -/
theorem blocks_deleteBlock (ws : Workspace) (id : String) :
    (ws.deleteBlock id).2.blocks = ws.blocks.filter (·.id != id) := by
  rw [deleteBlock]
  split
  · change (splice _ _ _).blocks = _
    rcases ws.predecessor? id with _ | above <;> rcases ws.successor? id with _ | below
    · rfl
    · rfl
    · rfl
    · rw [splice]
      split <;> rfl
  · rename_i hnot
    refine (List.filter_eq_self.2 fun b hb => ?_).symm
    rw [bne_iff_ne]
    rintro rfl
    exact hnot (has_of_mem hb)

/-- So the blocks left after several deletions are those with other ids. -/
theorem blocks_deleteAll (ws : Workspace) (gone : List Block) :
    (ws.deleteAll gone).blocks = ws.blocks.filter fun b => !gone.any (·.id == b.id) := by
  induction gone generalizing ws with
  | nil => exact (List.filter_eq_self.2 fun _ _ => rfl).symm
  | cons b rest ih =>
    rw [deleteAll, List.foldl_cons]
    refine (ih _).trans ?_
    rw [blocks_deleteBlock, List.filter_filter]
    refine List.filter_congr fun b' _ => ?_
    rw [List.any_cons, Bool.not_or, Bool.and_comm, bne, Bool.beq_comm]

/-- The blocks that are left are those that are no orphans. -/
theorem blocks_deleteOrphans (hdistinct : Distinct ws) :
    (ws.deleteAll ws.orphans).blocks = ws.blocks.filter fun b => !ws.orphaned b := by
  rw [blocks_deleteAll]
  refine List.filter_congr fun b hb => ?_
  rw [Bool.not_inj_iff, Bool.eq_iff_iff, List.any_eq_true]
  constructor
  · rintro ⟨b', hb', hid⟩
    obtain ⟨hmem, horphaned⟩ := List.mem_filter.1 hb'
    obtain rfl := List.inj_on_of_nodup_map hdistinct hmem hb (beq_iff_eq.1 hid)
    exact horphaned
  · exact fun horphaned => ⟨b, List.mem_filter.2 ⟨hb, horphaned⟩, BEq.rfl⟩

/-- A known owner keeps its ender, as that is no orphan. -/
theorem enderOf?_deleteOrphans (hdistinct : Distinct ws) (howner : ws.has owner = true) :
    (ws.deleteAll ws.orphans).enderOf? owner = ws.enderOf? owner := by
  rw [enderOf?, blocks_deleteOrphans hdistinct, List.find?_filter, enderOf?]
  refine List.find?_congr fun b _ => ?_
  rcases hfor : b.closesFor owner with _ | _
  · simp
  · simp [not_orphaned_of_closesFor hfor howner]

/-! ## The whole call -/

/-- **What pairing all blocks with enders does**, if it does not fail: all are paired one after the
other, and the orphans are deleted that are there then. -/
theorem syncEnders_ok {n : Nat} (h : syncEnders ws = (.ok n, ws')) :
    ∃ ws₁, ws.blocks.forM ensureEnder ws = (.ok (), ws₁) ∧ (∀ b ∈ ws₁.blocks, b.Legible) ∧
      n = ws₁.orphans.length ∧ ws' = ws₁.deleteAll ws₁.orphans := by
  have h : (ws.blocks.forM ensureEnder >>= fun _ => do
      let ws ← get
      let orphans ← Edit.lift (ws.blocks.filterM ws.isOrphan)
      set (ws.deleteAll orphans)
      return orphans.length : Edit Nat) ws = (.ok n, ws') := h
  obtain ⟨⟨⟩, ws₁, hpaired, hrest⟩ := Edit.bind_eq_ok h
  have hrest : (Edit.lift (ws₁.blocks.filterM ws₁.isOrphan) >>= fun orphans => do
      set (ws₁.deleteAll orphans)
      return orphans.length : Edit Nat) ws₁ = (.ok n, ws') := hrest
  obtain ⟨orphans, ws₂, hlift, hdone⟩ := Edit.bind_eq_ok hrest
  obtain ⟨hfilter, rfl⟩ := Edit.lift_eq_ok hlift
  cases hdone
  have hlegible : ∀ b ∈ ws₂.blocks, b.Legible := by
    intro b hb
    obtain ⟨answer, hanswer⟩ := ok_of_filterM_ok hfilter b hb
    exact legible_of_isOrphan hanswer
  rw [filterM_eq fun b hb => isOrphan_eq (hlegible b hb)] at hfilter
  cases hfilter
  exact ⟨ws₂, hpaired, hlegible, rfl, rfl⟩

/-- **After every owner is paired, exactly the orphans are deleted.** -/
theorem syncEnders_eq {ws₁ : Workspace} (h : ws.blocks.forM ensureEnder ws = (.ok (), ws₁))
    (hlegible : ∀ b ∈ ws₁.blocks, b.Legible) :
    syncEnders ws = (.ok ws₁.orphans.length, ws₁.deleteAll ws₁.orphans) := by
  have hfilter : Edit.lift (ws₁.blocks.filterM ws₁.isOrphan) ws₁ = (.ok ws₁.orphans, ws₁) :=
    Edit.lift_of_eq (filterM_eq fun b hb => isOrphan_eq (hlegible b hb))
  exact (Edit.bind_ok h).trans (Edit.bind_ok hfilter)

end Workspace

end BlockProgram
