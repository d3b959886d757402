import BlockProgram.Proofs.Machine.Bypass
import BlockProgram.Proofs.Workspace.Tidying

/-!
# Programs that are spared when enders go

When enders are deleted, the edges that touch them go as well, and with them perhaps a branch or what
was plugged in. `Workspace.Spares` says when this leaves the program what it was: the branches that
begin with a deleted ender hold nothing but enders, what it was plugged in at holds nothing else, and
the program still starts where it did.

Then the program of what is left goes past enders of the one before
(`Workspace.bypasses_of_spares`): node by node, its links are those of the block or lead further, and
its slots refer to what they did or hold nothing in place of a deleted ender.
-/

namespace BlockProgram

/-! ## What the program is spared -/

/-- Whether a branch is run in place of another one that is gone: it has the same slot, or it is the
`true` branch of a loop whose `body` is gone. -/
def Edge.StandsInFor (e' e : Edge) : Prop :=
  e'.slot = e.slot ∨ (e.slot = some defaultBranch ∧ e'.slot = some "true")

namespace Workspace

variable {ws ws' : Workspace} {id : String}

/-- At this socket stands what a variable is set to. -/
def AssignsAt (ws : Workspace) (id : String) (socket : Option String) : Prop :=
  socket = some "value" ∧
    ∃ b, ws.block? id = some b ∧ b.type.isStr Statement.setVariable.typeName = true

/-- The program of a workspace is spared when enders are deleted.

* A branch that begins with one of them holds nothing but enders, and no other branch is run in its
  place.
* Where one of them is plugged in nothing is stored, or the empty text, unless a variable is set to
  what is there.
* The ends of the stack edges around them have ids that are not empty.
* If one of them is on top of a stack, the program still starts where it did or behind. -/
structure Spares (ws ws' : Workspace) : Prop where
  branch : ∀ e ∈ ws.edges, e.kind = .branch → Gone ws ws' e.target → ws'.has e.source = true →
    ws.Skips (some e.target) none ∧ ∀ e' ∈ ws.edges, e'.kind = .branch → e'.source = e.source →
      e'.StandsInFor e → Gone ws ws' e'.target
  input : ∀ e ∈ ws.edges, e.kind = .input → Gone ws ws' e.target → ws'.has e.source = true →
    ∀ v, ws.stored? e.source e.socket = some v →
      v = .null ∨ (v = .str "" ∧ ¬ ws.AssignsAt e.source e.socket)
  named : NamedAroundGone ws ws'
  start : (∃ id, Gone ws ws' id ∧ ws.predecessor? id = none) → ws.Skips ws.start? ws'.start?

/-- Where nothing is deleted, the program is spared. -/
theorem spares_of_kept (h : ∀ id, ws.has id = true → ws'.has id = true) : ws.Spares ws' := by
  have hkept (id : String) : ¬ Gone ws ws' id := by
    rintro ⟨hknown, hdeleted⟩
    rw [h id hknown] at hdeleted
    cases hdeleted
  refine ⟨fun e _ _ hgone => absurd hgone (hkept _), fun e _ _ hgone => absurd hgone (hkept _), ?_, ?_⟩
  · rintro link - (hgone | hgone)
    · exact absurd hgone (hkept _)
    · exact absurd hgone (hkept _)
  · rintro ⟨id, hgone, -⟩
    exact absurd hgone (hkept _)

/-! ## Branches and slots -/

theorem Left.filter_eq {gone : String → Prop} (h : Left ws gone ws') {keep : Edge → Bool}
    (hkeep : ∀ e, keep e = true → e.kind ≠ .stack) : ws'.edges.filter keep =
      (ws.edges.filter keep).filter fun e => ws'.has e.source && ws'.has e.target := by
  have hothers (edges : List Edge) :
      edges.filter keep = (edges.filter (·.kind != .stack)).filter keep := by
    rw [List.filter_filter]
    refine List.filter_congr fun e _ => ?_
    by_cases hkept : keep e = true
    · simp [hkept, hkeep e hkept]
    · rw [Bool.eq_false_iff.2 hkept, Bool.false_and]
  rw [hothers ws'.edges, h.others, List.filter_comm, ← hothers ws.edges]

theorem kind_of_fillsBranch {key : Option String} {e : Edge} (h : fillsBranch id key e = true) :
    e.kind ≠ .stack := by
  intro hkind
  rw [fillsBranch, hkind] at h
  cases h

/-- No branch is left that is run in place of one that began with a deleted ender. -/
theorem filter_branch_eq_nil (hleft : Left ws (Gone ws ws') ws') (hspares : ws.Spares ws')
    (hkept : ws'.has id = true) {key key' : String} {e : Edge} (he : e ∈ ws.edges)
    (hfills : fillsBranch id (some key) e = true) (hgone : Gone ws ws' e.target)
    (hkeys : key' = key ∨ (key = defaultBranch ∧ key' = "true")) :
    ws'.edges.filter (fillsBranch id (some key')) = [] := by
  obtain ⟨hkind, rfl, hkey⟩ := fillsBranch_iff.1 hfills
  obtain ⟨-, hothers⟩ := hspares.branch e he hkind hgone hkept
  rw [hleft.filter_eq fun _ => kind_of_fillsBranch, List.filter_eq_nil_iff]
  intro e' he' hstays
  obtain ⟨hmem, hfills'⟩ := List.mem_filter.1 he'
  obtain ⟨hkind', hsource', hkey'⟩ := fillsBranch_iff.1 hfills'
  have hslot : e'.StandsInFor e := by
    rw [Edge.StandsInFor, Edge.slot, Edge.slot, hkind, hkind', hkey, hkey']
    rcases hkeys with rfl | ⟨rfl, rfl⟩
    · exact .inl rfl
    · exact .inr ⟨rfl, rfl⟩
  have hgone' := hothers e' hmem hkind' hsource' hslot
  rw [hgone'.2, Bool.and_false] at hstays
  cases hstays

/-- **A branch of a block that is left** is what it was, or it is gone that began with a deleted
ender. -/
theorem branch_left (h : WellFormed ws) (hleft : Left ws (Gone ws ws') ws')
    (hkept : ws'.has id = true) (key : String) :
    (ws'.edges.filter (fillsBranch id (some key))).getLast? =
      (ws.edges.filter (fillsBranch id (some key))).getLast? ∨
    ∃ e ∈ ws.edges, fillsBranch id (some key) e = true ∧ Gone ws ws' e.target ∧
      (ws.edges.filter (fillsBranch id (some key))).getLast? = some e := by
  rcases hlast : (ws.edges.filter (fillsBranch id (some key))).getLast? with _ | e
  · rw [hleft.filter_eq fun _ => kind_of_fillsBranch, List.getLast?_eq_none_iff.1 hlast]
    exact .inl rfl
  obtain ⟨he, hfills⟩ := List.mem_filter.1 (List.mem_of_getLast? hlast)
  by_cases htarget : ws'.has e.target = true
  · obtain ⟨init, hinit⟩ := List.getLast?_eq_some_iff.1 hlast
    rw [hleft.filter_eq fun _ => kind_of_fillsBranch, hinit, List.filter_append,
      List.filter_singleton, (fillsBranch_iff.1 hfills).2.1, hkept, htarget]
    exact .inl List.getLast?_concat
  · exact .inr ⟨e, he, hfills, ⟨(h.ends e he).2, Bool.eq_false_iff.2 htarget⟩, rfl⟩

/-- **What is plugged in at a block that is left** is what it was, or it was a deleted ender. -/
theorem inputSource?_left (h : WellFormed ws) (hleft : Left ws (Gone ws ws') ws')
    (hkept : ws'.has id = true) (socket : String) :
    ws'.inputSource? id (some socket) = ws.inputSource? id (some socket) ∨
    (ws'.inputSource? id (some socket) = none ∧
      ∃ e ∈ ws.edges, fillsSocket id (some socket) e = true ∧ Gone ws ws' e.target ∧
        ws.inputSource? id (some socket) = some e.target) := by
  have hsource (ws : Workspace) : ws.inputSource? id (some socket) =
      (ws.edges.filter (fillsSocket id (some socket))).head?.map (·.target) := by
    rw [List.head?_filter]
    rfl
  have hkinds (e : Edge) (he : fillsSocket id (some socket) e = true) : e.kind ≠ .stack := by
    rw [(fillsSocket_iff.1 he).1]
    rintro ⟨⟩
  rw [hsource, hsource, hleft.filter_eq hkinds]
  have hsingle := h.socket id (some socket)
  rw [Single] at hsingle
  rcases hedges : ws.edges.filter (fillsSocket id (some socket)) with _ | ⟨e, _ | ⟨e', rest⟩⟩
  · exact .inl rfl
  · have hmem : e ∈ ws.edges.filter (fillsSocket id (some socket)) :=
      hedges ▸ List.mem_singleton_self e
    obtain ⟨he, hfills⟩ := List.mem_filter.1 hmem
    obtain ⟨-, hid, -⟩ := fillsSocket_iff.1 hfills
    rw [List.filter_singleton, hid, hkept, Bool.true_and]
    by_cases htarget : ws'.has e.target = true
    · rw [htarget]
      exact .inl rfl
    · rw [Bool.eq_false_iff.2 htarget]
      exact .inr ⟨rfl, e, he, hfills, ⟨(h.ends e he).2, Bool.eq_false_iff.2 htarget⟩, rfl⟩
  · rw [hedges] at hsingle
    simp at hsingle

/-! ## The program that is left -/

section Compiled

open Program

variable {p : Program} (h : WellFormed ws) (hdistinct : Distinct ws)
  (hp : build ws.blocks ws.edges = .ok p)
include h hdistinct hp

/-- What is reached through enders in a workspace is so in its program. -/
theorem Skips.compiled {place place' : Option String} (hskips : ws.Skips place place') :
    p.Skips place place' := by
  induction hskips with
  | here => exact .here
  | @past id b _ hb hcloses _ ih =>
    obtain ⟨n, hn, hnode⟩ := exists_compiled h hdistinct hp hb
    have hnext : n.next = ws.successor? id := by rw [hnode.next, block?_id hb]
    refine .past hn ?_ (hnext ▸ ih)
    rw [Node.closes, hnode.type]
    exact hcloses

/-- The nodes of blocks that are gone are enders. -/
theorem silent_of_gone (htidied : Tidied ws ws') (hgone : Gone ws ws' id) :
    Silent (p.node? id) := by
  refine silent_of_closes fun n hn => ?_
  obtain ⟨b, hb, hnode⟩ := exists_nodeOf h hdistinct hp hn
  rw [Node.closes, hnode.type]
  exact htidied.gone b (List.mem_of_find?_eq_some hb) (by rwa [block?_id hb])

end Compiled

/-- A slot in which the empty text is stored holds it. -/
theorem slotValue_empty (socket : String) : slotValue (.str socket) (.str "") = .str "" := by
  have htrim : Text.trim "" = "" := by decide +kernel
  have hliteral : readLiteral "" = .str "" := by
    rw [readLiteral, htrim]
    rfl
  simp only [slotValue, htrim, hliteral, ite_self]

section Spared

open Program

variable {p : Program} {n n' : Node} {b b' : Block} (h : WellFormed ws)
  (htidied : Tidied ws ws') (hspares : ws.Spares ws') (hb : ws.block? id = some b)
  (hb' : ws'.block? id = some b') (hnode : ws.NodeOf b n) (hnode' : ws'.NodeOf b' n')
include h htidied hspares hb hb' hnode hnode'

theorem branch?_left (key : String) : n'.branch? key = n.branch? key ∨
    ∃ e ∈ ws.edges, fillsBranch id (some key) e = true ∧ Gone ws ws' e.target ∧
      n.branch? key = some e.target ∧ n'.branch? key = none := by
  have hleft := htidied.left hspares.named
  have hkept := has_of_block? hb'
  rw [hnode.branch, hnode'.branch, block?_id hb, block?_id hb']
  rcases branch_left h hleft hkept key with hfirst | ⟨e, he, hfills, hgone, hlast⟩
  · exact .inl (congrArg _ hfirst)
  · refine .inr ⟨e, he, hfills, hgone, congrArg _ hlast, ?_⟩
    rw [filter_branch_eq_nil hleft hspares hkept he hfills hgone (.inl rfl)]
    rfl

/-- A slot of a block that is left holds what it held, or what is stored where a deleted ender was
plugged in. -/
theorem input_left (socket : String) : n'.input socket = n.input socket ∨
    ∃ gone, n.input socket = .ref gone ∧ Gone ws ws' gone ∧ (n'.input socket = .null ∨
      (n'.input socket = .str "" ∧ ¬ ws.AssignsAt id (some socket))) := by
  have hkept := has_of_block? hb'
  have htyped : b'.typedIn socket = b.typedIn socket := by
    rw [Block.typedIn, Block.stored?, Block.inputs_of_outline (htidied.outline_eq hb hb'),
      Block.typedIn, Block.stored?]
  rw [hnode.input, hnode'.input, block?_id hb, block?_id hb', htyped]
  rcases inputSource?_left h (htidied.left hspares.named) hkept socket with
    hfirst | ⟨hnone, e, he, hfills, hgone, hsome⟩
  · exact .inl (by rw [hfirst])
  refine .inr ⟨e.target, by rw [hsome]; rfl, hgone, ?_⟩
  rw [hnone, Option.map_none, Option.getD_none]
  obtain ⟨hkind, hsource, hsocket⟩ := fillsSocket_iff.1 hfills
  have hstored : ws.stored? e.source e.socket = b.stored? (some socket) := by
    rw [hsource, hsocket, stored?, hb]
    rfl
  have hspared := hspares.input e he hkind hgone (hsource ▸ hkept)
  rw [hstored, hsource, hsocket] at hspared
  rw [Block.typedIn]
  rcases hvalue : b.stored? (some socket) with _ | v
  · exact .inl rfl
  rcases hspared v hvalue with rfl | ⟨rfl, hassigns⟩
  · exact .inl rfl
  · exact .inr ⟨slotValue_empty socket, hassigns⟩

variable (hdistinct : Distinct ws) (hp : build ws.blocks ws.edges = .ok p)
include hdistinct hp

omit htidied hb hnode hnode' in
/-- A branch that began with a deleted ender has nothing in it but enders. -/
theorem skips_of_gone {key : String} {e : Edge} (he : e ∈ ws.edges)
    (hfills : fillsBranch id (some key) e = true) (hgone : Gone ws ws' e.target) :
    p.Skips (some e.target) none := by
  obtain ⟨hkind, rfl, -⟩ := fillsBranch_iff.1 hfills
  obtain ⟨hskips, -⟩ := hspares.branch e he hkind hgone (has_of_block? hb')
  exact hskips.compiled h hdistinct hp

theorem skips_branch (key : String) : p.Skips (n.branch? key) (n'.branch? key) := by
  rcases branch?_left h htidied hspares hb hb' hnode hnode' key with
    hfirst | ⟨e, he, hfills, hgone, hsome, hnone⟩
  · rw [hfirst]
    exact .here
  · rw [hsome, hnone]
    exact skips_of_gone h hspares hb' hdistinct hp he hfills hgone

theorem skips_loopBody : p.Skips (loopBody n) (loopBody n') := by
  have htrue := skips_branch h htidied hspares hb hb' hnode hnode' hdistinct hp "true"
  rw [loopBody, loopBody]
  rcases branch?_left h htidied hspares hb hb' hnode hnode' "body" with
    hfirst | ⟨e, he, hfills, hgone, hsome, hnone⟩
  · rw [hfirst]
    rcases n.branch? "body" with _ | body
    · exact htrue
    · exact .here
  · -- no other branch is run in its place
    have hleft := htidied.left hspares.named
    have htrue : n'.branch? "true" = none := by
      rw [hnode'.branch, block?_id hb', filter_branch_eq_nil hleft hspares (has_of_block? hb') he
        hfills hgone (.inr ⟨rfl, rfl⟩)]
      rfl
    rw [hsome, hnone, htrue]
    exact skips_of_gone h hspares hb' hdistinct hp he hfills hgone

/-- **The node of a block that is left** goes past the deleted enders. -/
theorem bypassed_of_nodeOf : p.Bypassed (Gone ws ws') n n' := by
  have hleft := htidied.left hspares.named
  have houtline := htidied.outline_eq hb hb'
  have hinput := input_left h htidied hspares hb hb' hnode hnode'
  refine ⟨?_, ?_, skips_branch h htidied hspares hb hb' hnode hnode' hdistinct hp,
    skips_loopBody h htidied hspares hb hb' hnode hnode' hdistinct hp, fun socket => ?_,
    fun hset hempty => ?_⟩
  · rw [Node.closes, Node.closes, hnode.type, hnode'.type]
    rcases hcloses : b.closes with _ | _
    · exact .inl (Block.type_of_outline houtline hcloses)
    · exact .inr ⟨hcloses, (Block.closes_of_outline houtline).trans hcloses⟩
  · rw [hnode.next, hnode'.next, block?_id hb, block?_id hb']
    exact (hleft.successor id (has_of_block? hb')).compiled h hdistinct hp
  · rcases hinput socket with hfirst | ⟨gone, href, hgone, hblank⟩
    · exact .inl hfirst
    · refine .inr ⟨gone, href, hgone, Value.unblank_eq_null.2 ?_⟩
      exact hblank.imp_right And.left
  · rcases hinput "value" with hfirst | ⟨gone, -, -, hnull | ⟨-, hassigns⟩⟩
    · rw [← hfirst, hempty]
    · cases hempty.symm.trans hnull
    · exact absurd ⟨rfl, b, hb, hnode.type ▸ hset⟩ hassigns

end Spared

section Left

open Program

variable {p q : Program} (h : WellFormed ws) (hdistinct : Distinct ws) (htidied : Tidied ws ws')
  (hspares : ws.Spares ws') (hp : build ws.blocks ws.edges = .ok p)
  (hq : build ws'.blocks ws'.edges = .ok q)
include h hdistinct htidied hspares hp hq

theorem bypassed_of_spares {n n' : Node} (hn : p.node? id = some n) (hn' : q.node? id = some n') :
    p.Bypassed (Gone ws ws') n n' := by
  have hleft := htidied.left hspares.named
  obtain ⟨b, hb, hnode⟩ := exists_nodeOf h hdistinct hp hn
  obtain ⟨b', hb', hnode'⟩ := exists_nodeOf hleft.wellFormed htidied.distinct hq hn'
  exact bypassed_of_nodeOf h htidied hspares hb hb' hnode hnode' hdistinct hp

/-- Both programs have the same reporters. -/
theorem sameReporters_of_spares : SameReporters (Gone ws ws') p.nodes q.nodes := by
  have hleft := htidied.left hspares.named
  refine ⟨fun id => silent_of_gone h hdistinct hp htidied, fun id => ?_⟩
  rcases hn : p.node? id with _ | n
  · -- only enders have been added
    refine .inl ⟨silent_of_closes fun n hn' => ?_, silent_of_closes fun n' hn' => ?_⟩
    · cases hn.symm.trans hn'
    obtain ⟨b', hb', hnode'⟩ := exists_nodeOf hleft.wellFormed htidied.distinct hq hn'
    rw [Node.closes, hnode'.type]
    rcases htidied.exists_outline hb' with ⟨b, hb, -⟩ | ⟨-, hcloses⟩
    · obtain ⟨n, hn'', -⟩ := exists_compiled h hdistinct hp hb
      cases hn.symm.trans hn''
    · exact hcloses
  rcases hn' : q.node? id with _ | n'
  · refine .inl ⟨silent_of_gone h hdistinct hp htidied ⟨?_, ?_⟩, silent_of_closes fun n' hn'' => ?_⟩
    · rw [has, ← isSome_node?_build hp, hn]
      rfl
    · rw [has, ← isSome_node?_build hq, hn']
      rfl
    · cases hn'.symm.trans hn''
  have hboth := bypassed_of_spares h hdistinct htidied hspares hp hq hn hn'
  rcases hboth.type with htype | ⟨hcloses, hcloses'⟩
  · exact .inr ⟨n, n', hn, hn', htype, hboth.slot⟩
  · refine .inl ⟨silent_of_closes fun m hm => ?_, silent_of_closes fun m hm => ?_⟩
    · rwa [← Option.some.inj (hn.symm.trans hm)]
    · rwa [← Option.some.inj (hn'.symm.trans hm)]

/-- **What is left of a workspace is compiled to a program that goes past enders** of the one
before, if this is spared. -/
theorem bypasses_of_spares : p.Bypasses (Gone ws ws') q := by
  have hleft := htidied.left hspares.named
  refine ⟨?_, fun id n n' => bypassed_of_spares h hdistinct htidied hspares hp hq,
    sameReporters_of_spares h hdistinct htidied hspares hp hq, closed_build hq⟩
  rw [entry_eq h hdistinct hp, entry_eq hleft.wellFormed htidied.distinct hq]
  by_cases htop : ∃ id, Gone ws ws' id ∧ ws.predecessor? id = none
  · exact (hspares.start htop).compiled h hdistinct hp
  · rw [htidied.start?_eq h hleft fun id hgone hnone => htop ⟨id, hgone, hnone⟩]
    exact .here

end Left

end Workspace

end BlockProgram
