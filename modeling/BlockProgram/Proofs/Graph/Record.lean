import BlockProgram.Graph.Record

/-!
# What checked records give

A check that passes has passed in every part (`Record.part_ok`). So a record gives a block, or a
graph, whose fields are just what the checks of these fields give (`Record.blockOfFields_iff`,
`Record.graph_iff`), and a list of records gives what the check of each item gives
(`Record.items_ok`, `Record.items_map_iff`).
-/

namespace BlockProgram.Record

/-! ## Parts -/

theorem part_ok {α β : Type} {f : Checked (α → β)} {a : Checked α} {b : β}
    (h : Checked.part f a = .ok b) : ∃ g c, f = .ok g ∧ a = .ok c ∧ b = g c := by
  simp only [Checked.part] at h
  split at h <;> cases h
  exact ⟨_, _, rfl, rfl, rfl⟩

theorem under_ok {α : Type} {steps : List PathStep} {check : Checked α} {a : α}
    (h : Checked.under steps check = .ok a) : check = .ok a := by
  simp only [Checked.under] at h
  split at h
  · exact h
  · cases h

theorem map_ok {α β : Type} {check : Checked α} {f : α → β} {b : β} (h : check.map f = .ok b) :
    ∃ a, check = .ok a ∧ b = f a := by
  cases check with
  | error issues => cases h
  | ok a =>
    cases h
    exact ⟨a, rfl, rfl⟩

/-! ## Fields -/

theorem optional_ok {α : Type} {r : Dict} {name : String} {absent a : α}
    {check : Value → Checked α} (h : optional r name absent check = .ok a) :
    a = absent ∨ ∃ v, r.named? name = some v ∧ check v = .ok a := by
  simp only [optional] at h
  split at h
  · rename_i v hv
    exact .inr ⟨v, hv, under_ok h⟩
  · cases h
    exact .inl rfl

theorem optional_iff {α : Type} {r : Dict} {name : String} {absent a : α} {v : Value}
    {check : Value → Checked α} (hv : r.named? name = some v) :
    optional r name absent check = .ok a ↔ check v = .ok a := by
  simp only [optional, hv]
  refine ⟨under_ok, fun h => ?_⟩
  rw [h]
  rfl

theorem namedValues_eq {v named : Value} (h : namedValues v = .ok named) :
    named = v ∧ ∃ entries, named = .dict entries := by
  simp only [namedValues] at h
  split at h
  · split at h
    · cases h
      exact ⟨rfl, _, rfl⟩
    · cases h
  · cases h

theorem dict_of_optional {r : Dict} {name : String} {named : Value}
    (h : optional r name (.dict []) namedValues = .ok named) :
    ∃ entries, named = .dict entries := by
  rcases optional_ok h with rfl | ⟨v, -, hcheck⟩
  · exact ⟨[], rfl⟩
  · exact (namedValues_eq hcheck).2

/-! ## Records -/

/-- A record gives a block whose fields are what their checks give. -/
theorem blockOfFields_iff {origin : Origin} {r : Dict} {b : Block} :
    blockOfFields origin r = .ok b ↔
      required r "id" [] text = .ok b.id ∧
      (required r "type" [] text).map Value.str = .ok b.type ∧
      optional r "inputs" (.dict []) namedValues = .ok b.inputs ∧
      optional r "x" (.float 0) (coordinateValue origin) = .ok b.x ∧
      optional r "y" (.float 0) (coordinateValue origin) = .ok b.y ∧
      optional r "w" .null (sizeValue origin) = .ok b.w ∧
      optional r "h" .null (sizeValue origin) = .ok b.h ∧
      optional r "data" (.dict []) namedValues = .ok b.data := by
  constructor
  · intro h
    obtain ⟨_, _, h₁, hdata, rfl⟩ := part_ok h
    obtain ⟨_, _, h₂, hheight, rfl⟩ := part_ok h₁
    obtain ⟨_, _, h₃, hwidth, rfl⟩ := part_ok h₂
    obtain ⟨_, _, h₄, hy, rfl⟩ := part_ok h₃
    obtain ⟨_, _, h₅, hx, rfl⟩ := part_ok h₄
    obtain ⟨_, _, h₆, hinputs, rfl⟩ := part_ok h₅
    obtain ⟨_, _, h₇, htype, rfl⟩ := part_ok h₆
    obtain ⟨_, _, h₈, hid, rfl⟩ := part_ok h₇
    cases h₈
    exact ⟨hid, htype, hinputs, hx, hy, hwidth, hheight, hdata⟩
  · rintro ⟨hid, htype, hinputs, hx, hy, hwidth, hheight, hdata⟩
    rw [blockOfFields, hid, htype, hinputs, hx, hy, hwidth, hheight, hdata]
    rfl

/-- A record gives a graph whose blocks and edges are what their checks give. -/
theorem graph_iff {origin : Origin} {r : Dict} {g : ProgramGraph} :
    graph origin (.dict r) = .ok g ↔
      optional r "blocks" [] (records (block origin)) = .ok g.blocks ∧
      optional r "edges" [] (records edge) = .ok g.edges := by
  constructor
  · intro h
    obtain ⟨_, _, h₁, hedges, rfl⟩ := part_ok h
    obtain ⟨_, _, h₂, hblocks, rfl⟩ := part_ok h₁
    cases h₂
    exact ⟨hblocks, hedges⟩
  · rintro ⟨hblocks, hedges⟩
    rw [graph, hblocks, hedges]
    rfl

/-! ## Lists of records -/

/-- What a check gives for each of the items of a list. -/
theorem items_ok {α β : Type} {check : α → Checked β} {i : Nat} {as : List α} {bs : List β}
    (h : Checked.items check i as = .ok bs) : ∀ b ∈ bs, ∃ a ∈ as, check a = .ok b := by
  induction as generalizing i bs with
  | nil =>
    cases h
    exact fun _ hb => absurd hb List.not_mem_nil
  | cons a rest ih =>
    obtain ⟨_, more, hfirst, hmore, rfl⟩ := part_ok h
    obtain ⟨_, b, hcons, hb, rfl⟩ := part_ok hfirst
    cases hcons
    refine List.forall_mem_cons.2 ⟨⟨a, List.mem_cons_self, under_ok hb⟩, fun b' hb' => ?_⟩
    obtain ⟨a', ha', hcheck⟩ := ih hmore b' hb'
    exact ⟨a', List.mem_cons_of_mem _ ha', hcheck⟩

theorem items_map_iff {α β : Type} {check : α → Checked β} {f : β → α} {i : Nat} {bs : List β} :
    Checked.items check i (bs.map f) = .ok bs ↔ ∀ b ∈ bs, check (f b) = .ok b := by
  induction bs generalizing i with
  | nil => exact ⟨fun _ => List.forall_mem_nil _, fun _ => rfl⟩
  | cons b rest ih =>
    rw [List.forall_mem_cons, ← @ih (i + 1)]
    constructor
    · intro h
      obtain ⟨_, more, hfirst, hmore, heq⟩ := part_ok h
      obtain ⟨_, b', hcons, hb, rfl⟩ := part_ok hfirst
      cases hcons
      obtain ⟨rfl, rfl⟩ := List.cons.inj heq
      exact ⟨under_ok hb, hmore⟩
    · rintro ⟨hfirst, hmore⟩
      rw [List.map_cons, Checked.items, hfirst, hmore]
      rfl

end BlockProgram.Record
