import BlockProgram.Graph.Walk
import Mathlib.Data.Set.Finite.List
import Mathlib.Logic.Relation
import Mathlib.Order.WellFoundedSet

/-!
# Reachability along edges

The search `reaches` answers exactly whether its goal can be reached (`reaches_iff`), although
it throws the edges of a visited block away: a way that comes back to the block can be entered
where it leaves the block for the last time (`walk_past`).

An edge list is **acyclic** if no block can be reached from itself by one edge or more. Fewer
edges stay acyclic, and so do those with one more exactly if it does not close a cycle
(`acyclic_append_iff`). Following the edges of an acyclic list comes to an end, in either direction
(`Acyclic.wellFounded`, `Acyclic.wellFounded_back`).

When the new edge takes the place of others that share its source or its target, it makes no
difference whether the way that would close a cycle is looked for before or after these are gone
(`acyclic_replace_iff`): in an acyclic list no such way uses them (`walk_avoiding`).
-/

namespace BlockProgram

open Relation

variable {edges edges' : List Edge} {a b id goal : String}

/-- Whether an edge of any kind leads from a block to another. -/
def Joins (edges : List Edge) (a b : String) : Prop := ∃ e ∈ edges, e.source = a ∧ e.target = b

theorem Joins.mono (h : ∀ e ∈ edges, e ∈ edges') (hab : Joins edges a b) : Joins edges' a b := by
  obtain ⟨e, he, hends⟩ := hab
  exact ⟨e, h e he, hends⟩

theorem joins_append {e : Edge} :
    Joins (edges ++ [e]) a b ↔ Joins edges a b ∨ e.source = a ∧ e.target = b := by
  simp only [Joins, List.mem_append, List.mem_singleton]
  constructor
  · rintro ⟨e', he' | rfl, hends⟩
    · exact .inl ⟨e', he', hends⟩
    · exact .inr hends
  · rintro (⟨e', he', hends⟩ | hends)
    · exact ⟨e', .inl he', hends⟩
    · exact ⟨e, .inr rfl, hends⟩

theorem joins_iff_mem_leaving : Joins edges a b ↔ b ∈ (leaving edges a).map (·.target) := by
  simp only [Joins, leaving, List.mem_map, List.mem_filter, beq_iff_eq]
  constructor
  · rintro ⟨e, he, hsource, htarget⟩
    exact ⟨e, ⟨he, hsource⟩, htarget⟩
  · rintro ⟨e, ⟨he, hsource⟩, htarget⟩
    exact ⟨e, he, hsource, htarget⟩

theorem joins_notLeaving : Joins (notLeaving edges id) a b ↔ Joins edges a b ∧ a ≠ id := by
  simp only [Joins, notLeaving, List.mem_filter, bne_iff_ne]
  constructor
  · rintro ⟨e, ⟨he, hid⟩, rfl, htarget⟩
    exact ⟨⟨e, he, rfl, htarget⟩, hid⟩
  · rintro ⟨⟨e, he, rfl, htarget⟩, hid⟩
    exact ⟨e, ⟨he, hid⟩, rfl, htarget⟩

/-! ## The search -/

/-- A way to the goal either never leaves a block or leaves it for the last time somewhere. -/
theorem walk_past (h : ReflTransGen (Joins edges) a goal) (hgoal : id ≠ goal) :
    (a ≠ id ∧ ReflTransGen (Joins (notLeaving edges id)) a goal) ∨
      ∃ b, Joins edges id b ∧ ReflTransGen (Joins (notLeaving edges id)) b goal := by
  -- from the goal back, so that the block found first is the one left last
  induction h using ReflTransGen.head_induction_on with
  | refl => exact .inl ⟨hgoal.symm, .refl⟩
  | @head a b hab _ ih =>
    rcases ih with ⟨-, hwalk⟩ | hlast
    · by_cases ha : a = id
      · exact .inr ⟨b, ha ▸ hab, hwalk⟩
      · exact .inl ⟨ha, .head (joins_notLeaving.2 ⟨hab, ha⟩) hwalk⟩
    · exact .inr hlast

theorem walk_of_notLeaving (h : ReflTransGen (Joins (notLeaving edges id)) a b) :
    ReflTransGen (Joins edges) a b :=
  .mono (fun _ _ hab => (joins_notLeaving.1 hab).1) _ _ h

/-- **The search finds exactly what can be reached.** -/
theorem reaches_iff (edges : List Edge) (goal : String) (pending : List String) :
    reaches edges goal pending = true ↔ ∃ a ∈ pending, ReflTransGen (Joins edges) a goal := by
  fun_induction reaches edges goal pending with
  | case1 => simp
  | case2 edges id rest h =>
    rw [beq_iff_eq] at h
    exact ⟨fun _ => ⟨id, List.mem_cons_self, h ▸ .refl⟩, fun _ => rfl⟩
  | case3 edges id rest h ih =>
    -- what leaves the block joins the pending ones, and its edges are used up
    have hgoal : id ≠ goal := by simpa using h
    rw [ih]
    constructor
    · rintro ⟨a, ha, hwalk⟩
      rcases List.mem_append.1 ha with ha | ha
      · exact ⟨id, List.mem_cons_self,
          .head (joins_iff_mem_leaving.2 ha) (walk_of_notLeaving hwalk)⟩
      · exact ⟨a, List.mem_cons_of_mem _ ha, walk_of_notLeaving hwalk⟩
    · rintro ⟨a, ha, hwalk⟩
      rcases walk_past hwalk hgoal with ⟨hne, hwalk⟩ | ⟨b, hb, hwalk⟩
      · have harest : a ∈ rest := (List.mem_cons.1 ha).resolve_left hne
        exact ⟨a, List.mem_append_right _ harest, hwalk⟩
      · exact ⟨b, List.mem_append_left _ (joins_iff_mem_leaving.1 hb), hwalk⟩

/-! ## Acyclic edges -/

/-- No block can be reached from itself by one edge or more. -/
def Acyclic (edges : List Edge) : Prop := ∀ id, ¬ TransGen (Joins edges) id id

theorem acyclic_nil : Acyclic [] := by
  intro id h
  obtain ⟨_, ⟨e, he, -⟩, -⟩ := TransGen.head'_iff.1 h
  exact List.not_mem_nil he

theorem Acyclic.mono (h : Acyclic edges') (hsub : ∀ e ∈ edges, e ∈ edges') : Acyclic edges :=
  fun id hid => h id (.mono (fun _ _ => Joins.mono hsub) _ _ hid)

/-- A list is acyclic if no edge can be come back to. -/
theorem acyclic_iff : Acyclic edges ↔ ∀ e ∈ edges, reaches edges e.source [e.target] = false := by
  have hback (e : Edge) : reaches edges e.source [e.target] = true ↔
      ReflTransGen (Joins edges) e.target e.source := by
    rw [reaches_iff]
    simp only [List.mem_singleton, exists_eq_left]
  constructor
  · intro h e he
    refine Bool.eq_false_iff.2 fun hreaches => ?_
    exact h e.source (.head' ⟨e, he, rfl, rfl⟩ ((hback e).1 hreaches))
  · intro h id hcycle
    obtain ⟨_, ⟨e, he, rfl, rfl⟩, hwalk⟩ := TransGen.head'_iff.1 hcycle
    rw [← hback, h e he] at hwalk
    cases hwalk

instance : Decidable (Acyclic edges) := decidable_of_iff _ acyclic_iff.symm

/-- A way that may use one more edge either does not, or comes to its source and goes on from its
target. -/
theorem walk_append {e : Edge} (h : TransGen (Joins (edges ++ [e])) a b) :
    TransGen (Joins edges) a b ∨
      ReflTransGen (Joins edges) a e.source ∧ ReflTransGen (Joins edges) e.target b := by
  induction h with
  | single hab =>
    rcases joins_append.1 hab with hab | ⟨rfl, rfl⟩
    · exact .inl (.single hab)
    · exact .inr ⟨.refl, .refl⟩
  | tail _ hbc ih =>
    rcases joins_append.1 hbc with hbc | ⟨rfl, rfl⟩
    · rcases ih with hab | ⟨has, htb⟩
      · exact .inl (hab.tail hbc)
      · exact .inr ⟨has, htb.tail hbc⟩
    · rcases ih with hab | ⟨has, -⟩
      · exact .inr ⟨hab.to_reflTransGen, .refl⟩
      · exact .inr ⟨has, .refl⟩

/-- **An edge whose source cannot be reached from its target closes no cycle.** -/
theorem Acyclic.append {e : Edge} (h : Acyclic edges)
    (he : ¬ ReflTransGen (Joins edges) e.target e.source) : Acyclic (edges ++ [e]) := by
  intro id hid
  rcases walk_append hid with hid | ⟨hsource, htarget⟩
  · exact h id hid
  · exact he (htarget.trans hsource)

theorem acyclic_append_iff (h : Acyclic edges) {e : Edge} :
    Acyclic (edges ++ [e]) ↔ ¬ ReflTransGen (Joins edges) e.target e.source := by
  refine ⟨fun hnew hback => ?_, h.append⟩
  have hjoin : Joins (edges ++ [e]) e.source e.target := joins_append.2 (.inr ⟨rfl, rfl⟩)
  exact hnew e.source (.head' hjoin (.mono (fun _ _ hab => joins_append.2 (.inl hab)) _ _ hback))

/-- A relation between finitely many ids is well-founded if it has no cycle. -/
theorem wellFounded_of_acyclic {ids : List String} {r : String → String → Prop}
    (hends : ∀ {a b}, r a b → a ∈ ids ∧ b ∈ ids) (hacyclic : ∀ id, ¬ TransGen r id id) :
    WellFounded r := by
  have hstrict : IsStrictOrder String (TransGen r) :=
    { irrefl := hacyclic, trans := fun _ _ _ hab hbc => hab.trans hbc }
  have hids : Set.WellFoundedOn { id | id ∈ ids } (TransGen r) := ids.finite_toSet.wellFoundedOn
  refine Subrelation.wf (fun {a b} hab => ?_) (Set.wellFoundedOn_iff.1 hids)
  exact ⟨.single hab, hends hab⟩

theorem Joins.ends (h : Joins edges a b) :
    a ∈ edges.map (·.source) ++ edges.map (·.target) ∧
      b ∈ edges.map (·.source) ++ edges.map (·.target) := by
  obtain ⟨e, he, rfl, rfl⟩ := h
  exact ⟨List.mem_append_left _ (List.mem_map_of_mem he),
    List.mem_append_right _ (List.mem_map_of_mem he)⟩

theorem Acyclic.wellFounded (h : Acyclic edges) : WellFounded (Joins edges) :=
  wellFounded_of_acyclic Joins.ends h

theorem Acyclic.wellFounded_back (h : Acyclic edges) :
    WellFounded fun b a => Joins edges a b :=
  wellFounded_of_acyclic (fun hjoin => hjoin.ends.symm) fun id hcycle =>
    h id (transGen_swap.1 hcycle)

/-! ## One edge in place of others -/

/-- A way through an acyclic list neither leaves its end nor comes back to its beginning, so it does
without the edges that do. -/
theorem walk_avoiding (h : Acyclic edges) {rivals : Edge → Bool}
    (hrivals : ∀ e ∈ edges, rivals e = true → e.source = b ∨ e.target = a)
    (hwalk : ReflTransGen (Joins edges) a b) :
    ReflTransGen (Joins (edges.filter fun e => !rivals e)) a b := by
  -- on the rest of the way, whose first block the beginning has led to
  suffices ∀ c, ReflTransGen (Joins edges) c b → ReflTransGen (Joins edges) a c →
      ReflTransGen (Joins (edges.filter fun e => !rivals e)) c b from this a hwalk .refl
  intro c hrest
  induction hrest using ReflTransGen.head_induction_on with
  | refl =>
    intro _
    exact .refl
  | @head c d hcd hdb ih =>
    intro hac
    obtain ⟨e, he, rfl, rfl⟩ := hcd
    have hjoin : Joins edges e.source e.target := ⟨e, he, rfl, rfl⟩
    have hkept : rivals e = false := by
      refine Bool.eq_false_iff.2 fun hrival => ?_
      rcases hrivals e he hrival with hsource | htarget
      · rw [hsource] at hjoin
        exact h b (.head' hjoin hdb)
      · rw [htarget] at hjoin
        exact h a (.tail' hac hjoin)
    exact .head ⟨e, List.mem_filter.2 ⟨he, by rw [hkept]; rfl⟩, rfl, rfl⟩ (ih (hac.tail hjoin))

/-- **Whether an edge closes a cycle does not depend on the edges that it takes the place of**, as
these share its source or its target. -/
theorem acyclic_replace_iff (h : Acyclic edges) {rivals : Edge → Bool} {e : Edge}
    (hrivals : ∀ e' ∈ edges, rivals e' = true → e'.source = e.source ∨ e'.target = e.target) :
    Acyclic ((edges.filter fun e' => !rivals e') ++ [e]) ↔
      ¬ ReflTransGen (Joins edges) e.target e.source := by
  have hfewer : Acyclic (edges.filter fun e' => !rivals e') :=
    h.mono fun _ he => (List.mem_filter.1 he).1
  rw [acyclic_append_iff hfewer]
  refine not_congr ⟨fun hback => ?_, walk_avoiding h hrivals⟩
  exact .mono (fun _ _ => Joins.mono fun _ he => (List.mem_filter.1 he).1) _ _ hback

end BlockProgram
