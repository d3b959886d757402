import BlockProgram.Graph.Walk
import Mathlib.Data.Set.Card
import Mathlib.Logic.Relation

/-!
# Walks that stop where they would come back

Every id has at most one successor along stack edges: the target of the last one that leaves it
(`successors`). A walk along successors goes on until there is none, or until the next one is an id
that it has been at (`Trail`). On edges that lead into a circle it goes once around.

* The walk never is at an id twice, and is at all ids that steps along successors lead to
  (`Trail.nodup`, `Trail.mem_iff`). So its length is the number of these (`Trail.length_eq`).
* Its ids are those that one step more leads to each time (`Trail.getElem?_eq`).

The walk `stackWalk` does not look back at the ids that it has been at, but throws away the edges
that it cannot need again. It is such a walk all the same (`trail_stackWalk`).
-/

namespace BlockProgram

open Relation

variable {edges : List Edge} {next : String → Option String} {seen ids : List String}
  {x y : String}

/-! ## Successors -/

/-- The successors of all ids. A stack edge takes the place of those before it with the same
source. -/
def successors (edges : List Edge) : String → Option String :=
  edges.foldl (fun next e =>
    if e.kind = .stack then Function.update next e.source (some e.target) else next) fun _ => none

theorem successors_append (edges : List Edge) (e : Edge) (x : String) :
    successors (edges ++ [e]) x =
      if e.kind = .stack ∧ e.source = x then some e.target else successors edges x := by
  rw [successors, List.foldl_append]
  by_cases hkind : e.kind = .stack
  · by_cases hsource : e.source = x
    · simp [hkind, hsource]
    · simp [hkind, hsource, Function.update_of_ne (Ne.symm hsource), successors]
  · simp [hkind, successors]

theorem lastSuccessor?_append (edges : List Edge) (e : Edge) (x : String) :
    lastSuccessor? (edges ++ [e]) x =
      if e.kind = .stack ∧ e.source = x then some e.target else lastSuccessor? edges x := by
  rw [lastSuccessor?, List.filter_append]
  by_cases hmatch : e.kind = .stack ∧ e.source = x
  · simp [hmatch]
  · simp [hmatch, lastSuccessor?]

theorem lastSuccessor?_eq_successors (edges : List Edge) :
    lastSuccessor? edges = successors edges := by
  funext x
  induction edges using List.reverseRecOn with
  | nil => rfl
  | append_singleton edges e ih => rw [lastSuccessor?_append, successors_append, ih]

theorem lastSuccessor?_notLeaving (edges : List Edge) (h : y ≠ x) :
    lastSuccessor? (notLeaving edges x) y = lastSuccessor? edges y := by
  rw [lastSuccessor?, lastSuccessor?, notLeaving, List.filter_filter]
  congr 2
  refine List.filter_congr fun e _ => ?_
  by_cases hsource : e.source = y
  · simp [hsource, h]
  · simp [hsource]

/-! ## Walks -/

/-- The id that a number of steps along successors leads to. -/
def descend (next : String → Option String) : Nat → String → Option String
  | 0, x => some x
  | k + 1, x => (next x).bind (descend next k)

/-- A walk from an id on along successors, given the ids that it has been at before. -/
inductive Trail (next : String → Option String) : List String → String → List String → Prop
  /-- there is no successor -/
  | last {seen : List String} {x : String} : next x = none → Trail next seen x [x]
  /-- the walk would come back -/
  | back {seen : List String} {x y : String} :
    next x = some y → y ∈ x :: seen → Trail next seen x [x]
  /-- the walk goes on -/
  | onward {seen ids : List String} {x y : String} :
    next x = some y → y ∉ x :: seen → Trail next (x :: seen) y ids → Trail next seen x (x :: ids)

namespace Trail

/-- The ids of a walk are where one step after the other leads. -/
theorem getElem?_eq (h : Trail next seen x ids) {k : Nat} (hk : k < ids.length) :
    ids[k]? = descend next k x := by
  induction h generalizing k with
  | last | back =>
    obtain rfl : k = 0 := by simpa using hk
    rfl
  | onward hnext _ _ ih =>
    cases k with
    | zero => rfl
    | succ k =>
      rw [List.getElem?_cons_succ, ih (by simpa using hk), descend, hnext]
      rfl

/-- The walk has not been at any of its ids before. -/
theorem not_mem_seen (h : Trail next seen x ids) (hx : x ∉ seen) : ∀ y ∈ ids, y ∉ seen := by
  induction h with
  | last | back => simpa using hx
  | onward _ hnew _ ih =>
    intro y hy
    rcases List.mem_cons.1 hy with rfl | hy
    · exact hx
    · intro hseen
      exact ih hnew y hy (List.mem_cons_of_mem _ hseen)

theorem nodup (h : Trail next seen x ids) : ids.Nodup := by
  induction h with
  | last | back => simp
  | onward _ hnew hrest ih =>
    refine List.nodup_cons.2 ⟨?_, ih⟩
    intro hback
    exact hrest.not_mem_seen hnew _ hback List.mem_cons_self

/-- A walk leads on only to ids that it has been at. -/
theorem closed (h : Trail next seen x ids) {a b : String} (ha : a ∈ ids) (hab : next a = some b) :
    b ∈ ids ∨ b ∈ seen := by
  induction h with
  | last hlast =>
    rw [List.mem_singleton.1 ha, hlast] at hab
    cases hab
  | back hnext hback =>
    rw [List.mem_singleton.1 ha, hnext] at hab
    cases hab
    simpa using hback
  | @onward seen ids x y hnext _ hrest ih =>
    rcases List.mem_cons.1 ha with rfl | ha
    · rw [hnext] at hab
      cases hab
      left
      cases hrest <;> simp
    · rcases ih ha with hmem | hmem
      · exact .inl (List.mem_cons_of_mem _ hmem)
      · rcases List.mem_cons.1 hmem with rfl | hmem
        · exact .inl List.mem_cons_self
        · exact .inr hmem

theorem head_mem (h : Trail next seen x ids) : x ∈ ids := by
  cases h <;> exact List.mem_cons_self

/-- **A walk is at all ids that can be reached.** -/
theorem mem_iff (h : Trail next [] x ids) :
    y ∈ ids ↔ ReflTransGen (fun a b => next a = some b) x y := by
  constructor
  · intro hy
    generalize [] = seen at h
    induction h with
    | last | back =>
      rw [List.mem_singleton.1 hy]
    | onward hnext _ _ ih =>
      rcases List.mem_cons.1 hy with rfl | hy
      · exact .refl
      · exact .head hnext (ih hy)
  · intro hwalk
    induction hwalk with
    | refl => exact h.head_mem
    | tail _ hab ih => exact (h.closed ih hab).resolve_right List.not_mem_nil

/-- **Its length is the number of these.** -/
theorem length_eq (h : Trail next [] x ids) :
    ids.length = {y | ReflTransGen (fun a b => next a = some b) x y}.ncard := by
  have hset : {y | ReflTransGen (fun a b => next a = some b) x y} = (ids.toFinset : Set String) := by
    ext y
    simp [h.mem_iff]
  rw [hset, Set.ncard_coe_finset, List.toFinset_card_of_nodup h.nodup]

/-- The last id, from which a step leads back if it leads anywhere. -/
theorem exists_last (h : Trail next [] x ids) : ∃ tail, ids.getLast? = some tail ∧
    descend next (ids.length - 1) x = some tail ∧
    ∀ y, next tail = some y → ∃ k < ids.length, descend next k x = some y := by
  have hne : ids ≠ [] := List.ne_nil_of_mem h.head_mem
  have hlast := List.getLast?_eq_some_getLast hne
  refine ⟨ids.getLast hne, hlast, ?_, ?_⟩
  · have hlength := List.length_pos_of_ne_nil hne
    rw [← h.getElem?_eq (by omega), ← List.getLast?_eq_getElem?, hlast]
  · intro y hy
    have hmem := (h.closed (List.getLast_mem hne) hy).resolve_right List.not_mem_nil
    obtain ⟨k, hk⟩ := List.mem_iff_getElem?.1 hmem
    have hlt : k < ids.length := (List.getElem?_eq_some_iff.1 hk).1
    exact ⟨k, hlt, (h.getElem?_eq hlt).symm.trans hk⟩

end Trail

/-! ## The walk that throws edges away -/

/-- **Edges that leave what has been seen are not missed.** -/
theorem trail_walkFrom (edges : List Edge) (hx : x ∉ seen)
    (hkept : ∀ y, y ∉ seen → lastSuccessor? edges y = next y) :
    Trail next seen x (walkFrom edges (x :: seen) x) := by
  generalize hvisited : x :: seen = visited
  fun_induction walkFrom edges visited x generalizing seen with
  | case1 edges visited x hlast => exact .last ((hkept x hx).symm.trans hlast)
  | case2 edges visited x y hnext hback =>
    subst hvisited
    exact .back ((hkept x hx).symm.trans hnext) (List.contains_iff_mem.1 hback)
  | case3 edges visited x y hnext hnew ih =>
    subst hvisited
    have hfresh : y ∉ x :: seen := by
      intro hback
      exact hnew (List.contains_iff_mem.2 hback)
    refine .onward ((hkept x hx).symm.trans hnext) hfresh (ih hfresh ?_ rfl)
    intro z hz
    simp only [List.mem_cons, not_or] at hz
    rw [lastSuccessor?_notLeaving edges hz.1]
    exact hkept z hz.2

theorem trail_stackWalk (edges : List Edge) (start : String) :
    Trail (successors edges) [] start (stackWalk edges start) := by
  refine trail_walkFrom edges List.not_mem_nil fun y _ => ?_
  rw [lastSuccessor?_eq_successors]

/-- Every step but the last uses up an edge. -/
theorem length_walkFrom_le (edges : List Edge) (visited : List String) (x : String) :
    (walkFrom edges visited x).length ≤ edges.length + 1 := by
  fun_induction walkFrom edges visited x with
  | case1 | case2 => simp
  | case3 edges visited x y hnext _ ih =>
    have hfewer := length_notLeaving_lt hnext
    rw [List.length_cons]
    omega

end BlockProgram
