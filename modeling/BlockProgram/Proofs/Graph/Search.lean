import BlockProgram.Proofs.Graph.Reach
import BlockProgram.Workspace.Request

/-!
# The search for a cycle, round by round

Before an edge is drawn, a depth-first search from its target looks for its source. It goes along
the edges that are there and the new one, and keeps the blocks that it has yet to go to on a stack
and those that it has been at in a list (`Search`). Each round (`Search.round`) takes the block that
came last off the stack.

* A round goes along no edge for a second time, so the work that is left gets less by one with every
  round (`Search.work_round`), and the search comes to an end (`Search.exists_run`).
* A round neither finds nor loses a way to the goal (`Search.finds_round`), so the answer is whether
  there was one at the beginning (`Search.run_iff`).

A way that comes to the source of the new edge has arrived, so the new edge makes no difference
(`walk_append_self`), and the answer is the one of `reaches` (`Workspace.wouldCycle_exact`).
-/

namespace BlockProgram

open Relation

/-- A depth-first search on its way. -/
structure Search where
  /-- the blocks that it has been at -/
  seen : List String := []
  /-- the stack of blocks that it has yet to go to, the one that came last in front -/
  pending : List String

namespace Search

variable {edges : List Edge} {goal : String} {s s' : Search}

/-- A round of the search: it gives the answer, or what is left to search. The targets of the edges
that leave a block are put on the stack in the order of the edges. -/
def round (edges : List Edge) (goal : String) (s : Search) : Bool ⊕ Search :=
  match s.pending with
  | [] => .inl false
  | id :: rest =>
    if s.seen.contains id then .inr { s with pending := rest }
    else if id == goal then .inl true
    else .inr ⟨id :: s.seen, ((leaving edges id).map (·.target)).reverse ++ rest⟩

/-- The answer of the search, if it comes within a number of rounds. -/
def run (edges : List Edge) (goal : String) : Nat → Search → Option Bool
  | 0, _ => none
  | rounds + 1, s =>
    match round edges goal s with
    | .inl answer => some answer
    | .inr s => run edges goal rounds s

/-- The edges that leave other blocks than those seen. -/
def unseen (edges : List Edge) (seen : List String) : List Edge :=
  edges.filter fun e => !seen.contains e.source

/-- How much is left to do: edges to go along and blocks to take off the stack. -/
def work (edges : List Edge) (s : Search) : Nat := (unseen edges s.seen).length + s.pending.length

/-- What a round can come to. -/
theorem round_cases (edges : List Edge) (goal : String) (s : Search) :
    (s.pending = [] ∧ round edges goal s = .inl false) ∨
    (∃ id rest, s.pending = id :: rest ∧ id ∈ s.seen ∧
      round edges goal s = .inr { s with pending := rest }) ∨
    (∃ rest, s.pending = goal :: rest ∧ goal ∉ s.seen ∧ round edges goal s = .inl true) ∨
    ∃ id rest, s.pending = id :: rest ∧ id ∉ s.seen ∧ id ≠ goal ∧ round edges goal s =
      .inr ⟨id :: s.seen, ((leaving edges id).map (·.target)).reverse ++ rest⟩ := by
  rcases hpending : s.pending with _ | ⟨id, rest⟩
  · exact .inl ⟨rfl, by rw [round, hpending]⟩
  · by_cases hseen : id ∈ s.seen
    · refine .inr (.inl ⟨id, rest, rfl, hseen, ?_⟩)
      simp only [round, hpending, List.contains_iff_mem.2 hseen, if_true]
    · by_cases hgoal : id = goal
      · subst hgoal
        refine .inr (.inr (.inl ⟨rest, rfl, hseen, ?_⟩))
        simp [round, hpending, hseen]
      · refine .inr (.inr (.inr ⟨id, rest, rfl, hseen, hgoal, ?_⟩))
        simp [round, hpending, hseen, hgoal]

/-! ## The search ends -/

theorem unseen_cons (edges : List Edge) (id : String) (seen : List String) :
    unseen edges (id :: seen) = notLeaving (unseen edges seen) id := by
  rw [notLeaving, unseen, unseen, List.filter_filter]
  refine List.filter_congr fun e _ => ?_
  rw [List.contains_cons, Bool.not_or]
  rfl

/-- The edges that leave a block are there until the search comes to it. -/
theorem leaving_unseen {seen : List String} {id : String} (h : id ∉ seen) :
    leaving (unseen edges seen) id = leaving edges id := by
  rw [leaving, unseen, List.filter_filter, leaving]
  refine List.filter_congr fun e _ => ?_
  by_cases he : e.source = id
  · simp [he, h]
  · simp [he]

/-- **Every round does a piece of the work.** -/
theorem work_round (h : round edges goal s = .inr s') : s'.work edges + 1 = s.work edges := by
  rcases round_cases edges goal s with ⟨-, hround⟩ | ⟨id, rest, hpending, -, hround⟩ |
    ⟨rest, -, -, hround⟩ | ⟨id, rest, hpending, hseen, -, hround⟩
  · rw [hround] at h
    cases h
  · rw [hround] at h
    cases h
    rw [work, work, hpending, List.length_cons]
    rfl
  · rw [hround] at h
    cases h
  · rw [hround] at h
    cases h
    have hedges := length_leaving_add (unseen edges s.seen) id
    rw [leaving_unseen hseen] at hedges
    rw [work, work, unseen_cons, hpending, List.length_append, List.length_reverse,
      List.length_map, List.length_cons]
    omega

/-- **The search comes to an end**, one round after all work is done at the latest. -/
theorem exists_run (edges : List Edge) (goal : String) (s : Search) :
    ∃ answer, run edges goal (s.work edges + 1) s = some answer := by
  induction hwork : s.work edges using Nat.strong_induction_on generalizing s with
  | _ n ih =>
    rw [run]
    rcases hround : round edges goal s with answer | s'
    · exact ⟨answer, rfl⟩
    · have hless := work_round hround
      obtain ⟨answer, hanswer⟩ := ih (s'.work edges) (by omega) s' rfl
      rw [show n = s'.work edges + 1 by omega]
      exact ⟨answer, hanswer⟩

/-! ## The answer -/

/-- Whether a way leads from the stack to the goal that leaves no block at which the search has
been. -/
def Finds (edges : List Edge) (goal : String) (s : Search) : Prop :=
  ∃ a ∈ s.pending, ReflTransGen (Joins (unseen edges s.seen)) a goal

theorem eq_of_walk_of_seen {seen : List String} {id : String} (hid : id ∈ seen)
    (h : ReflTransGen (Joins (unseen edges seen)) id goal) : id = goal := by
  rcases h.cases_head with heq | ⟨b, ⟨e, he, rfl, -⟩, -⟩
  · exact heq
  · simp [unseen, hid] at he

/-- **No round finds or loses a way to the goal.** -/
theorem finds_round (hgoal : goal ∉ s.seen) (h : round edges goal s = .inr s') :
    goal ∉ s'.seen ∧ (s'.Finds edges goal ↔ s.Finds edges goal) := by
  rcases round_cases edges goal s with ⟨-, hround⟩ | ⟨id, rest, hpending, hid, hround⟩ |
    ⟨rest, -, -, hround⟩ | ⟨id, rest, hpending, hid, hne, hround⟩
  · rw [hround] at h
    cases h
  · -- no way to the goal begins at a block that has been left
    rw [hround] at h
    cases h
    refine ⟨hgoal, ⟨?_, ?_⟩⟩
    · rintro ⟨a, ha, hwalk⟩
      exact ⟨a, hpending ▸ List.mem_cons_of_mem _ ha, hwalk⟩
    · rintro ⟨a, ha, hwalk⟩
      rw [hpending] at ha
      rcases List.mem_cons.1 ha with rfl | ha
      · exact absurd (eq_of_walk_of_seen hid hwalk ▸ hid) hgoal
      · exact ⟨a, ha, hwalk⟩
  · rw [hround] at h
    cases h
  · rw [hround] at h
    cases h
    refine ⟨?_, ?_⟩
    · rintro (_ | _)
      · exact hne rfl
      · exact hgoal ‹_›
    -- the edges that leave the block are used up, and their targets are on the stack
    have hjoins (b : String) : b ∈ ((leaving edges id).map (·.target)).reverse ↔
        Joins (unseen edges s.seen) id b := by
      rw [List.mem_reverse, joins_iff_mem_leaving, leaving_unseen hid]
    simp only [Finds, unseen_cons, List.mem_append, hjoins, hpending, List.mem_cons]
    constructor
    · rintro ⟨a, ha | ha, hwalk⟩
      · exact ⟨id, .inl rfl, .head ha (walk_of_notLeaving hwalk)⟩
      · exact ⟨a, .inr ha, walk_of_notLeaving hwalk⟩
    · rintro ⟨a, ha, hwalk⟩
      rcases walk_past hwalk hne with ⟨haid, hrest⟩ | ⟨b, hb, hrest⟩
      · exact ⟨a, .inr (ha.resolve_left haid), hrest⟩
      · exact ⟨b, .inl hb, hrest⟩

theorem finds_of_answer {answer : Bool} (h : round edges goal s = .inl answer) :
    answer = true ↔ s.Finds edges goal := by
  rcases round_cases edges goal s with ⟨hpending, hround⟩ | ⟨id, rest, -, -, hround⟩ |
    ⟨rest, hpending, -, hround⟩ | ⟨id, rest, -, -, -, hround⟩
  · rw [hround] at h
    cases h
    simp [Finds, hpending]
  · rw [hround] at h
    cases h
  · rw [hround] at h
    cases h
    exact iff_of_true rfl ⟨goal, hpending ▸ List.mem_cons_self, .refl⟩
  · rw [hround] at h
    cases h

/-- **The search answers whether there was a way to the goal.** -/
theorem run_iff {rounds : Nat} {answer : Bool} (hgoal : goal ∉ s.seen)
    (h : run edges goal rounds s = some answer) : answer = true ↔ s.Finds edges goal := by
  induction rounds generalizing s with
  | zero => cases h
  | succ rounds ih =>
    rw [run] at h
    split at h
    · rename_i hround
      cases h
      exact finds_of_answer hround
    · rename_i s' hround
      obtain ⟨hgoal', hfinds⟩ := finds_round hgoal hround
      rw [ih hgoal' h, hfinds]

end Search

/-! ## The edge that is to be drawn -/

/-- A way to the source of an edge does without this edge. -/
theorem walk_append_self (edges : List Edge) (e : Edge) {a : String} :
    ReflTransGen (Joins (edges ++ [e])) a e.source ↔ ReflTransGen (Joins edges) a e.source := by
  constructor
  · intro h
    rcases reflTransGen_iff_eq_or_transGen.1 h with heq | hwalk
    · rw [heq]
    · rcases walk_append hwalk with hwalk | ⟨hwalk, -⟩
      · exact hwalk.to_reflTransGen
      · exact hwalk
  · exact .mono (fun _ _ hab => joins_append.2 (.inl hab)) _ _

namespace Workspace

/-- **The search for a cycle is exact**, whatever edges there are. It answers whether the source of
the new edge is its target or can be reached from there, and changes nothing; and this is the answer
to which the search with the new edge comes, in no more rounds than there are edges and three. -/
theorem wouldCycle_exact (ws : Workspace) (source target : String) : ∃ answer : Bool,
    (Request.wouldCycle (.str source) (.str target)).perform ws = (.ok (.bool answer), ws) ∧
    (answer = true ↔ source = target ∨ TransGen (Joins ws.edges) target source) ∧
    ∃ rounds ≤ ws.edges.length + 3,
      Search.run (ws.edges ++ [.stack source target]) source rounds { pending := [target] } =
        some answer := by
  have hreaches : ws.wouldCycle source target = true ↔
      ReflTransGen (Joins ws.edges) target source := by
    rw [wouldCycle, reaches_iff]
    simp only [List.mem_singleton, exists_eq_left]
  refine ⟨ws.wouldCycle source target, rfl, ?_, ?_⟩
  · rw [hreaches, reflTransGen_iff_eq_or_transGen]
  · obtain ⟨answer, hrun⟩ := Search.exists_run (ws.edges ++ [.stack source target]) source
      { pending := [target] }
    -- at the beginning no block has been seen
    have hall : Search.unseen (ws.edges ++ [.stack source target]) [] =
        ws.edges ++ [.stack source target] := List.filter_eq_self.2 fun _ _ => rfl
    refine ⟨_, ?_, hrun.trans (congrArg some ?_)⟩
    · rw [Search.work, hall, List.length_append]
      exact Nat.le_refl _
    · rw [Bool.eq_iff_iff, hreaches, Search.run_iff List.not_mem_nil hrun, Search.Finds, hall]
      simp only [List.mem_singleton, exists_eq_left]
      exact walk_append_self ws.edges (.stack source target)

end Workspace

end BlockProgram
