import BlockProgram.Proofs.Graph.Walk
import BlockProgram.Proofs.Workspace.Splicing

/-!
# The end of a stack and its length

The last block of a stack and the number of its blocks are read off one walk down stack edges.

* On any edges the walk goes around a circle once at most (`Trail`), so it is told by the steps that
  lead down from its start (`descend`).
* In a workspace edges close no cycle, and the walk is the way down that the editor shows
  (`Workspace.downFrom_stackWalk`), to a block that none follows (`DownFrom.successor?_last`).
-/

namespace BlockProgram

open Relation

namespace Workspace

variable {ws : Workspace} {x : String} {ids : List String}

theorem successors_eq (h : WellFormed ws) : successors ws.edges = ws.successor? := by
  funext x
  rw [← lastSuccessor?_eq_successors, lastSuccessor?, ← find?_eq_getLast?_filter (h.successor x)]
  rfl

/-- **The walk down a stack** does not come back, so it ends where there is no successor. -/
theorem downFrom_of_trail (h : WellFormed ws) {seen : List String}
    (htrail : Trail ws.successor? seen x ids)
    (hseen : ∀ v ∈ seen, ReflTransGen (Joins ws.edges) v x) : ws.DownFrom x ids := by
  induction htrail with
  | last hlast => exact .last hlast
  | @back seen x y hnext hback =>
    -- edges close no cycle
    have hcycle : ReflTransGen (Joins ws.edges) y x := by
      rcases List.mem_cons.1 hback with rfl | hback
      · exact .refl
      · exact hseen y hback
    exact absurd (TransGen.tail' hcycle (joins_successor? hnext)) (h.acyclic y)
  | @onward seen ids x y hnext _ _ ih =>
    refine .next hnext (ih fun v hv => ?_)
    rcases List.mem_cons.1 hv with rfl | hv
    · exact .single (joins_successor? hnext)
    · exact (hseen v hv).tail (joins_successor? hnext)

theorem downFrom_stackWalk (h : WellFormed ws) (x : String) :
    ws.DownFrom x (stackWalk ws.edges x) := by
  have htrail := trail_stackWalk ws.edges x
  rw [successors_eq h] at htrail
  exact downFrom_of_trail h htrail fun v hv => absurd hv List.not_mem_nil

/-- A way down ends where no block follows. -/
theorem DownFrom.successor?_last (h : ws.DownFrom x ids) :
    ∀ tail ∈ ids.getLast?, ws.successor? tail = none := by
  induction h with
  | last hlast => simpa using hlast
  | next _ hrest ih =>
    intro tail htail
    cases hrest <;> exact ih tail htail

/-- **Where the walk down a stack ends, and how long it is.** On any edges, and from any start that
is no empty id, the length is the number of ids that steps down lead to, the start included, which is
at most one more than there are edges. One step less leads to the last id, from which a step leads
back to an id of the walk, if it leads anywhere. In a workspace that an editor can come to no stack
edge leaves the last block, and the walk is the way down that the editor shows, on which every block
that stack edges lead to from the start is once. -/
theorem stackWalk_exact {start : String} (hstart : start ≠ "") :
    (∀ edges : List Edge, ∃ tail,
      lastInStack? start edges = some tail ∧
      stackLength start edges =
        {x | ReflTransGen (fun a b => successors edges a = some b) start x}.ncard ∧
      stackLength start edges ≤ edges.length + 1 ∧
      descend (successors edges) (stackLength start edges - 1) start = some tail ∧
      ∀ y, successors edges tail = some y → ∃ k < stackLength start edges,
        descend (successors edges) k start = some y) ∧
    ∀ ws, Reachable ws → ∃ tail ids,
      lastInStack? start ws.edges = some tail ∧
      (∀ e ∈ ws.edges, e.kind = .stack → e.source ≠ tail) ∧
      ws.DownFrom start ids ∧ ids.length = stackLength start ws.edges ∧ ids.Nodup ∧
      ∀ x, x ∈ ids ↔ ReflTransGen (fun a b => (a, b) ∈ stackLinks ws.edges) start x := by
  have hlast (edges : List Edge) : lastInStack? start edges = (stackWalk edges start).getLast? := by
    simp [lastInStack?, hstart]
  have hlength (edges : List Edge) : stackLength start edges = (stackWalk edges start).length := by
    simp [stackLength, hstart]
  refine ⟨fun edges => ?_, fun ws hws => ?_⟩
  · rw [hlast, hlength]
    have htrail := trail_stackWalk edges start
    obtain ⟨tail, htail, hdescend, hback⟩ := htrail.exists_last
    exact ⟨tail, htail, htrail.length_eq, length_walkFrom_le edges [start] start, hdescend, hback⟩
  · rw [hlast, hlength]
    have h : WellFormed ws := ReachableBy.wellFormed hws
    have htrail := trail_stackWalk ws.edges start
    have hdown := downFrom_stackWalk h start
    obtain ⟨tail, htail, -⟩ := htrail.exists_last
    refine ⟨tail, _, htail, fun e he hkind hsource => ?_, hdown, rfl, htrail.nodup, fun x => ?_⟩
    · have hlink : (tail, e.target) ∈ stackLinks ws.edges :=
        mem_stackLinks.2 ⟨e, he, hkind, hsource, rfl⟩
      rw [← successor?_iff h, hdown.successor?_last tail htail] at hlink
      cases hlink
    · rw [htrail.mem_iff, successors_eq h]
      simp only [successor?_iff h]

/-- Stack edges into a circle, and one that another takes the place of. -/
def circling : List Edge := [.stack "a" "z", .stack "a" "b", .stack "b" "c", .stack "c" "b"]

/-- The walk into the circle goes once around; the one down a stack of three blocks is at each of
them. -/
theorem stackWalk_circling : "a" ≠ "" ∧
    (lastInStack? "a" circling = some "c" ∧ stackLength "a" circling = 3 ∧
      {x | ReflTransGen (fun a b => successors circling a = some b) "a" x}.ncard = 3 ∧
      descend (successors circling) 2 "a" = some "c" ∧
      ∃ k < 3, descend (successors circling) k "a" = some "b") ∧
    Reachable (threeStacked "a") ∧ lastInStack? "a" (threeStacked "a").edges = some "c" ∧
    (∀ e ∈ (threeStacked "a").edges, e.kind = .stack → e.source ≠ "c") ∧
    ∃ ids, (threeStacked "a").DownFrom "a" ids ∧ ids.length = 3 ∧ ids.Nodup := by
  have hstart : "a" ≠ "" := by decide
  have hlast : lastInStack? "a" circling = some "c" := by decide +kernel
  have hlength : stackLength "a" circling = 3 := by decide +kernel
  have hws : Reachable (threeStacked "a") := reachable_threeStacked rfl
  have hlast' : lastInStack? "a" (threeStacked "a").edges = some "c" := by decide +kernel
  have hlength' : stackLength "a" (threeStacked "a").edges = 3 := by decide +kernel
  obtain ⟨hany, hreachable⟩ := stackWalk_exact hstart
  obtain ⟨tail, htail, hcard, -, hdescend, hback⟩ := hany circling
  obtain ⟨tail', ids, htail', hnone, hdown, hids, hnodup, -⟩ := hreachable _ hws
  cases htail.symm.trans hlast
  cases htail'.symm.trans hlast'
  rw [hlength] at hcard hdescend hback
  rw [hlength'] at hids
  exact ⟨hstart, ⟨hlast, hlength, hcard.symm, hdescend, hback "b" rfl⟩, hws, hlast', hnone, ids,
    hdown, hids, hnodup⟩

end Workspace

end BlockProgram
