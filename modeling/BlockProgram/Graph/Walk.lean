import BlockProgram.Graph.Basic

/-!
# Walks along edges

Two questions about the edges of a program, each answered by a walk that uses every edge at
most once.

* `reaches edges goal pending` is whether `goal` is among the pending blocks or can be reached
  from one of them along edges of any kind. A visited block gives up its outgoing edges, so a
  second visit finds none and the search ends.
* `stackWalk edges start` are the blocks below `start` along stack edges, in order, up to the
  first block without a successor or with one already visited.
-/

namespace BlockProgram

/-- The edges that leave a block. -/
def leaving (edges : List Edge) (id : String) : List Edge := edges.filter (·.source == id)

/-- The edges that do not leave a block. -/
def notLeaving (edges : List Edge) (id : String) : List Edge := edges.filter (·.source != id)

theorem length_leaving_add (edges : List Edge) (id : String) :
    (leaving edges id).length + (notLeaving edges id).length = edges.length := by
  induction edges with
  | nil => rfl
  | cons e rest ih =>
    simp only [leaving, notLeaving] at ih
    by_cases h : e.source = id
    · simp [leaving, notLeaving, h, ← ih]
      omega
    · simp [leaving, notLeaving, h, ← ih]
      omega

/-- Whether the goal is pending or can be reached from a pending block. -/
def reaches (edges : List Edge) (goal : String) (pending : List String) : Bool :=
  match pending with
  | [] => false
  | id :: rest =>
    if id == goal then true
    else reaches (notLeaving edges id) goal ((leaving edges id).map (·.target) ++ rest)
termination_by edges.length + pending.length
decreasing_by
  have := length_leaving_add edges id
  simp
  omega

/-- The block that the last stack edge leaving a block leads to. -/
def lastSuccessor? (edges : List Edge) (id : String) : Option String :=
  ((edges.filter fun e => e.kind == .stack && e.source == id).getLast?).map (·.target)

theorem length_notLeaving_lt {edges : List Edge} {id next : String}
    (h : lastSuccessor? edges id = some next) : (notLeaving edges id).length < edges.length := by
  have hsum := length_leaving_add edges id
  suffices 0 < (leaving edges id).length by omega
  simp only [lastSuccessor?, Option.map_eq_some_iff] at h
  obtain ⟨e, he, -⟩ := h
  have hmem := List.mem_of_getLast? he
  simp only [List.mem_filter, Bool.and_eq_true] at hmem
  exact List.length_pos_of_mem (List.mem_filter.2 ⟨hmem.1, hmem.2.2⟩)

/-- The blocks from the current one on, given those visited so far, the current one included. -/
def walkFrom (edges : List Edge) (visited : List String) (current : String) : List String :=
  match _h : lastSuccessor? edges current with
  | none => [current]
  | some next =>
    if visited.contains next then [current]
    else current :: walkFrom (notLeaving edges current) (next :: visited) next
termination_by edges.length
decreasing_by exact length_notLeaving_lt _h

/-- The blocks of a stack from a start on. -/
def stackWalk (edges : List Edge) (start : String) : List String := walkFrom edges [start] start

/-- The last block of the stack below a start. An empty id is no start. -/
def lastInStack? (start : String) (edges : List Edge) : Option String :=
  if start.isEmpty then none else (stackWalk edges start).getLast?

/-- The number of blocks of the stack below a start, the start included. -/
def stackLength (start : String) (edges : List Edge) : Nat :=
  if start.isEmpty then 0 else (stackWalk edges start).length

end BlockProgram
