import BlockProgram.Program.Basic
import BlockProgram.Reporter

/-!
# Evaluating slots

The value of a slot is what it holds; for a reference it is the value of the reporter there,
computed from its own slots. While a node is being evaluated it counts as busy, and a reference
to a busy node has no value. So a cycle of references ends, while a reporter that is plugged in
at several places contributes its value at each of them.

The nodes that are not busy shrink with every reference that is followed, which bounds the depth.
-/

namespace BlockProgram

namespace Program

/-- The nodes without the one that becomes busy. -/
def without (idle : List Node) (id : String) : List Node := idle.filter (·.id != id)

theorem length_without_lt {idle : List Node} {id : String} {n : Node}
    (h : findNode? idle id = some n) : (without idle id).length < idle.length := by
  have hmem := List.mem_of_find?_eq_some h
  have hid := List.find?_some h
  refine List.length_filter_lt_length_iff_exists.2 ⟨n, hmem, ?_⟩
  simpa using hid

/-- The value of the variable of a name; one that was never set is zero. -/
def variableValue (vars : Dict) (name : Value) : Except Fault Value := do
  return (Dict.named? vars (← name.toText)).getD (.int 0)

/-- The value of a slot, given the variables and the nodes that are not busy. A reference to any
other node, and a reference to a node that is no reporter, has no value. -/
def evaluateIdle (vars : Dict) (idle : List Node) (slot : Value) : Except Fault Value :=
  match slot with
  | .ref id =>
    match _h : findNode? idle id with
    | none => .ok .null
    | some n =>
      match Reporter.ofType? n.type with
      | .error fault => .error fault
      | .ok none => .ok .null
      | .ok (some .variable) =>
        (evaluateIdle vars (without idle id) (n.input "name")).bind (variableValue vars)
      | .ok (some .not) =>
        (evaluateIdle vars (without idle id) (n.input "a")).map fun a => .bool !a.truthy
      | .ok (some r) =>
        match evaluateIdle vars (without idle id) (n.input "a") with
        | .error fault => .error fault
        | .ok a =>
          match evaluateIdle vars (without idle id) (n.input "b") with
          | .error fault => .error fault
          | .ok b => r.apply a b
  | literal => .ok literal
termination_by idle.length
decreasing_by all_goals exact length_without_lt _h

/-- The value of a slot in a program with the given variables. -/
def evaluate (p : Program) (vars : Dict) (slot : Value) : Except Fault Value :=
  evaluateIdle vars p.nodes slot

end Program

end BlockProgram
