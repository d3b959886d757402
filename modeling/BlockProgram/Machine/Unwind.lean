import BlockProgram.Machine.Basic
import BlockProgram.Program.Evaluate

/-!
# Unwinding control frames

When a chain of nodes runs out, the run goes on in the construct around it. `unwind` looks at
the frames from the innermost outward: a branch is left for the node after it, a loop starts
another round or is left, and a construct without a node after it hands on to the next frame.

The result is the node to go on at, if there is one, with the frames that are left. A fault in
the condition of a loop leaves the frames from that loop outward.
-/

namespace BlockProgram

/-- Where a run goes on after its innermost chain has run out. -/
def unwind (isTrue : Value → Except Fault Bool) :
    List Frame → Except Fault (Option String) × List Frame
  | [] => (.ok none, [])
  | .branch (some next) :: rest => (.ok (some next), rest)
  | .branch none :: rest => unwind isTrue rest
  | .times (remaining + 1) (some body) resume :: rest =>
    (.ok (some body), .times remaining (some body) resume :: rest)
  | .times _ _ (some next) :: rest => (.ok (some next), rest)
  | .times _ _ none :: rest => unwind isTrue rest
  | .until condition (some body) resume :: rest =>
    match isTrue condition with
    | .error fault => (.error fault, .until condition (some body) resume :: rest)
    | .ok false => (.ok (some body), .until condition (some body) resume :: rest)
    | .ok true =>
      match resume with
      | some next => (.ok (some next), rest)
      | none => unwind isTrue rest
  | .until _ none (some next) :: rest => (.ok (some next), rest)
  | .until _ none none :: rest => unwind isTrue rest

namespace Program

/-- Whether a slot is true with the given variables. -/
def isTrue (p : Program) (vars : Dict) (slot : Value) : Except Fault Bool :=
  (p.evaluate vars slot).map Value.truthy

/-- Unwinds the frames of a run and goes on at the node found. -/
def resume (p : Program) : Exec Unit := fun m =>
  let (found, frames) := unwind (p.isTrue m.state.vars) m.state.frames
  match found with
  | .ok next => (.ok (), { m with state := { m.state with frames, current := next } })
  | .error fault => (.error fault, { m with state := { m.state with frames } })

/-- Goes on at a node or, where there is none, in the construct around. -/
def goOn (p : Program) (next : Option String) : Exec Unit :=
  match next with
  | some _ => Exec.modifyState fun s => { s with current := next }
  | none => p.resume

/-- Enters a construct and goes on as after a finished round of it. -/
def enter (p : Program) (frame : Frame) : Exec Unit := do
  Exec.modifyState fun s => { s with frames := frame :: s.frames }
  p.resume

end Program

end BlockProgram
