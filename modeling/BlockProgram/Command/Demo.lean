import BlockProgram.Graph.Basic

/-!
# The demonstration program

The program that runs when no file is given: it counts to three, says and thinks on the way,
walks a corner, waits a moment and stops.
-/

namespace BlockProgram.Command

/-- A block with typed-in inputs. -/
def demoBlock (id type : String) (inputs : List (String × String)) : Block :=
  { id, type := .str type,
    inputs := .dict (inputs.map fun (socket, text) => (.str socket, .str text)) }

/-- The blocks of the demonstration. -/
def demoBlocks : List Block :=
  [demoBlock "start1" "start" [],
    demoBlock "setI" "set_variable" [("name", "i"), ("value", "0")],
    demoBlock "rep" "repeat_times" [("times", "3")],
    demoBlock "sayI" "say" [],
    demoBlock "plus" "plus_operator" [("a", "i=")],
    demoBlock "iVar" "variable" [("name", "i")],
    demoBlock "incI" "change_variable" [("name", "i"), ("delta", "1")],
    demoBlock "if1" "if_else" [],
    demoBlock "gt" "gt_operator" [("b", "2")],
    demoBlock "iVar2" "variable" [("name", "i")],
    demoBlock "think1" "think" [("text", "gt 2")],
    demoBlock "sayNo" "say" [("text", "not gt 2")],
    demoBlock "move1" "move" [("steps", "10")],
    demoBlock "turn1" "turn_clockwise" [("degrees", "90")],
    demoBlock "move2" "move" [("steps", "10")],
    demoBlock "wait1" "wait" [("seconds", "0.05")],
    demoBlock "sayDone" "say" [("text", "done")],
    demoBlock "stop1" "stop" []]

/-- The edges of the demonstration. -/
def demoEdges : List Edge :=
  [.stack "start1" "setI",
    .stack "setI" "rep",
    .stack "rep" "if1",
    .toBranch "rep" (some "body") "sayI",
    .stack "sayI" "incI",
    .toInput "sayI" (some "text") "plus",
    .toInput "plus" (some "b") "iVar",
    .toInput "if1" (some "condition") "gt",
    .toInput "gt" (some "a") "iVar2",
    .toBranch "if1" (some "true") "think1",
    .toBranch "if1" (some "false") "sayNo",
    .stack "if1" "move1",
    .stack "move1" "turn1",
    .stack "turn1" "move2",
    .stack "move2" "wait1",
    .stack "wait1" "sayDone",
    .stack "sayDone" "stop1"]

/-- The demonstration. -/
def demo : ProgramGraph := ⟨demoBlocks, demoEdges⟩

end BlockProgram.Command
