import BlockProgram.Text.Blank
import BlockProgram.Workspace.Basic

/-!
# The palette of variables

Variables have distinct names without blanks at their ends. A name that is taken gets the least
number from two upward that makes it free, in parentheses. Ids are a word and a running number
of ten digits, shared by everything that is given an id.
-/

namespace BlockProgram

/-- A word with a number of ten digits. -/
def numberedId (word : String) (n : Nat) : String :=
  let digits := Nat.repr n
  word ++ String.ofList (List.replicate (10 - digits.length) '0') ++ digits

namespace Workspace

/-- A fresh id; it counts as handed out. -/
def freshId (ws : Workspace) (word : String) : String × Workspace :=
  (numberedId word (ws.issued + 1), { ws with issued := ws.issued + 1 })

/-- A name with a number after it. -/
def numberedName (name : String) (n : Nat) : String := name ++ " (" ++ Nat.repr n ++ ")"

/-- The first free numbered name from a number on; `fuel` bounds how many may be taken. -/
def firstFree (taken : List String) (name : String) : Nat → Nat → String
  | 0, n => numberedName name n
  | fuel + 1, n =>
    if taken.contains (numberedName name n) then firstFree taken name fuel (n + 1)
    else numberedName name n

/-- The name itself if it is free, the first free numbered one otherwise. -/
def freeName (taken : List String) (name : String) : String :=
  if taken.contains name then firstFree taken name taken.length 2 else name

/-- Adds a variable; a blank name adds none. -/
def createVariable (ws : Workspace) (name : String) (initial : Value) :
    Option Variable × Workspace :=
  let clean := Text.trim name
  if clean.isEmpty then (none, ws)
  else
    let (id, ws) := ws.freshId "var_"
    let added : Variable := ⟨id, freeName (ws.palette.map (·.name)) clean, initial⟩
    (some added, { ws with palette := ws.palette ++ [added] })

/-- Removes a variable. -/
def deleteVariable (ws : Workspace) (id : String) : Workspace :=
  { ws with palette := ws.palette.filter (·.id != id) }

/-- The values that a run starts with, by name. -/
def initialVars (ws : Workspace) : Dict :=
  Dict.ofEntries (ws.palette.map fun v => (.str v.name, v.initial))

end Workspace

end BlockProgram
