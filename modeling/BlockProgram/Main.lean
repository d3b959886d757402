import BlockProgram.Command.Respond

/-!
# The program

Reads the file that the command line names, lets `Command.respond` decide what is done, prints
what came of it and exits.
-/

open BlockProgram

/-- Reads a file as text. -/
def readProgram (path : String) : IO (Except Command.ReadFault String) := do
  try
    return .ok (← IO.FS.readFile path)
  catch
    | .noFileOrDirectory _ _ _ => return .error .missing
    | .permissionDenied _ _ _ => return .error ⟨13, "Permission denied"⟩
    | _ => return .error .directory

/-- Runs the command line. -/
def main (arguments : List String) : IO UInt32 := do
  let path :=
    match Command.Options.parse arguments with
    | .ok o => o.file.getD ""
    | .error _ => ""
  let content ← readProgram path
  let outcome := Command.respond arguments fun _ => content
  IO.print outcome.printed
  match outcome.result with
  | .ok (code, message) =>
    if !message.isEmpty then IO.eprintln message
    return code.toUInt32
  | .error fault =>
    IO.eprintln ("fault: " ++ (fault.message?).getD "the program cannot go on")
    return 1
