import BlockProgram.Main
import BlockProgram.Proofs.Machine.Structured
import BlockProgram.Proofs.Number.Nearest
import BlockProgram.Proofs.Workspace.BranchSlot
import BlockProgram.Proofs.Number.Finite
import BlockProgram.Proofs.Number.Total
import BlockProgram.Proofs.Program.Evaluate
import BlockProgram.Proofs.Machine.Keeping
import BlockProgram.Proofs.Machine.World
import BlockProgram.Proofs.Machine.Overflow
import BlockProgram.Proofs.Machine.Call
import BlockProgram.Proofs.Workspace.Guard
import BlockProgram.Proofs.Run.Pacing
import BlockProgram.Proofs.Value.Dict
import BlockProgram.Proofs.Workspace.Orderly
import BlockProgram.Proofs.Program.Compile
import BlockProgram.Proofs.Run.Between
import BlockProgram.Proofs.Program.References
import BlockProgram.Proofs.Workspace.Failure
import BlockProgram.Proofs.Program.Stacks
import BlockProgram.Proofs.Workspace.Terminal
import BlockProgram.Proofs.Workspace.Exclusive
import BlockProgram.Proofs.Workspace.Pairing
import BlockProgram.Proofs.Workspace.Settling
import BlockProgram.Proofs.Number.HalfUp
import BlockProgram.Proofs.Run.Ceiling
import BlockProgram.Proofs.Program.Alike
import BlockProgram.Proofs.Machine.Bypass
import BlockProgram.Proofs.Workspace.Compiled
import BlockProgram.Proofs.Workspace.Removal
import BlockProgram.Proofs.Workspace.Tidying
import BlockProgram.Proofs.Run.Enders
import BlockProgram.Proofs.Machine.Relinked
import BlockProgram.Proofs.Run.Finishing
import BlockProgram.Proofs.Run.Reports
import BlockProgram.Proofs.Run.Owners
import BlockProgram.Proofs.Program.Kinds
import BlockProgram.Proofs.Program.Roots
import BlockProgram.Proofs.Workspace.Palette
import BlockProgram.Proofs.Run.Variables
import BlockProgram.Proofs.Graph.RoundTrip
import BlockProgram.Proofs.Run.Tracing
import BlockProgram.Proofs.Run.Waiting
import BlockProgram.Proofs.Workspace.Splicing
import BlockProgram.Proofs.Program.Projection
import BlockProgram.Proofs.Text.Trim
import BlockProgram.Proofs.Text.Digit
import BlockProgram.Proofs.Value.Literal
import BlockProgram.Proofs.Number.Whole
import BlockProgram.Proofs.Value.NumberText
import BlockProgram.Proofs.Workspace.Covering
import BlockProgram.Proofs.Workspace.LoopSize
import BlockProgram.Proofs.Graph.Search
import BlockProgram.Proofs.Workspace.Naming
import BlockProgram.Proofs.Value.OneLine
import BlockProgram.Proofs.Program.Drawing
import BlockProgram.Proofs.Program.Labels
import BlockProgram.Proofs.Program.Legible
import BlockProgram.Proofs.Program.Apart
import BlockProgram.Proofs.Machine.Unwinding
import BlockProgram.Proofs.Graph.Walk
import BlockProgram.Proofs.Workspace.StackWalk
