import BlockProgram.Graph.Basic
import BlockProgram.Graph.EnderType

/-!
# Statements

A statement is a block that does something when a run comes to it. Its type says what; blocks
of all other types, and enders, are passed through.
-/

namespace BlockProgram

/-- What a block does when a run comes to it. -/
inductive Statement where
  | start
  | stop
  | say
  | think
  | clear
  | move
  | goTo
  | changeXBy
  | changeYBy
  | turnClockwise
  | turnAnticlockwise
  | pointIn
  | setVariable
  | changeVariable
  | wait
  | ifElse
  | repeatTimes
  | repeatUntil
  | ifEnder
  | repeatEnder
  deriving DecidableEq, Repr

namespace Statement

/-- All statements. -/
def all : List Statement :=
  [.start, .stop, .say, .think, .clear, .move, .goTo, .changeXBy, .changeYBy, .turnClockwise,
    .turnAnticlockwise, .pointIn, .setVariable, .changeVariable, .wait, .ifElse, .repeatTimes,
    .repeatUntil, .ifEnder, .repeatEnder]

/-- The block type of a statement. -/
def typeName : Statement → String
  | .start => startType
  | .stop => stopType
  | .say => "say"
  | .think => "think"
  | .clear => "clear"
  | .move => "move"
  | .goTo => "go_to"
  | .changeXBy => "change_x_by"
  | .changeYBy => "change_y_by"
  | .turnClockwise => "turn_clockwise"
  | .turnAnticlockwise => "turn_anticlockwise"
  | .pointIn => "point_in"
  | .setVariable => "set_variable"
  | .changeVariable => "change_variable"
  | .wait => "wait"
  | .ifElse => "if_else"
  | .repeatTimes => "repeat_times"
  | .repeatUntil => "repeat_until"
  | .ifEnder => ifEnderType
  | .repeatEnder => repeatEnderMark

/-- The statement of a block type; the enders of loops come in variants. -/
def named? (type : String) : Option Statement :=
  match all.find? fun s => s.typeName == type with
  | some s => some s
  | none => if isEnderType type then some .repeatEnder else none

/-- The statement of a block whose type may have been set to any value; only a text has the
form of a type. -/
def ofType? : Value → Except Fault (Option Statement)
  | .str type => .ok (named? type)
  | v => if v.isKey then .error .missingOperation else .error .wrongType

end Statement

end BlockProgram
