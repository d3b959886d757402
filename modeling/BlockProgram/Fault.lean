import BlockProgram.Value.Written

/-!
# Faults

Everything that can go wrong has a cause of its own here. Editing faults name the block or
field in question; a record that is not in order lists all its issues, each with the path to
the offending part.
-/

namespace BlockProgram

/-- One step of the path to a part of a record. -/
inductive PathStep where
  | field (name : String)
  | index (i : Int)
  deriving DecidableEq, Repr

/-- Why a part of a record is refused. -/
inductive IssueCause where
  /-- a required field is absent -/
  | missing
  | textExpected
  | dictExpected
  | listExpected
  | recordExpected
  /-- the kind of an edge is none of the three -/
  | unknownKind
  /-- the value is no number, or a whole number beyond the range of floats -/
  | numberExpected
  /-- the text does not read as a number -/
  | unreadableNumber
  /-- the document as a whole is malformed -/
  | malformedDocument
  deriving DecidableEq, Repr

/-- The code under which a cause is reported. -/
def IssueCause.code : IssueCause → String
  | .missing => "missing"
  | .textExpected => "string_type"
  | .dictExpected => "dict_type"
  | .listExpected => "list_type"
  | .recordExpected => "model_type"
  | .unknownKind => "enum"
  | .numberExpected => "float_type"
  | .unreadableNumber => "float_parsing"
  | .malformedDocument => "json_invalid"

/-- A part of a record that is refused. -/
structure Issue where
  path : List PathStep
  cause : IssueCause
  deriving DecidableEq, Repr

/-- The same issue in a larger record. -/
def Issue.under (steps : List PathStep) (issue : Issue) : Issue :=
  { issue with path := steps ++ issue.path }

/-- What went wrong. -/
inductive Fault where
  /-- an operation names a block that is not there -/
  | unknownBlock (id : Value)
  /-- a block is added under an id that is taken -/
  | duplicateBlock (id : String)
  /-- the id of a block would be changed -/
  | immutableId
  /-- a field is assigned that blocks do not have -/
  | noSuchField (name : String)
  /-- a reporter is asked for by a type that is none -/
  | unknownReporter (type : Value)
  /-- a record is not in order -/
  | invalid (issues : List Issue)
  /-- a value has the wrong type for the operation, such as a list as a key -/
  | wrongType
  /-- an operation of dictionaries or texts meets another value -/
  | missingOperation
  /-- a number is beyond the range of floats, or infinite where a whole number is needed -/
  | outOfRange
  /-- a whole number has too many digits to be written out -/
  | tooManyDigits
  /-- the direction of an infinite heading -/
  | infiniteAngle
  /-- a whole number is asked of not-a-number -/
  | notANumber
  /-- a text does not read as a whole number -/
  | unreadableInt (text : String)
  /-- a text does not read as a real number -/
  | unreadableReal (text : String)
  /-- a text where a number is laid out with one place -/
  | textAsNumber
  /-- an entry of a would-be dictionary that is no pair -/
  | notAPair (position length : Nat)
  deriving Inhabited

namespace Fault

/-- The words in which a fault is reported, for those that have any. -/
def message? : Fault → Option String
  | .unknownBlock id => some id.written
  | .duplicateBlock id => some ("Block id '" ++ id ++ "' already exists")
  | .immutableId => some "Block ids are immutable"
  | .noSuchField name => some ("\"Block\" object has no field \"" ++ name ++ "\"")
  | .unknownReporter type => some (type.written ++ " is not a valid ReporterKind")
  | .tooManyDigits =>
    some ("Exceeds the limit (" ++ Nat.repr Decimal.maxIntDigits
      ++ " digits) for integer string conversion; "
      ++ "use sys.set_int_max_str_digits() to increase the limit")
  | .infiniteAngle => some "math domain error"
  | .notANumber => some "cannot convert float NaN to integer"
  | .unreadableInt text => some ("invalid literal for int() with base 10: " ++ Text.quote text)
  | .unreadableReal text => some ("could not convert string to float: " ++ Text.quote text)
  | .textAsNumber => some "Unknown format code 'f' for object of type 'str'"
  | .notAPair position length =>
    some ("dictionary update sequence element #" ++ Nat.repr position ++ " has length "
      ++ Nat.repr length ++ "; 2 is required")
  | .invalid _ => none
  | .wrongType => none
  | .missingOperation => none
  | .outOfRange => none

/-- A result that is absent only when a number is beyond the range of floats. -/
def inRange {α : Type} : Option α → Except Fault α
  | some a => .ok a
  | none => .error .outOfRange

/-- A value in a place where only keys can stand. -/
def needKey (v : Value) : Except Fault Unit := if v.isKey then .ok () else .error .wrongType

end Fault

end BlockProgram
