import BlockProgram.Fault
import BlockProgram.Number.Decimal

/-!
# Reading a value as a number or as text

Operators take any values and read them as they need.

* `Value.numeric?` is the finite number that a value reads as: truth values are `0` and `1`,
  nothing and blank text are `0`, other text is read as a typed real without underscores.
* `Value.toNumber` takes `0` where there is none.
* `Value.toText` is the text of a value for output and for joining. It is missing where a whole
  number has too many digits.
* `Value.add` adds where both sides read as numbers and joins their texts otherwise.
* `Value.looselyEqual` compares numbers where both sides read as numbers, nothing and empty
  text excepted, and compares texts otherwise.
-/

namespace BlockProgram

namespace Value

/-- The finite number that a text reads as. A whole number of moderate size is a whole number,
however it is spelled. -/
def numericText? (s : String) : Option Number :=
  let text := Text.trim s
  if text.isEmpty then some (.int 0)
  else if text.toList.contains '_' then none
  else
    match Decimal.typed? text with
    | none => none
    | some x => if Binary.isFinite x then some (Number.normalize (.float x)) else none

/-- The finite number that a value reads as. -/
def numeric? : Value → Option Number
  | .bool b => some (.int (if b then 1 else 0))
  | .int n => if (Number.int n).inRange then some (.int n) else none
  | .float x => if (Number.float x).inRange then some (.float x) else none
  | .null => some (.int 0)
  | .str s => numericText? s
  | .list _ => none
  | .dict _ => none
  | .ref _ => none

/-- The number that arithmetic and comparisons use: zero where a value reads as none. -/
def toNumber (v : Value) : Number := v.numeric?.getD (.int 0)

/-- A float of a whole value up to `2 ^ 53` as a whole number; any other value is kept. -/
def normalize : Value → Value
  | .float x => ofNumber (Number.normalize (.float x))
  | v => v

/-- The text of a value for output and for joining. -/
def toText : Value → Except Fault String
  | .null => .ok ""
  | .bool true => .ok "true"
  | .bool false => .ok "false"
  | .float x => .ok (normalize (.float x)).plain
  | v => if v.isWritable then .ok v.plain else .error .tooManyDigits

/-- The result of arithmetic as a value, normalized. -/
def ofResult (n : Option Number) : Except Fault Value :=
  (Fault.inRange n).map fun n => ofNumber n.normalize

/-- The sum where both values read as numbers, the joined texts otherwise. -/
def add (a b : Value) : Except Fault Value :=
  match a.numeric?, b.numeric? with
  | some m, some n => ofResult (m.add? n)
  | _, _ => do return .str ((← a.toText) ++ (← b.toText))

/-- The number that a value is compared by: nothing and empty text have none. -/
def comparable? : Value → Option Number
  | .null => none
  | .str s => if s.isEmpty then none else numericText? s
  | v => v.numeric?

/-- Equality across types: by number where both sides have one, by text otherwise. -/
def looselyEqual (a b : Value) : Except Fault Bool :=
  match a.comparable?, b.comparable? with
  | some m, some n => .ok (m.same n)
  | _, _ => do return (← a.toText) == (← b.toText)

/-- A value as a float, where only a number or a text that reads as a real will do. -/
def toFloat (v : Value) : Except Fault Float :=
  match v with
  | .str s =>
    match Decimal.typed? s with
    | some x => .ok x
    | none => .error (.unreadableReal s)
  | _ =>
    match v.number? with
    | some n => Fault.inRange n.toFloat?
    | none => .error .wrongType

/-- The number that a value is, where nothing else will do. -/
def needNumber (v : Value) : Except Fault Number :=
  match v.number? with
  | some n => .ok n
  | none => .error .wrongType

/-- A value as a whole number: the fraction of a number is cut off and a text has to read as a
whole number. -/
def toInt (v : Value) : Except Fault Int :=
  match v with
  | .str s =>
    match Decimal.typedInt? s with
    | some n => .ok n
    | none => .error (.unreadableInt s)
  | .float x =>
    match (Number.float x).truncate? with
    | some n => .ok n
    | none => .error (if x.isNaN then .notANumber else .outOfRange)
  | _ =>
    match v.number? with
    | some (.int n) => .ok n
    | _ => .error .wrongType

end Value

end BlockProgram
