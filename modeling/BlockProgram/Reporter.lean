import BlockProgram.Value.Coerce

/-!
# Reporters

A reporter is a block that computes a value. Its type names the operator; one operator has two
names. Arithmetic and comparisons read both operands as numbers, the others take them as they
are. Dividing by zero gives zero.
-/

namespace BlockProgram

/-- The operators that compute values. -/
inductive Reporter where
  | variable
  | plus
  | minus
  | multiply
  | divide
  | mod
  | gt
  | gte
  | lt
  | lte
  | eq
  /-- the older name of `eq` -/
  | et
  | and
  | or
  | not
  deriving DecidableEq, Repr

namespace Reporter

/-- All operators. -/
def all : List Reporter :=
  [.variable, .plus, .minus, .multiply, .divide, .mod, .gt, .gte, .lt, .lte, .eq, .et, .and, .or,
    .not]

/-- The block type of an operator. -/
def typeName : Reporter → String
  | .variable => "variable"
  | .plus => "plus_operator"
  | .minus => "minus_operator"
  | .multiply => "multiply_operator"
  | .divide => "divide_operator"
  | .mod => "mod_operator"
  | .gt => "gt_operator"
  | .gte => "gte_operator"
  | .lt => "lt_operator"
  | .lte => "lte_operator"
  | .eq => "eq_operator"
  | .et => "et_operator"
  | .and => "and_operator"
  | .or => "or_operator"
  | .not => "not_operator"

/-- The operator of a block type. -/
def named? (type : String) : Option Reporter := all.find? fun r => r.typeName == type

/-- The operator of a block whose type may have been set to any value; only a key can be looked
up. -/
def ofType? : Value → Except Fault (Option Reporter)
  | .str type => .ok (named? type)
  | v => (Fault.needKey v).map fun _ => none

/-- The operator that a value names, where nothing else will do. -/
def need (type : Value) : Except Fault Reporter :=
  match type.str?.bind named? with
  | some r => .ok r
  | none => .error (.unknownReporter type)

/-- Whether two numbers stand in a given order; not-a-number stands in none. -/
def ordered (test : Ordering → Bool) (a b : Number) : Value :=
  .bool (((a.compare? b).map test).getD false)

/-- Arithmetic with zero in place of a quotient or remainder by zero. -/
def unlessZero (op : Number → Number → Option Number) (a b : Number) : Except Fault Value :=
  if b.isZero then .ok (.int 0) else Value.ofResult (op a b)

/-- The value of an operator on two operands. The operators that do not take two have none. -/
def apply (r : Reporter) (a b : Value) : Except Fault Value :=
  match r with
  | .plus => a.add b
  | .minus => Value.ofResult (a.toNumber.sub? b.toNumber)
  | .multiply => Value.ofResult (a.toNumber.mul? b.toNumber)
  | .divide => unlessZero Number.div? a.toNumber b.toNumber
  | .mod => unlessZero Number.mod? a.toNumber b.toNumber
  | .gt => .ok (ordered Ordering.isGT a.toNumber b.toNumber)
  | .gte => .ok (ordered Ordering.isGE a.toNumber b.toNumber)
  | .lt => .ok (ordered Ordering.isLT a.toNumber b.toNumber)
  | .lte => .ok (ordered Ordering.isLE a.toNumber b.toNumber)
  | .eq => (a.looselyEqual b).map Value.bool
  | .et => (a.looselyEqual b).map Value.bool
  | .and => .ok (.bool (a.truthy && b.truthy))
  | .or => .ok (.bool (a.truthy || b.truthy))
  | .variable => .ok .null
  | .not => .ok .null

end Reporter

end BlockProgram
