import BlockProgram.Fault

/-!
# The types of enders

An ender closes the arms of an `if_else` or the body of a loop in the editor. It takes no part
in running a program. The type of a loop's ender counts the blocks of the body, up to seven.
-/

namespace BlockProgram

/-- The type of the ender of an `if_else`. -/
def ifEnderType : String := "if_branch_ender"

/-- The types of the enders of loops begin with this. -/
def repeatEnderMark : String := "repeat_loop_ender"

/-- The largest variant of a loop's ender. -/
def maxVariant : Nat := 7

/-- Whether a type is that of an ender. -/
def isEnderType (type : String) : Bool :=
  type == ifEnderType || repeatEnderMark.toList.isPrefixOf type.toList

/-- A size as a variant: between zero and the largest one. -/
def clampVariant (size : Int) : Nat := (min (maxVariant : Int) size).toNat

/-- The type of the ender of a loop whose body has a given size. -/
def repeatEnderType (size : Int) : String :=
  repeatEnderMark ++ "_" ++ Nat.repr (clampVariant size)

/-- Whether a value is the type of an ender. Only a text has the form of a type. -/
def namesEnder : Value → Except Fault Bool
  | .str type => .ok (isEnderType type)
  | _ => .error .missingOperation

end BlockProgram
