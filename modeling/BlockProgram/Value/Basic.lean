import BlockProgram.Number.Basic

/-!
# Values

What an input slot holds, what a variable holds and what a block's fields hold are all values:
nothing, a truth value, a number, a text, a list, a dictionary, or a reference to the block
whose value is meant.

* A dictionary is a list of entries in the order in which its keys first came.
* `Value.sameKey` is when two values are one key: numbers and truth values by their numeric
  value, everything else by what it is. Lists and dictionaries are no keys.
* `Value.truthy` is when a value counts as true.
-/

namespace BlockProgram

/-- A value of a program. -/
inductive Value where
  | null
  | bool (b : Bool)
  | int (n : Int)
  | float (x : Float)
  | str (s : String)
  | list (items : List Value)
  | dict (entries : List (Value × Value))
  /-- a reference to the block with this id, standing for the value which it computes -/
  | ref (block : String)
  deriving Inhabited

/-- The entries of a dictionary in the order of their keys' first appearance. -/
abbrev Dict := List (Value × Value)

namespace Value

/-- A number as a value. -/
def ofNumber : Number → Value
  | .int n => .int n
  | .float x => .float x

/-- The number that a truth value or a number is, without reading any text. -/
def number? : Value → Option Number
  | .bool b => some (.int (if b then 1 else 0))
  | .int n => some (.int n)
  | .float x => some (.float x)
  | _ => none

/-- The text that a value is, without converting anything. -/
def str? : Value → Option String
  | .str s => some s
  | _ => none

/-- The entries of a value that is a dictionary. -/
def dict? : Value → Option Dict
  | .dict entries => some entries
  | _ => none

/-- Whether a value can be a key; lists and dictionaries cannot. -/
def isKey : Value → Bool
  | .list _ => false
  | .dict _ => false
  | _ => true

/-- Whether two values are the same key. -/
def sameKey : Value → Value → Bool
  | .null, .null => true
  | .str s, .str t => s == t
  | .ref a, .ref b => a == b
  | a, b =>
    match a.number?, b.number? with
    | some m, some n => m.same n
    | _, _ => false

/-- Whether a value is this very text. -/
def isStr (v : Value) (s : String) : Bool :=
  match v with
  | .str t => t == s
  | _ => false

/-- Whether a value counts as true: it is neither nothing, nor false, nor zero, nor empty. -/
def truthy : Value → Bool
  | .null => false
  | .bool b => b
  | .int n => n != 0
  | .float x => x != 0
  | .str s => !s.isEmpty
  | .list items => !items.isEmpty
  | .dict entries => !entries.isEmpty
  | .ref _ => true

end Value

namespace Dict

/-- The value stored under a key. -/
def get? (d : Dict) (key : Value) : Option Value :=
  (d.find? fun entry => entry.1.sameKey key).map (·.2)

/-- Whether a key is present. -/
def contains (d : Dict) (key : Value) : Bool := d.any fun entry => entry.1.sameKey key

/-- Stores a value under a key: in the key's place if it is present, at the end otherwise. -/
def insert : Dict → Value → Value → Dict
  | [], key, value => [(key, value)]
  | entry :: rest, key, value =>
    if entry.1.sameKey key then (entry.1, value) :: rest else entry :: insert rest key value

/-- The dictionary of a list of entries; of two entries with the same key the first gives the
place and the last the value. -/
def ofEntries (entries : List (Value × Value)) : Dict :=
  entries.foldl (fun d entry => Dict.insert d entry.1 entry.2) []

/-- The value stored under a name. -/
def named? (d : Dict) (name : String) : Option Value := get? d (.str name)

/-- Stores a value under a name. -/
def setNamed (d : Dict) (name : String) (value : Value) : Dict := insert d (.str name) value

end Dict

end BlockProgram
