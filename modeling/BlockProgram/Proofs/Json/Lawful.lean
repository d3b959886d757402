import BlockProgram.Json.Library
import BlockProgram.Proofs.Json.Readable
import Mathlib.Data.List.Forall2

/-!
# Laws of libraries for documents

What saving and loading programs rests on is stated for any library for documents
(`Json.Library.Lawful`): what it reads is readable, and what it writes comes back. The laws say so of
each kind of value by itself. A finite number comes back as it is, and of an infinity and of
not-a-number, for which documents have no text, comes nothing.

It follows that a readable value comes back with nothing in the place of these numbers
(`Json.Library.Lawful.returns`).
-/

namespace BlockProgram.Json

/-! ## Values without text -/

mutual

/-- A value with nothing in the place of infinities and not-a-number. -/
def blanked : Value → Value
  | .float x => if Binary.isFinite x then .float x else .null
  | .list items => .list (blankedItems items)
  | .dict entries => .dict (blankedEntries entries)
  | v => v

/-- The items of a list, each of them blanked. -/
def blankedItems : List Value → List Value
  | [] => []
  | item :: rest => blanked item :: blankedItems rest

/-- The entries of a dictionary with their values blanked. -/
def blankedEntries : Dict → Dict
  | [] => []
  | (key, value) :: rest => (key, blanked value) :: blankedEntries rest

end

theorem blankedItems_eq (items : List Value) : blankedItems items = items.map blanked := by
  induction items with
  | nil => rfl
  | cons item rest ih => rw [blankedItems, ih, List.map_cons]

theorem blankedEntries_eq (entries : Dict) :
    blankedEntries entries = entries.map fun entry => (entry.1, blanked entry.2) := by
  induction entries with
  | nil => rfl
  | cons entry rest ih => rw [blankedEntries, ih, List.map_cons]

/-! ## Laws -/

/-- Nothing, or a width of 64 bits without sign. -/
def IsWidth (indent : Option Int) : Prop := ∀ n, indent = some n → 0 ≤ n ∧ n < 2 ^ 64

theorem isWidth_none : IsWidth none := nofun

namespace Library

/-- The text that is written for a value is read as another one. -/
def Returns (library : Library) (indent : Option Int) (v v' : Value) : Prop :=
  ∃ text, library.write indent v = .ok text ∧ library.read? text = some v'

/-- What is expected of a library for documents that reads within some limits. -/
structure Lawful (library : Library) (most : Limits) : Prop where
  /-- the documents of programs are not nested too deep -/
  room : 3 ≤ most.depth
  readable {text : String} {v : Value} : library.read? text = some v → Readable most 0 v
  width {n : Int} {v : Value} {text : String} :
    library.write (some n) v = .ok text → 0 ≤ n ∧ n < 2 ^ 64
  null {indent : Option Int} (hwidth : IsWidth indent) : library.Returns indent .null .null
  bool {indent : Option Int} (hwidth : IsWidth indent) (b : Bool) :
    library.Returns indent (.bool b) (.bool b)
  int {indent : Option Int} (hwidth : IsWidth indent) (n : Int)
    (h : (Nat.toDigits 10 n.natAbs).length ≤ most.digits) : library.Returns indent (.int n) (.int n)
  float {indent : Option Int} (hwidth : IsWidth indent) (x : Float)
    (h : Binary.isFinite x = true) : library.Returns indent (.float x) (.float x)
  /-- infinities and not-a-number -/
  special {indent : Option Int} (hwidth : IsWidth indent) (x : Float)
    (h : Binary.isFinite x = false) : library.Returns indent (.float x) .null
  str {indent : Option Int} (hwidth : IsWidth indent) (s : String) :
    library.Returns indent (.str s) (.str s)
  list {indent : Option Int} (hwidth : IsWidth indent) {items items' : List Value}
    (h : Readable most 0 (.list items)) (hitems : List.Forall₂ (library.Returns indent) items items') :
    library.Returns indent (.list items) (.list items')
  dict {indent : Option Int} (hwidth : IsWidth indent) {entries entries' : Dict}
    (h : Readable most 0 (.dict entries))
    (hentries : List.Forall₂ (fun entry entry' =>
      entry.1 = entry'.1 ∧ library.Returns indent entry.2 entry'.2) entries entries') :
    library.Returns indent (.dict entries) (.dict entries')
  coordinate (x : Float) : library.origin.coordinate (.float x) = .ok x
  /-- a coordinate has to be there -/
  nothing : library.origin.coordinate .null = Checked.refuse .numberExpected

variable {library : Library} {most : Limits} {indent : Option Int} {v : Value}

/-- **A readable value comes back**, with nothing in the place of infinities and not-a-number. -/
theorem Lawful.returns {depth : Nat} (hlaws : library.Lawful most) (hwidth : IsWidth indent)
    (h : Readable most depth v) : library.Returns indent v (blanked v) := by
  -- each container is written as a document of its own, so it is read at the outermost level
  induction h with
  | null => exact hlaws.null hwidth
  | bool b => exact hlaws.bool hwidth b
  | int h => exact hlaws.int hwidth _ h
  | float x =>
    rw [blanked]
    split
    · rename_i hfinite
      exact hlaws.float hwidth x hfinite
    · rename_i hspecial
      exact hlaws.special hwidth x (Bool.eq_false_iff.2 hspecial)
  | str s => exact hlaws.str hwidth s
  | list hdepth hitems ih =>
    rw [blanked, blankedItems_eq]
    refine hlaws.list hwidth ((Readable.list hdepth hitems).mono (Nat.zero_le _)) ?_
    exact List.forall₂_map_right_iff.2 (List.forall₂_same.2 ih)
  | dict hdepth hnamed hentries ih =>
    rw [blanked, blankedEntries_eq]
    refine hlaws.dict hwidth ((Readable.dict hdepth hnamed hentries).mono (Nat.zero_le _)) ?_
    exact List.forall₂_map_right_iff.2 (List.forall₂_same.2 fun entry hentry => ⟨rfl, ih entry hentry⟩)

end Library

end BlockProgram.Json
