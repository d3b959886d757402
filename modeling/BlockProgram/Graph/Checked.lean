import BlockProgram.Fault

/-!
# Checking records

A record is checked part by part. All parts are looked at, and either every one is in order and
gives its value, or the issues of all parts are reported in the order of the parts.
-/

namespace BlockProgram

/-- The outcome of a check: a value, or all issues found. -/
abbrev Checked (α : Type) := Except (List Issue) α

namespace Checked

/-- A single issue at this very part. -/
def refuse {α : Type} (cause : IssueCause) : Checked α := .error [⟨[], cause⟩]

/-- The check of a part, placed inside the larger record. -/
def under {α : Type} (steps : List PathStep) : Checked α → Checked α
  | .ok a => .ok a
  | .error issues => .error (issues.map (Issue.under steps))

/-- The next part of a record: both checks have to pass, and the issues of both are kept. -/
def part {α β : Type} (f : Checked (α → β)) (a : Checked α) : Checked β :=
  match f, a with
  | .ok f, .ok a => .ok (f a)
  | .ok _, .error issues => .error issues
  | .error issues, .ok _ => .error issues
  | .error issues, .error more => .error (issues ++ more)

/-- The checks of the items of a list, each placed under its index. -/
def items {α β : Type} (check : α → Checked β) : Nat → List α → Checked (List β)
  | _, [] => .ok []
  | i, a :: rest =>
    part (part (.ok List.cons) (under [.index (i : Nat)] (check a))) (items check (i + 1) rest)

/-- A failed check as a fault. -/
def toExcept {α : Type} : Checked α → Except Fault α
  | .ok a => .ok a
  | .error issues => .error (.invalid issues)

end Checked

end BlockProgram
