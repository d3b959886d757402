import BlockProgram.Proofs.Machine.World
import BlockProgram.Proofs.Program.Evaluate
import BlockProgram.Proofs.Workspace.Compiled
import BlockProgram.Proofs.Workspace.Palette
import BlockProgram.Run.Execution

/-!
# Variables of the palette in a run

A name comes to a run on two ways: from the palette, which seeds the variables, and as a text typed
in at the socket `name` of a block. On both it is trimmed, and on neither is it read as a literal. So
a block at which the name of a variable is typed in means this variable, whatever the name looks
like (`Program.variable_found`): at the start of a run a reporter gives its value, and a statement
changes its entry and no other.
-/

namespace BlockProgram

/-- The name of a variable is only trimmed. -/
theorem slotValue_name (s : String) : slotValue (.str nameSocket) (.str s) = .str (Text.trim s) := by
  rw [slotValue, if_pos (show (Value.str nameSocket).isStr nameSocket = true from BEq.rfl)]

/-- Every statement is found by the name of its type. -/
theorem Statement.named?_typeName (s : Statement) : Statement.named? s.typeName = some s := by
  cases s <;> decide

namespace Program

open Exec

variable {p : Program} {n : Node} {name : String}

/-! ## Writing -/

/-- The value that a statement assigns to a variable; nothing counts as zero. -/
def assigned (p : Program) (n : Node) (vars : Dict) : Except Fault Value :=
  (p.evaluate vars (n.input "value")).map fun
    | .null => .int 0
    | v => v

/-- The value that a statement changes a variable to. -/
def increased (p : Program) (n : Node) (vars : Dict) (old : Value) : Except Fault Value :=
  (p.evaluate vars (n.input "delta")).bind fun delta =>
    Value.ofResult (old.toNumber.add? delta.toNumber)

/-- In a program of checked blocks there is always a value to store, unless a whole number is too long
for its text. -/
theorem unlessLong_assigned (h : ∀ n ∈ p.nodes, n.Typed) (n : Node) (vars : Dict) :
    UnlessLong (Short vars p.nodes) (fun _ => True) (p.assigned n vars) :=
  (unlessLong_evaluate h vars (n.input "value")).map fun _ _ _ => trivial

/-- Nor is there anything that a variable cannot be increased by, as what is no number counts as
zero. -/
theorem unlessLong_increased (h : ∀ n ∈ p.nodes, n.Typed) (n : Node) (vars : Dict) (old : Value) :
    UnlessLong (Short vars p.nodes) (fun _ => True) (p.increased n vars old) := by
  refine (unlessLong_evaluate h vars (n.input "delta")).bind fun delta _ => ?_
  obtain ⟨x, hx⟩ := old.exists_toFloat?_toNumber
  obtain ⟨y, hy⟩ := delta.exists_toFloat?_toNumber
  obtain ⟨sum, hsum⟩ := Value.exists_ofResult (Number.exists_combine? hx hy)
  rw [Number.add?, hsum]
  exact .ok fun _ => trivial

/-- A name that was typed in is read as it is. -/
theorem textAt_eq (h : n.input nameSocket = .str name) (m : Machine) :
    p.textAt n "name" m = (.ok name, m) := by
  have hread : p.evaluate m.state.world.vars (n.input "name") = .ok (.str name) := by
    rw [evaluate, ← evaluateIdle_str m.state.world.vars p.nodes name]
    exact congrArg _ h
  rw [textAt_apply, textIn, hread]
  rfl

/-- The variables after a value was stored, or none because of a fault. -/
def stored (vars : Dict) (name : String) : Except Fault Value → Dict
  | .ok value => Dict.setNamed vars name value
  | .error _ => vars

/-- Going on looks at variables and changes none. -/
theorem vars_goOn (next : Option String) (m : Machine) :
    (p.goOn next m).2.state.vars = m.state.vars := by
  cases next with
  | some _ => rfl
  | none =>
    simp only [goOn, resume]
    split <;> rfl

/-- So a statement leaves the variables that its effect leaves. -/
theorem vars_andGoOn (x : Exec Unit) (next : Option String) (m : Machine) :
    ((x >>= fun _ => p.goOn next) m).2.state.vars = (x m).2.state.vars := by
  rw [bind_apply]
  rcases x m with ⟨fault | ⟨⟩, m'⟩
  · rfl
  · exact vars_goOn next m'

/-- Assigning stores the value under the name that is typed in. -/
theorem vars_assignVar (h : n.input nameSocket = .str name) (m : Machine) :
    (p.assignVar n m).2.state.vars = stored m.state.vars name (p.assigned n m.state.vars) := by
  rw [assignVar, bind_ok (textAt_eq h m), assigned]
  rcases hvalue : p.evaluate m.state.vars (n.input "value") with fault | value
  · have hread : p.slot n "value" m = (.error fault, m) := by rw [slot_apply, hvalue]
    rw [bind_error hread]
    rfl
  · have hread : p.slot n "value" m = (.ok value, m) := by rw [slot_apply, hvalue]
    rw [bind_ok hread]
    rfl

/-- So does changing, where a sum is stored. -/
theorem vars_changeVar (h : n.input nameSocket = .str name) (m : Machine) :
    (p.changeVar n m).2.state.vars = stored m.state.vars name
      (p.increased n m.state.vars ((Dict.named? m.state.vars name).getD (.int 0))) := by
  rw [changeVar, bind_ok (textAt_eq h m), increased]
  have hread : p.numberAt n "delta" m =
      ((p.evaluate m.state.vars (n.input "delta")).map Value.toNumber, m) :=
    p.numberAt_apply n "delta" m
  rcases hdelta : p.evaluate m.state.vars (n.input "delta") with fault | delta <;>
    rw [hdelta] at hread
  · rw [bind_error hread]
    rfl
  · rw [bind_ok hread, bind_ok (getState_apply m)]
    rcases hsum : Value.ofResult
      (((Dict.named? m.state.vars name).getD (.int 0)).toNumber.add? delta.toNumber) with
      fault | sum
    · rw [bind_error (lift_apply _ m), Except.bind, hsum]
      rfl
    · rw [bind_ok (lift_apply _ m), Except.bind, hsum]
      rfl

/-- Executing a statement on a variable changes the variables as its effect does. -/
theorem vars_execute {s : Statement} (hs : s = .setVariable ∨ s = .changeVariable)
    (htype : n.type = .str s.typeName) (config : Config) (m : Machine) :
    (p.execute config n m).2.state.vars = (p.effect n s m).2.state.vars := by
  have htyped : lift (Statement.ofType? n.type) m = (.ok (some s), m) := by
    rw [htype, Statement.ofType?, s.named?_typeName]
    rfl
  rw [execute, bind_ok htyped]
  rcases hs with rfl | rfl <;> exact vars_andGoOn _ _ m

end Program

/-! ## Variables of the palette -/

namespace Workspace

/-- The variables of a run after a value was stored in one of the palette, or none because of a
fault. -/
def varsAfter (ws : Workspace) (v : Variable) : Except Fault Value → Dict
  | .ok value => ws.varsWith v value
  | .error _ => ws.initialVars

/-- **A variable of the palette is stored under its own name**, since no other has the same. -/
theorem stored_initialVars {ws : Workspace} (h : Labelled ws.palette) {v : Variable}
    (hv : v ∈ ws.palette) (result : Except Fault Value) :
    Program.stored ws.initialVars v.name result = ws.varsAfter v result := by
  rcases result with fault | value
  · rfl
  · exact setNamed_initialVars h hv value

end Workspace

namespace Program

open Workspace

variable {p : Program}

/-- The name that is typed in at a block comes to its node trimmed. -/
theorem input_of_typedName {ws : Workspace} {b : Block} {n : Node} (hnode : ws.NodeOf b n)
    {s : String} (hname : b.stored? (some nameSocket) = some (.str s))
    (hfree : ws.inputSource? b.id (some nameSocket) = none) :
    n.input nameSocket = .str (Text.trim s) := by
  rw [hnode.input, hfree, Option.map_none, Option.getD_none, Block.typedIn, hname, Option.map_some,
    slotValue_name, Option.getD_some]

/-- **Variables of the palette are found by their names.** At the start of a run, a block at which
the name of a variable is typed in, with blanks around it or not, gives the value of this variable,
or changes its entry among the variables and no other. With blocks in order nothing keeps it from
doing so but a whole number that is too long for its text. -/
theorem variable_found {ws : Workspace} (hws : ws.Reachable)
    (hp : (Source.workspace ws).compile = .ok p) {v : Variable} (hv : v ∈ ws.palette) {s : String}
    (hs : Text.trim s = v.name) {b : Block} (hb : b ∈ ws.blocks)
    (hname : b.stored? (some nameSocket) = some (.str s))
    (hfree : ws.inputSource? b.id (some nameSocket) = none) (config : Config) :
    ∃ n, p.node? b.id = some n ∧
      (b.type = .str (Reporter.typeName .variable) →
        p.evaluate ws.initialVars (.ref b.id) = .ok v.initial) ∧
      (b.type = .str (Statement.typeName .setVariable) →
        (p.execute config n (Machine.start p config ws.initialVars)).2.state.vars =
          ws.varsAfter v (p.assigned n ws.initialVars)) ∧
      (b.type = .str (Statement.typeName .changeVariable) →
        (p.execute config n (Machine.start p config ws.initialVars)).2.state.vars =
          ws.varsAfter v (p.increased n ws.initialVars v.initial)) ∧
      ((∀ b ∈ ws.blocks, b.InOrder) →
        ∀ result, result = p.assigned n ws.initialVars ∨
            result = p.increased n ws.initialVars v.initial →
          (∃ value, result = .ok value) ∨
            result = .error .tooManyDigits ∧ ¬ Short ws.initialVars p.nodes) := by
  have hlabelled := hws.labelled
  have hvalue := named?_initialVars hlabelled hv
  obtain ⟨n, hn, hnode⟩ := exists_compiled hws.wellFormed hws.distinct hp
    (block?_of_mem hws.distinct hb)
  have hinput := input_of_typedName hnode hname hfree
  rw [hs] at hinput
  rw [← hnode.type]
  refine ⟨n, hn, fun htype => ?_, fun htype => ?_, fun htype => ?_, fun hinOrder => ?_⟩
  · rw [evaluate_variable hn htype hinput, hvalue, Option.getD_some]
  · rw [vars_execute (.inl rfl) htype]
    refine (vars_assignVar hinput _).trans ?_
    exact stored_initialVars hlabelled hv _
  · rw [vars_execute (.inr rfl) htype]
    refine (vars_changeVar hinput _).trans ?_
    have hold : Dict.named? (Machine.start p config ws.initialVars).state.vars v.name =
      some v.initial := hvalue
    rw [hold]
    exact stored_initialVars hlabelled hv _
  · have htyped := typed_of_build hinOrder hp
    rintro result (rfl | rfl)
    · exact (unlessLong_assigned htyped n _).ok_or
    · exact (unlessLong_increased htyped n _ _).ok_or

/-- Three blocks at which the names of variables are typed in. -/
def callers : List Block := [
  { id := "get", type := .str "variable", inputs := .dict [(.str "name", .str "  x (2) ")] },
  { id := "set", type := .str "set_variable",
    inputs := .dict [(.str "name", .str "1.50"), (.str "value", .str "7")] },
  { id := "add", type := .str "change_variable", inputs := .dict [(.str "name", .str "TRUE\t")] }]

/-- The blocks in a workspace with four variables, two of which were given the same name. -/
def called : Workspace :=
  ([("x", 1), (" x ", 2), ("1.50", 3), ("TRUE", 4)] : List (String × Int)).foldl
    (fun ws (name, initial) =>
      ((Request.createVariable (.str name) (.int initial)).perform ws).2) { blocks := callers }

/-- The workspace of the example is one that an editor comes to. -/
theorem reachable_called : called.Reachable := by
  have hdrawn : Workspace.ofGraph ⟨callers, []⟩ = .ok { blocks := callers } := by rfl
  exact .asked (.asked (.asked (.asked (.drawn 0 hdrawn) trivial) trivial) trivial) trivial

/-- The second of the variables called `x` is read by its full name, with blanks around it, and a
name that looks like a number is no literal. -/
theorem variable_found_called : called.Reachable ∧
    called.palette.map (·.name) = ["x", "x (2)", "1.50", "TRUE"] ∧
    ∃ p, (Source.workspace called).compile = .ok p ∧
      p.evaluate called.initialVars (.ref "get") = .ok (.int 2) ∧
      ∃ n, p.node? "set" = some n ∧
        (p.execute {} n (Machine.start p {} called.initialVars)).2.state.vars =
          called.varsAfter ⟨"var_0000000003", "1.50", .int 3⟩
            (p.assigned n called.initialVars) := by
  have hpalette : called.palette = [⟨"var_0000000001", "x", .int 1⟩,
      ⟨"var_0000000002", "x (2)", .int 2⟩, ⟨"var_0000000003", "1.50", .int 3⟩,
      ⟨"var_0000000004", "TRUE", .int 4⟩] := by
    rfl
  have hblocks : called.blocks = callers := by rfl
  have hinOrder : ∀ b ∈ called.blocks, b.InOrder := by
    simp [hblocks, callers, Block.InOrder]
  obtain ⟨p, hp⟩ := exists_build hinOrder called.edges
  obtain ⟨-, -, hget, -⟩ := variable_found reachable_called hp
    (v := ⟨"var_0000000002", "x (2)", .int 2⟩) (by rw [hpalette]; simp) (s := "  x (2) ")
    (by decide +kernel) (b := callers[0]) (by simp [hblocks]) rfl rfl {}
  obtain ⟨n, hn, -, hset, -⟩ := variable_found reachable_called hp
    (v := ⟨"var_0000000003", "1.50", .int 3⟩) (by rw [hpalette]; simp) (s := "1.50")
    (by decide +kernel) (b := callers[1]) (by simp [hblocks]) rfl rfl {}
  exact ⟨reachable_called, by rw [hpalette]; rfl, p, hp, hget rfl, n, hn, hset rfl⟩

end Program

end BlockProgram
