import BlockProgram.Proofs.Program.Evaluate

/-!
# What reporters give

The type of a reporter says what its value can be (`Reporter.kind`): arithmetic gives a number,
comparisons and logic give a truth value, a sum is a number or a joined text, and only a variable
gives whatever it holds.

* What an operator gives on two operands is of its kind (`Reporter.ofKind_apply`), whatever the
  operands are and however far beyond the range of floats.
* So is the value of a reference to a reporter, at every place where the reporter is not busy itself
  (`Program.ofKind_evaluateIdle`).
* Hence in a program of checked blocks no slot fails but for a whole number that is too long for its
  text, and every reporter keeps to its kind (`Program.evaluate_ofKind`).
-/

namespace BlockProgram

/-! ## Kinds of values -/

/-- What is known of a value. -/
inductive ValueKind where
  | number
  | truth
  | numberOrText
  | anything
  deriving DecidableEq, Repr

/-- A value is of a kind. A truth value is no number here, although it reads as one. -/
def Value.OfKind (v : Value) : ValueKind → Prop
  | .number => (∃ n, v = .int n) ∨ ∃ x, v = .float x
  | .truth => ∃ b, v = .bool b
  | .numberOrText => (∃ n, v = .int n) ∨ (∃ x, v = .float x) ∨ ∃ s, v = .str s
  | .anything => True

/-- The kind of the values of a reporter. -/
def Reporter.kind : Reporter → ValueKind
  | .minus | .multiply | .divide | .mod => .number
  | .gt | .gte | .lt | .lte | .eq | .et | .and | .or | .not => .truth
  | .plus => .numberOrText
  | .variable => .anything

namespace Value

theorem ofKind_ofNumber (n : Number) : (ofNumber n).OfKind .number := by
  cases n with
  | int n => exact .inl ⟨n, rfl⟩
  | float x => exact .inr ⟨x, rfl⟩

theorem ofKind_ofResult {result : Option Number} {v : Value} (h : ofResult result = .ok v) :
    v.OfKind .number := by
  rcases result with _ | n
  · cases h
  · cases h
    exact ofKind_ofNumber n.normalize

theorem OfKind.orText {v : Value} (h : v.OfKind .number) : v.OfKind .numberOrText :=
  h.imp_right .inl

theorem ofKind_add {a b v : Value} (h : a.add b = .ok v) : v.OfKind .numberOrText := by
  simp only [add] at h
  split at h
  · exact (ofKind_ofResult h).orText
  · obtain ⟨s, -, h⟩ := Fault.bind_ok h
    obtain ⟨t, -, h⟩ := Fault.bind_ok h
    cases h
    exact .inr (.inr ⟨s ++ t, rfl⟩)

end Value

/-! ## Operators -/

namespace Reporter

variable {r : Reporter}

theorem ofKind_unlessZero {op : Number → Number → Option Number} {a b : Number} {v : Value}
    (h : unlessZero op a b = .ok v) : v.OfKind .number := by
  simp only [unlessZero] at h
  split at h
  · cases h
    exact .inl ⟨0, rfl⟩
  · exact Value.ofKind_ofResult h

/-- **What an operator gives on two operands is of its kind.** The two operators that do not take two
operands are left out. -/
theorem ofKind_apply (hvariable : r ≠ .variable) (hnot : r ≠ .not) {a b v : Value}
    (h : r.apply a b = .ok v) : v.OfKind r.kind := by
  cases r with
  | plus => exact Value.ofKind_add h
  | minus | multiply => exact Value.ofKind_ofResult h
  | divide | mod => exact ofKind_unlessZero h
  | gt | gte | lt | lte | and | or =>
    cases h
    exact ⟨_, rfl⟩
  | eq | et =>
    obtain ⟨equal, -, rfl⟩ := Fault.map_ok h
    exact ⟨equal, rfl⟩
  | «variable» => exact absurd rfl hvariable
  | not => exact absurd rfl hnot

end Reporter

/-! ## References to reporters -/

namespace Program

variable {blocks : List Block} {vars : Dict} {idle : List Node} {id : String} {n : Node}
  {r : Reporter} {v : Value}

/-- **The value of a reference to a reporter that is not busy is of the reporter's kind.** -/
theorem ofKind_evaluateIdle (hn : findNode? idle id = some n) (htype : n.type = .str r.typeName)
    (h : evaluateIdle vars idle (.ref id) = .ok v) : v.OfKind r.kind := by
  rw [evaluateIdle_ref hn, htype, r.ofType?_typeName] at h
  cases r with
  | «variable» => trivial
  | not =>
    obtain ⟨a, -, rfl⟩ := Fault.map_ok h
    exact ⟨!a.truthy, rfl⟩
  | _ =>
    dsimp only at h
    split at h
    · cases h
    · split at h
      · cases h
      · exact Reporter.ofKind_apply (by decide) (by decide) h

/-- **No slot of a checked program fails, and every reporter keeps to its kind**, whatever the
edges and the variables are. All that can be in the way of a value is a whole number that has too many
digits to be written out, and such a number is found among the variables or in a node. -/
theorem evaluate_ofKind (h : ∀ b ∈ blocks, b.InOrder) (edges : List Edge) :
    ∃ p, build blocks edges = .ok p ∧ ∀ vars : Dict,
      (∀ slot, (∃ v, p.evaluate vars slot = .ok v) ∨
        p.evaluate vars slot = .error .tooManyDigits ∧ ¬ Short vars p.nodes) ∧
      ∀ id n r, p.node? id = some n → n.type = .str (Reporter.typeName r) →
        (∃ v, p.evaluate vars (.ref id) = .ok v ∧ v.OfKind r.kind) ∨
          p.evaluate vars (.ref id) = .error .tooManyDigits ∧ ¬ Short vars p.nodes := by
  obtain ⟨p, hp⟩ := exists_build h edges
  have htyped := typed_of_build h hp
  refine ⟨p, hp, fun vars => ⟨fun slot => ?_, fun id n r hn htype => ?_⟩⟩
  · exact (unlessLong_evaluate htyped vars slot).ok_or
  · refine (unlessLong_evaluate htyped vars (.ref id)).ok_or.imp_left ?_
    rintro ⟨v, hv⟩
    exact ⟨v, hv, ofKind_evaluateIdle hn htype hv⟩

/-- A sum and a remainder that take each other as operands, beside the largest whole number that
reads as one and the next, which does not. -/
def entangled : List Block := [
  { id := "sum", type := .str "plus_operator", inputs := .dict [(.str "b", .str "1e400")] },
  { id := "rest", type := .str "mod_operator", inputs := .dict [(.str "a", .int Number.floatMax)] },
  { id := "less", type := .str "minus_operator",
    inputs := .dict [(.str "a", .int Number.floatMax), (.str "b", .float 0.5)] },
  { id := "big", type := .str "gt_operator",
    inputs := .dict [(.str "a", .int (Number.floatMax + 1))] }]

/-- Both operands that lead around in a circle. -/
def entanglement : List Edge := [.toInput "sum" (some "a") "rest", .toInput "rest" (some "b") "sum",
  .toInput "big" (some "b") "less"]

/-- No number in these blocks is too long for its text, so every reporter has a value, in spite of
the circle and of the operands beyond the range of floats. -/
theorem evaluate_entangled : (∀ b ∈ entangled, b.InOrder) ∧
    ∃ p, build entangled entanglement = .ok p ∧
      (∃ v, p.evaluate [] (.ref "sum") = .ok v ∧ v.OfKind .numberOrText) ∧
      (∃ v, p.evaluate [] (.ref "rest") = .ok v ∧ v.OfKind .number) ∧
      (∃ v, p.evaluate [] (.ref "less") = .ok v ∧ v.OfKind .number) ∧
      ∃ v, p.evaluate [] (.ref "big") = .ok v ∧ v.OfKind .truth := by
  have hinOrder : ∀ b ∈ entangled, b.InOrder := by
    intro b hb
    rw [entangled] at hb
    simp only [List.mem_cons, List.not_mem_nil, or_false] at hb
    rcases hb with rfl | rfl | rfl | rfl <;> exact ⟨⟨_, rfl⟩, ⟨_, rfl⟩, _, rfl⟩
  obtain ⟨p, hp, hvalues⟩ := evaluate_ofKind hinOrder entanglement
  have hshort : ∀ m ∈ p.nodes, m.Writable := by
    have hall : (build entangled entanglement).toOption.all fun p =>
        p.nodes.all fun m => m.inputs.all fun entry => entry.2.isWritable := by decide +kernel
    rw [hp, Except.toOption] at hall
    simp only [Option.all_some, List.all_eq_true] at hall
    exact hall
  have hnode (id : String) (r : Reporter)
      (h : (build entangled entanglement).toOption.bind (fun p => (p.node? id).bind (·.type.str?)) =
        some r.typeName) :
      ∃ v, p.evaluate [] (.ref id) = .ok v ∧ v.OfKind r.kind := by
    rw [hp, Except.toOption, Option.bind_some] at h
    obtain ⟨n, hn, hname⟩ := Option.bind_eq_some_iff.1 h
    have htype : n.type = .str r.typeName := by
      rcases htype : n.type <;> rw [htype] at hname <;> cases hname
      rfl
    exact ((hvalues []).2 id n r hn htype).resolve_right fun hlong => hlong.2 ⟨nofun, hshort⟩
  exact ⟨hinOrder, p, hp, hnode "sum" .plus (by decide +kernel),
    hnode "rest" .mod (by decide +kernel), hnode "less" .minus (by decide +kernel),
    hnode "big" .gt (by decide +kernel)⟩

end Program

end BlockProgram
