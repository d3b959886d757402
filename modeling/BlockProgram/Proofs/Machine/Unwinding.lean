import BlockProgram.Machine.Unwind
import BlockProgram.Proofs.Program.Evaluate

/-!
# How far a run unwinds

When a chain of nodes has run out, the frames are looked at one after another, from the innermost
outward. One look is enough for a frame (`unwind_cons`): a loop that goes on (`Frame.goesOn`) is
where the unwinding ends, and any other construct is taken off and left for the node after it, or
hands on to the next frame if there is none.

`Unwinds` tells the frames that are taken off from those that are kept. There is such a way for all
frames (`unwinds_of_unwind`), and by induction on it

* all frames taken off are over, and all but the last had no node to go on at (`Unwinds.all_over`,
  `Unwinds.resume_dropLast`);
* the run goes on after the last frame taken off, or in the body of the innermost frame kept, which
  is the only one that changes (`Unwinds.outcome`).
-/

namespace BlockProgram

variable {isTrue : Value → Except Fault Bool} {f : Frame} {frames removed kept left : List Frame}
  {found : Except Fault (Option String)} {link : Option String} {fault : Fault}

namespace Frame

/-- The node to go on at after the construct of a frame. -/
def resume : Frame → Option String
  | .branch resume => resume
  | .times _ _ resume => resume
  | .until _ _ resume => resume

/-- The head of the body that a loop goes back to. No run goes back to a branch. -/
def body : Frame → Option String
  | .branch _ => none
  | .times _ body _ => body
  | .until _ body _ => body

/-- A frame in its next round. A loop with a number of rounds has one less to come. -/
def nextRound : Frame → Frame
  | .times remaining body resume => .times (remaining - 1) body resume
  | frame => frame

/-- Whether a construct goes into another round. The condition of a loop is looked at only if it has
a body. -/
def goesOn (isTrue : Value → Except Fault Bool) : Frame → Except Fault Bool
  | .branch _ => .ok false
  | .times remaining body _ => .ok (remaining != 0 && body.isSome)
  | .until condition body _ => if body.isSome then (isTrue condition).map not else .ok false

/-- A construct that is over: a branch, or a loop that has no rounds left, no body, or a condition
that is true. -/
def Over (isTrue : Value → Except Fault Bool) : Frame → Prop
  | .branch _ => True
  | .times remaining body _ => remaining = 0 ∨ body = none
  | .until condition body _ => body = none ∨ isTrue condition = .ok true

theorem over_of_goesOn (h : f.goesOn isTrue = .ok false) : f.Over isTrue := by
  cases f with
  | branch resume => exact trivial
  | times remaining body resume =>
    cases body with
    | none => exact .inr rfl
    | some body =>
      left
      simpa [goesOn] using h
  | «until» condition body resume =>
    cases body with
    | none => exact .inl rfl
    | some body =>
      right
      rcases htest : isTrue condition with fault | (_ | _)
      · simp [goesOn, Except.map, htest] at h
      · simp [goesOn, Except.map, htest] at h
      · rfl

/-- What goes on is a loop with a body, and with rounds left or a condition that is not true. -/
theorem loop_of_goesOn (h : f.goesOn isTrue = .ok true) :
    (∃ remaining body resume, f = .times (remaining + 1) (some body) resume) ∨
    ∃ condition body resume, f = .until condition (some body) resume ∧
      isTrue condition = .ok false := by
  cases f with
  | branch resume => cases h
  | times remaining body resume =>
    cases remaining with
    | zero => cases h
    | succ remaining =>
      cases body with
      | none => simp [goesOn] at h
      | some body => exact .inl ⟨remaining, body, resume, rfl⟩
  | «until» condition body resume =>
    cases body with
    | none => cases h
    | some body =>
      refine .inr ⟨condition, body, resume, rfl, ?_⟩
      rcases htest : isTrue condition with fault | (_ | _)
      · simp [goesOn, Except.map, htest] at h
      · rfl
      · simp [goesOn, Except.map, htest] at h

theorem exists_body (h : f.goesOn isTrue = .ok true) : ∃ body, f.body = some body := by
  rcases loop_of_goesOn h with ⟨remaining, body, resume, rfl⟩ | ⟨condition, body, resume, rfl, -⟩
  · exact ⟨body, rfl⟩
  · exact ⟨body, rfl⟩

@[simp] theorem body_nextRound (f : Frame) : f.nextRound.body = f.body := by
  cases f <;> rfl

/-- Only the condition of a loop with a body may have no value. -/
theorem until_of_goesOn (h : f.goesOn isTrue = .error fault) : ∃ condition body resume,
    f = .until condition (some body) resume ∧ isTrue condition = .error fault := by
  cases f with
  | branch resume => cases h
  | times remaining body resume => cases h
  | «until» condition body resume =>
    cases body with
    | none => cases h
    | some body =>
      refine ⟨condition, body, resume, rfl, ?_⟩
      rcases htest : isTrue condition with fault' | answer
      · simpa [goesOn, Except.map, htest] using h
      · simp [goesOn, Except.map, htest] at h

end Frame

/-! ## One frame -/

/-- **What a look at the innermost frame comes to.** -/
theorem unwind_cons (isTrue : Value → Except Fault Bool) (f : Frame) (rest : List Frame) :
    unwind isTrue (f :: rest) =
      match f.goesOn isTrue with
      | .error fault => (.error fault, f :: rest)
      | .ok true => (.ok f.body, f.nextRound :: rest)
      | .ok false =>
        match f.resume with
        | some next => (.ok (some next), rest)
        | none => unwind isTrue rest := by
  cases f with
  | branch resume => cases resume <;> simp [unwind, Frame.goesOn, Frame.resume]
  | times remaining body resume =>
    cases remaining <;> cases body <;> cases resume <;>
      simp [unwind, Frame.goesOn, Frame.resume, Frame.body, Frame.nextRound]
  | «until» condition body resume =>
    cases body with
    | none => cases resume <;> simp [unwind, Frame.goesOn, Frame.resume]
    | some body =>
      rcases htest : isTrue condition with fault | (_ | _) <;> cases resume <;>
        simp [unwind, Frame.goesOn, Frame.resume, Frame.body, Frame.nextRound, Except.map, htest]

/-! ## All frames that are looked at -/

/-- How the unwinding of some frames goes: those that are taken off, those that are kept, and the
result, for which the innermost frame kept may have gone into its next round. -/
inductive Unwinds (isTrue : Value → Except Fault Bool) :
    List Frame → List Frame → List Frame → Except Fault (Option String) × List Frame → Prop
  /-- no frame is left -/
  | ended : Unwinds isTrue [] [] [] (.ok none, [])
  /-- a construct is left for the node after it -/
  | out {f : Frame} {rest : List Frame} {next : String} :
    f.Over isTrue → f.resume = some next →
    Unwinds isTrue (f :: rest) [f] rest (.ok (some next), rest)
  /-- a construct without a node after it hands on to the next frame -/
  | further {f : Frame} {rest removed kept : List Frame}
    {result : Except Fault (Option String) × List Frame} :
    f.Over isTrue → f.resume = none → Unwinds isTrue rest removed kept result →
    Unwinds isTrue (f :: rest) (f :: removed) kept result
  /-- a loop goes into its next round -/
  | round {f : Frame} {rest : List Frame} : f.goesOn isTrue = .ok true →
    Unwinds isTrue (f :: rest) [] (f :: rest) (.ok f.body, f.nextRound :: rest)
  /-- the condition of a loop has no value -/
  | stuck {f : Frame} {rest : List Frame} {fault : Fault} : f.goesOn isTrue = .error fault →
    Unwinds isTrue (f :: rest) [] (f :: rest) (.error fault, f :: rest)

theorem unwinds_of_unwind {result : Except Fault (Option String) × List Frame}
    (hu : unwind isTrue frames = result) :
    ∃ removed kept, Unwinds isTrue frames removed kept result := by
  induction frames with
  | nil =>
    cases hu
    exact ⟨[], [], .ended⟩
  | cons f rest ih =>
    rw [unwind_cons] at hu
    rcases hgoes : f.goesOn isTrue with fault | (_ | _) <;> rw [hgoes] at hu
    · cases hu
      exact ⟨[], f :: rest, .stuck hgoes⟩
    · have hover := Frame.over_of_goesOn hgoes
      rcases hresume : f.resume with _ | next <;> rw [hresume] at hu
      · obtain ⟨removed, kept, hrest⟩ := ih hu
        exact ⟨f :: removed, kept, .further hover hresume hrest⟩
      · cases hu
        exact ⟨[f], rest, .out hover hresume⟩
    · cases hu
      exact ⟨[], f :: rest, .round hgoes⟩

/-- The node to go on at after the last of some frames. -/
def exitOf (removed : List Frame) : Option String := removed.getLast?.bind Frame.resume

theorem exitOf_cons (h : f.resume = none) (removed : List Frame) :
    exitOf (f :: removed) = exitOf removed := by
  cases removed with
  | nil => simp [exitOf, h]
  | cons g removed => simp [exitOf, List.getLast?_cons_cons]

namespace Unwinds

section

variable {result : Except Fault (Option String) × List Frame}
  (h : Unwinds isTrue frames removed kept result)
include h

theorem frames_eq : frames = removed ++ kept := by
  induction h with
  | ended | out | round | stuck => rfl
  | further _ _ _ ih => rw [ih, List.cons_append]

/-- Only what is over is taken off. -/
theorem all_over : ∀ f ∈ removed, f.Over isTrue := by
  induction h with
  | ended | round | stuck => simp
  | out hover => simpa using hover
  | further hover _ _ ih => simpa using ⟨hover, ih⟩

/-- The unwinding ends with the first node to go on at. -/
theorem resume_dropLast : ∀ f ∈ removed.dropLast, f.resume = none := by
  induction h with
  | ended | round | stuck | out => simp
  | @further f rest removed kept result _ hresume _ ih =>
    intro g hg
    cases removed with
    | nil => simp at hg
    | cons g' removed =>
      rcases List.mem_cons.1 hg with rfl | hg
      · exact hresume
      · exact ih g hg

/-- If there is no node after the last frame taken off, there is none after any of them. -/
theorem exitOf_eq_none_iff : exitOf removed = none ↔ ∀ f ∈ removed, f.resume = none := by
  induction h with
  | ended | out | round | stuck => simp [exitOf]
  | further _ hresume _ ih =>
    rw [exitOf_cons hresume, ih]
    simp [hresume]

end

/-- **What is found and what is left.** There is a node after the last frame taken off; or there is
none, and no frame is kept, or the innermost one is that of a loop that goes on, or of one whose
condition has no value. -/
theorem outcome (h : Unwinds isTrue frames removed kept (found, left)) :
    (∃ next, exitOf removed = some next ∧ found = .ok (some next) ∧ left = kept) ∨
    (exitOf removed = none ∧ kept = [] ∧ found = .ok none ∧ left = []) ∨
    (∃ f rest, exitOf removed = none ∧ kept = f :: rest ∧ f.goesOn isTrue = .ok true ∧
      found = .ok f.body ∧ left = f.nextRound :: rest) ∨
    ∃ f rest fault, exitOf removed = none ∧ kept = f :: rest ∧ f.goesOn isTrue = .error fault ∧
      found = .error fault ∧ left = kept := by
  generalize hresult : (found, left) = result at h
  induction h with
  | ended =>
    cases hresult
    exact .inr (.inl ⟨rfl, rfl, rfl, rfl⟩)
  | @out f rest next _ hresume =>
    cases hresult
    exact .inl ⟨next, hresume, rfl, rfl⟩
  | further _ hresume _ ih =>
    rw [exitOf_cons hresume]
    exact ih hresult
  | @round f rest hgoes =>
    cases hresult
    exact .inr (.inr (.inl ⟨f, rest, rfl, rfl, hgoes, rfl, rfl⟩))
  | @stuck f rest fault hgoes =>
    cases hresult
    exact .inr (.inr (.inr ⟨f, rest, fault, rfl, rfl, hgoes, rfl, rfl⟩))

/-- Where the run goes on. -/
theorem answer (h : Unwinds isTrue frames removed kept (.ok link, left)) :
    left = (if (exitOf removed).isSome then kept else kept.modifyHead Frame.nextRound) ∧
    (exitOf removed = none → ∀ f ∈ kept.head?, f.goesOn isTrue = .ok true) ∧
    link = (exitOf removed).or (left.head?.bind Frame.body) ∧
    (link = none ↔ left = [] ∧ ∀ f ∈ removed, f.resume = none) := by
  rw [← h.exitOf_eq_none_iff]
  rcases h.outcome with ⟨next, hexit, hfound, rfl⟩ | ⟨hexit, rfl, hfound, rfl⟩ |
    ⟨f, rest, hexit, rfl, hgoes, hfound, rfl⟩ | ⟨f, rest, fault, -, -, -, hfound, -⟩
  · cases hfound
    simp [hexit]
  · cases hfound
    simp [hexit]
  · cases hfound
    obtain ⟨body, hbody⟩ := Frame.exists_body hgoes
    simp [hexit, hgoes, hbody]
  · cases hfound

/-- Where a fault leaves the run. -/
theorem failure (h : Unwinds isTrue frames removed kept (.error fault, left)) :
    left = kept ∧ (∀ f ∈ removed, f.resume = none) ∧ ∃ condition body resume rest,
      kept = .until condition (some body) resume :: rest ∧ isTrue condition = .error fault := by
  rw [← h.exitOf_eq_none_iff]
  rcases h.outcome with ⟨next, -, hfound, -⟩ | ⟨-, -, hfound, -⟩ | ⟨f, rest, -, -, -, hfound, -⟩ |
    ⟨f, rest, fault', hexit, rfl, hgoes, hfound, hleft⟩
  · cases hfound
  · cases hfound
  · cases hfound
  · cases hfound
    obtain ⟨condition, body, resume, rfl, htest⟩ := Frame.until_of_goesOn hgoes
    exact ⟨hleft, hexit, condition, body, resume, rest, rfl, htest⟩

end Unwinds

namespace Program

/-- Where the types of all nodes are texts, every slot is true or not, unless a whole number is too
long for its text. -/
theorem unlessLong_isTrue {p : Program} (hp : ∀ n ∈ p.nodes, n.Typed) (vars : Dict)
    (slot : Value) :
    UnlessLong (Short vars p.nodes) (fun _ => True) (p.isTrue vars slot) :=
  (unlessLong_evaluate hp vars slot).map fun _ _ _ => trivial

/-- **Unwinding is exact.** For any frames, in any program and with any variables, some of the
innermost frames are taken off, and no other frame changes but that of a counted loop which goes into
its next round and then has one less to come. Every frame taken off was over, and all but the last
had no node to go on at. The run goes on at the node after the last frame taken off, if there is one,
and otherwise in the body of the innermost frame left, which is that of a loop that goes on; there is
nowhere to go on exactly if no frame is left and none of those taken off had a node to go on at.

Only the condition of a loop with a body can fail, which then is the innermost frame left. If the types
of all nodes are texts, none does but for a whole number that is too long for its text. -/
theorem unwind_exact (p : Program) (vars : Dict) (frames : List Frame) :
    ∃ removed kept found left, unwind (p.isTrue vars) frames = (found, left) ∧
      frames = removed ++ kept ∧
      (∀ f ∈ removed, f.Over (p.isTrue vars)) ∧
      (∀ f ∈ removed.dropLast, f.resume = none) ∧
      (∀ link, found = .ok link →
        left = (if (exitOf removed).isSome then kept else kept.modifyHead Frame.nextRound) ∧
        (exitOf removed = none → ∀ f ∈ kept.head?, f.goesOn (p.isTrue vars) = .ok true) ∧
        link = (exitOf removed).or (left.head?.bind Frame.body) ∧
        (link = none ↔ left = [] ∧ ∀ f ∈ removed, f.resume = none)) ∧
      (∀ fault, found = .error fault →
        left = kept ∧ (∀ f ∈ removed, f.resume = none) ∧ ∃ condition body resume rest,
          kept = .until condition (some body) resume :: rest ∧
          p.isTrue vars condition = .error fault) ∧
      ((∀ n ∈ p.nodes, n.Typed) →
        (∃ link, found = .ok link) ∨ found = .error .tooManyDigits ∧ ¬ Short vars p.nodes) := by
  rcases hu : unwind (p.isTrue vars) frames with ⟨found, left⟩
  obtain ⟨removed, kept, h⟩ := unwinds_of_unwind hu
  refine ⟨removed, kept, found, left, rfl, h.frames_eq, h.all_over, h.resume_dropLast, ?_, ?_, ?_⟩
  · rintro link rfl
    exact h.answer
  · rintro fault rfl
    exact h.failure
  · intro hp
    rcases found with fault | link
    · obtain ⟨-, -, condition, body, resume, rest, -, htest⟩ := h.failure
      obtain ⟨answer, hanswer, -⟩ | ⟨hlong, hshort⟩ := (unlessLong_isTrue hp vars condition).cases_ok
      · rw [hanswer] at htest
        cases htest
      · obtain rfl : fault = .tooManyDigits := Except.error.inj (htest.symm.trans hlong)
        exact .inr ⟨rfl, hshort⟩
    · exact .inl ⟨link, rfl⟩

/-- A program with a reporter that the conditions of loops can look at. -/
def watching : Program where
  nodes := [{ id := "v", type := .str "variable", inputs := [(.str "name", .str "done")] }]

/-- A loop until that reporter is true, in a branch, in a loop with two rounds to come, in another
branch. -/
def watched : List Frame :=
  [.until (.ref "v") (some "a") none, .branch none, .times 2 (some "b") (some "c"),
    .branch (some "d")]

/-- The two inner frames are taken off, and the loop around them goes into its next round. -/
theorem unwind_watched : (∀ n ∈ watching.nodes, n.Typed) ∧ ∃ removed kept,
    unwind (watching.isTrue [(.str "done", .bool true)]) watched =
      (.ok (some "b"), [.times 1 (some "b") (some "c"), .branch (some "d")]) ∧
    watched = removed ++ kept ∧
    (∀ f ∈ removed, f.Over (watching.isTrue [(.str "done", .bool true)])) ∧
    [.times 1 (some "b") (some "c"), .branch (some "d")] =
      if (exitOf removed).isSome then kept else kept.modifyHead Frame.nextRound := by
  have htyped : ∀ n ∈ watching.nodes, n.Typed := by
    intro n hn
    rw [List.mem_singleton.1 hn]
    exact ⟨_, rfl⟩
  have hresult : unwind (watching.isTrue [(.str "done", .bool true)]) watched =
      (.ok (some "b"), [.times 1 (some "b") (some "c"), .branch (some "d")]) := by
    with_unfolding_all rfl
  obtain ⟨removed, kept, found, left, hu, hsplit, hover, -, hanswer, -, hfound⟩ :=
    unwind_exact watching [(.str "done", .bool true)] watched
  have hshort : Short [(.str "done", .bool true)] watching.nodes :=
    ⟨List.forall_mem_singleton.2 rfl,
      List.forall_mem_singleton.2 (List.forall_mem_singleton.2 rfl)⟩
  obtain ⟨link, rfl⟩ := (hfound htyped).resolve_right fun hlong => hlong.2 hshort
  cases hu.symm.trans hresult
  obtain ⟨hleft, -⟩ := hanswer _ rfl
  exact ⟨htyped, removed, kept, hresult, hsplit, hover, hleft⟩

end Program

end BlockProgram
