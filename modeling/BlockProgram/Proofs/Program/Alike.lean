import BlockProgram.Proofs.Program.References

/-!
# Slots that read alike

Nothing and the empty text are not the same value, but no operator can tell them apart, and no
number, text or truth value that is read from one differs from what is read from the other
(`Value.unblank`). Nor does a reference tell them from the value of a block that is no reporter,
which is nothing.

So where two lists of nodes have the same reporters (`Program.SameReporters`), a slot has the same
value in both (`Program.evaluateIdle_eq`), even if nothing or the empty text has taken the place of
some references to other blocks.
-/

namespace BlockProgram

/-! ## Nothing and the empty text -/

namespace Value

/-- A value, with nothing for the empty text. -/
def unblank (v : Value) : Value := if v.isStr "" then .null else v

variable {v : Value}

/-- Only nothing and the empty text count as nothing. -/
theorem unblank_eq_null : v.unblank = .null ↔ v = .null ∨ v = .str "" := by
  rw [unblank]
  cases v <;> simp [isStr]

/-- What reads nothing and the empty text alike reads a value as it does without the latter. -/
theorem eq_unblank {α : Type} {f : Value → α} (h : f (.str "") = f .null) (v : Value) :
    f v = f v.unblank := by
  rw [unblank]
  split
  · rename_i hblank
    cases v with
    | str s =>
      obtain rfl : s = "" := beq_iff_eq.1 hblank
      exact h
    | _ => cases hblank
  · rfl

/-- Where a number is wanted the empty text is zero, as nothing is. -/
theorem numericText?_empty : numericText? "" = some (.int 0) := by decide +kernel

theorem numeric?_unblank (v : Value) : v.unblank.numeric? = v.numeric? :=
  (eq_unblank numericText?_empty v).symm

theorem toNumber_unblank (v : Value) : v.unblank.toNumber = v.toNumber := by
  rw [toNumber, numeric?_unblank, toNumber]

/-- Both are written as the empty text. -/
theorem toText_unblank (v : Value) : v.unblank.toText = v.toText :=
  (eq_unblank rfl v).symm

/-- Neither of them is true. -/
theorem truthy_unblank (v : Value) : v.unblank.truthy = v.truthy :=
  (eq_unblank rfl v).symm

/-- Neither of them is compared as a number. -/
theorem comparable?_unblank (v : Value) : v.unblank.comparable? = v.comparable? :=
  (eq_unblank rfl v).symm

end Value

open Value in
/-- **No operator tells nothing from the empty text.** -/
theorem Reporter.apply_unblank (r : Reporter) (a b : Value) :
    r.apply a.unblank b.unblank = r.apply a b := by
  cases r <;>
    simp only [apply, Value.add, looselyEqual, numeric?_unblank, toNumber_unblank, toText_unblank,
      truthy_unblank, comparable?_unblank]

namespace Program

variable {vars : Dict} {idle idle' : List Node} {gone : String → Prop}

/-- Two results that differ at most in nothing and the empty text. -/
def ReadAlike (x y : Except Fault Value) : Prop := x.map Value.unblank = y.map Value.unblank

namespace ReadAlike

variable {x y x' y' : Except Fault Value}

theorem refl (x : Except Fault Value) : ReadAlike x x := rfl

/-- What is read alike fails alike. -/
theorem error_left {fault : Fault} (h : ReadAlike (.error fault) y) : y = .error fault := by
  rcases y with fault' | v <;> cases h
  rfl

/-- What is read alike differs at most in nothing and the empty text. -/
theorem ok_left {v : Value} (h : ReadAlike (.ok v) y) : ∃ v', y = .ok v' ∧ v.unblank = v'.unblank := by
  rcases y with fault | v'
  · cases h
  · exact ⟨v', rfl, Except.ok.inj h⟩

/-- What is read alike from nothing and the empty text is the same for both results. -/
theorem bind_eq {α : Type} {f : Value → Except Fault α} (hf : ∀ v, f v.unblank = f v)
    (h : ReadAlike x y) : x.bind f = y.bind f := by
  rcases x with fault | v
  · rw [h.error_left]
  · obtain ⟨v', rfl, hv⟩ := h.ok_left
    calc f v
      _ = f v.unblank := (hf v).symm
      _ = f v'.unblank := congrArg f hv
      _ = f v' := hf v'

/-- A function that cannot tell nothing from the empty text has one result. -/
theorem map_eq {α : Type} {f : Value → α} (hf : ∀ v, f v.unblank = f v) (h : ReadAlike x y) :
    x.map f = y.map f := by
  have hmap (z : Except Fault Value) : z.map f = z.bind fun v => .ok (f v) := by
    rcases z <;> rfl
  rw [hmap, hmap]
  exact bind_eq (fun v => congrArg Except.ok (hf v)) h

end ReadAlike

/-! ## Reporters and references -/

/-- There is no reporter at a place. -/
def Silent (place : Option Node) : Prop :=
  ∀ n, place = some n → Reporter.ofType? n.type = .ok none

/-- The second slot is the first, or has nothing or the empty text in place of a reference to a
block that is gone. -/
def SameSlot (gone : String → Prop) (v v' : Value) : Prop :=
  v' = v ∨ ∃ id, v = .ref id ∧ gone id ∧ v'.unblank = .null

/-- Two lists of nodes with the same reporters, whose slots are the same but for references to what
is gone, which is no reporter. -/
structure SameReporters (gone : String → Prop) (idle idle' : List Node) : Prop where
  absent : ∀ id, gone id → Silent (findNode? idle id)
  same : ∀ id, (Silent (findNode? idle id) ∧ Silent (findNode? idle' id)) ∨
    ∃ n n', findNode? idle id = some n ∧ findNode? idle' id = some n' ∧ n'.type = n.type ∧
      ∀ socket, SameSlot gone (n.input socket) (n'.input socket)

theorem silent_none : Silent none := by
  rintro n ⟨⟩

/-- Where no reporter is, none appears when another node becomes busy. -/
theorem silent_without {id : String} (h : Silent (findNode? idle id)) (busy : String) :
    Silent (findNode? (without idle busy) id) := by
  intro n hn
  rw [findNode?_without] at hn
  split at hn
  · cases hn
  · exact h n hn

/-- The same reporters stay the same when one of them becomes busy in both programs. -/
theorem SameReporters.without (h : SameReporters gone idle idle') (busy : String) :
    SameReporters gone (without idle busy) (without idle' busy) := by
  refine ⟨fun id hid => silent_without (h.absent id hid) busy, fun id => ?_⟩
  rcases h.same id with ⟨hsilent, hsilent'⟩ | hboth
  · exact .inl ⟨silent_without hsilent busy, silent_without hsilent' busy⟩
  · rw [findNode?_without, findNode?_without]
    by_cases hid : id = busy
    · rw [if_pos hid, if_pos hid]
      exact .inl ⟨silent_none, silent_none⟩
    · rw [if_neg hid, if_neg hid]
      exact .inr hboth

/-- What is a reporter in one list is one in the other. -/
theorem SameReporters.of_some (h : SameReporters gone idle idle') {id : String} {n : Node}
    (hn : findNode? idle id = some n) (htype : Reporter.ofType? n.type ≠ .ok none) :
    ∃ n', findNode? idle' id = some n' ∧ n'.type = n.type ∧
      ∀ socket, SameSlot gone (n.input socket) (n'.input socket) := by
  rcases h.same id with ⟨hsilent, -⟩ | ⟨m, n', hm, hn', hboth⟩
  · exact absurd (hsilent n hn) htype
  · obtain rfl := Option.some.inj (hn.symm.trans hm)
    exact ⟨n', hn', hboth⟩

/-- A place without a reporter has none in the other program. -/
theorem SameReporters.silent (h : SameReporters gone idle idle') {id : String}
    (hsilent : Silent (findNode? idle id)) : Silent (findNode? idle' id) := by
  rcases h.same id with ⟨-, hsilent'⟩ | ⟨n, n', hn, hn', htype, -⟩
  · exact hsilent'
  · intro m hm
    obtain rfl := Option.some.inj (hn'.symm.trans hm)
    rw [htype]
    exact hsilent n hn

/-! ## Evaluating -/

/-- A reference to a place without a reporter has nothing as its value. -/
theorem evaluateIdle_silent {id : String} (h : Silent (findNode? idle id)) :
    evaluateIdle vars idle (.ref id) = .ok .null := by
  rw [evaluateIdle]
  split
  · rfl
  · rename_i n hn
    rw [h n hn]

/-- A slot that is the same but for what is gone reads alike, if the first one has the same value in
both lists. -/
theorem readAlike_of_sameSlot (h : SameReporters gone idle idle') {v v' : Value}
    (hslot : SameSlot gone v v')
    (hsame : evaluateIdle vars idle v = evaluateIdle vars idle' v) :
    ReadAlike (evaluateIdle vars idle v) (evaluateIdle vars idle' v') := by
  rcases hslot with rfl | ⟨id, rfl, hgone, hblank⟩
  · rw [hsame]
    exact .refl _
  · rw [evaluateIdle_silent (h.absent id hgone)]
    rcases Value.unblank_eq_null.1 hblank with rfl | rfl <;> rw [evaluateIdle]
    · exact .refl _
    · rintro id ⟨⟩
    · rfl
    · rintro id ⟨⟩

/-- **The same reporters give every slot the same value.** -/
theorem evaluateIdle_eq (h : SameReporters gone idle idle') (vars : Dict) (slot : Value) :
    evaluateIdle vars idle slot = evaluateIdle vars idle' slot := by
  -- the operands of a reporter read alike, as fewer nodes are idle for them
  fun_induction evaluateIdle vars idle slot generalizing idle' with
  | case1 idle id hn =>
    have hsilent : Silent (findNode? idle id) := by
      rw [hn]
      exact silent_none
    rw [evaluateIdle_silent (h.silent hsilent)]
  | case2 idle id n hn fault htype =>
    obtain ⟨n', hn', htype', -⟩ := h.of_some hn (by rw [htype]; rintro ⟨⟩)
    rw [evaluateIdle_ref hn', htype', htype]
  | case3 idle id n hn htype =>
    have hsilent : Silent (findNode? idle id) := by
      intro m hm
      obtain rfl := Option.some.inj (hn.symm.trans hm)
      exact htype
    rw [evaluateIdle_silent (h.silent hsilent)]
  | case4 idle id n hn htype ih =>
    obtain ⟨n', hn', htype', hslots⟩ := h.of_some hn (by rw [htype]; rintro ⟨⟩)
    have hname := readAlike_of_sameSlot (h.without id) (hslots "name") (ih (h.without id))
    rw [evaluateIdle_ref hn', htype', htype]
    refine hname.bind_eq fun name => ?_
    rw [variableValue, Value.toText_unblank, variableValue]
  | case5 idle id n hn htype ih =>
    obtain ⟨n', hn', htype', hslots⟩ := h.of_some hn (by rw [htype]; rintro ⟨⟩)
    have ha := readAlike_of_sameSlot (h.without id) (hslots "a") (ih (h.without id))
    rw [evaluateIdle_ref hn', htype', htype]
    refine ha.map_eq fun a => ?_
    rw [Value.truthy_unblank]
  | case6 idle id n hn r hvariable hnot htype fault ha ih =>
    obtain ⟨n', hn', htype', hslots⟩ := h.of_some hn (by rw [htype]; rintro ⟨⟩)
    have ha' := readAlike_of_sameSlot (h.without id) (hslots "a") (ih (h.without id))
    rw [ha] at ha'
    rw [evaluateIdle_ref hn', htype', htype]
    simp only [ha'.error_left]
  | case7 idle id n hn r hvariable hnot htype a ha fault hb iha ihb =>
    obtain ⟨n', hn', htype', hslots⟩ := h.of_some hn (by rw [htype]; rintro ⟨⟩)
    have ha' := readAlike_of_sameSlot (h.without id) (hslots "a") (iha (h.without id))
    have hb' := readAlike_of_sameSlot (h.without id) (hslots "b") (ihb (h.without id))
    rw [ha] at ha'
    rw [hb] at hb'
    obtain ⟨a', ha', -⟩ := ha'.ok_left
    rw [evaluateIdle_ref hn', htype', htype]
    simp only [ha', hb'.error_left]
  | case8 idle id n hn r hvariable hnot htype a ha b hb iha ihb =>
    obtain ⟨n', hn', htype', hslots⟩ := h.of_some hn (by rw [htype]; rintro ⟨⟩)
    have ha' := readAlike_of_sameSlot (h.without id) (hslots "a") (iha (h.without id))
    have hb' := readAlike_of_sameSlot (h.without id) (hslots "b") (ihb (h.without id))
    rw [ha] at ha'
    rw [hb] at hb'
    obtain ⟨a', ha', haa⟩ := ha'.ok_left
    obtain ⟨b', hb', hbb⟩ := hb'.ok_left
    rw [evaluateIdle_ref hn', htype', htype]
    simp only [ha', hb']
    rw [← r.apply_unblank a b, haa, hbb, r.apply_unblank a' b']
  | case9 idle literal hliteral =>
    rw [evaluateIdle]
    exact hliteral

/-! ## Programs -/

variable {p q : Program}

/-- **Programs with the same reporters give every slot the same value.** -/
theorem evaluate_eq (h : SameReporters gone p.nodes q.nodes) (vars : Dict) (slot : Value) :
    p.evaluate vars slot = q.evaluate vars slot := evaluateIdle_eq h vars slot

/-- Slots that are the same but for what is gone are read alike. -/
theorem readAlike_evaluate (h : SameReporters gone p.nodes q.nodes) {v v' : Value}
    (hslot : SameSlot gone v v') (vars : Dict) :
    ReadAlike (p.evaluate vars v) (q.evaluate vars v') :=
  readAlike_of_sameSlot h hslot (evaluateIdle_eq h vars v)

end Program

end BlockProgram
