import BlockProgram.Proofs.Number.Total

/-!
# Values that can be written out

A text is missing where a whole number in the value has more than `Decimal.maxIntDigits` digits, and
nothing else is in the way of it. So joining and comparing texts may fail, and then with
`Fault.tooManyDigits`; `UnlessLong` says so of a result.

What is computed stays far below the limit: numbers are read within the range of floats, and a sum or
a product of two of them has at most 617 digits (`Value.exists_combine?`). So a number that is too
long for its text was not computed but handed over.
-/

namespace BlockProgram

/-- No whole number in the value has too many digits to be written out. -/
def Value.Writable (v : Value) : Prop := v.isWritable = true

instance (v : Value) : Decidable v.Writable := inferInstanceAs (Decidable (v.isWritable = true))

namespace Fault

variable {α β : Type} {result : Except Fault α} {b : β}

/-- A result that is there was made of one. -/
theorem map_ok {f : α → β} (h : result.map f = .ok b) : ∃ a, result = .ok a ∧ f a = b := by
  rcases result with fault | a
  · cases h
  · cases h
    exact ⟨a, rfl, rfl⟩

/-- So was every result on the way to it. -/
theorem bind_ok {f : α → Except Fault β} (h : result >>= f = .ok b) :
    ∃ a, result = .ok a ∧ f a = .ok b := by
  rcases result with fault | a
  · cases h
  · exact ⟨a, rfl, h⟩

end Fault

/-- A result that is there unless a whole number has too many digits to be written out. If everything
that it is made of is `short`, it is there, and is as `Q` says. -/
inductive UnlessLong {α : Type} (short : Prop) (Q : α → Prop) : Except Fault α → Prop
  | ok {a : α} (h : short → Q a) : UnlessLong short Q (.ok a)
  | error (h : ¬ short) : UnlessLong short Q (.error .tooManyDigits)

namespace UnlessLong

variable {α β : Type} {short short' : Prop} {Q : α → Prop} {R : β → Prop} {result : Except Fault α}

/-- The two ways in which it can end. -/
theorem cases_ok (h : UnlessLong short Q result) :
    (∃ a, result = .ok a ∧ (short → Q a)) ∨ result = .error .tooManyDigits ∧ ¬ short := by
  cases h with
  | ok h => exact .inl ⟨_, rfl, h⟩
  | error h => exact .inr ⟨rfl, h⟩

theorem ok_or (h : UnlessLong short Q result) :
    (∃ a, result = .ok a) ∨ result = .error .tooManyDigits ∧ ¬ short :=
  h.cases_ok.imp_left fun ⟨a, ha, _⟩ => ⟨a, ha⟩

/-- A result that is there is as `Q` says, if everything was short. -/
theorem of_ok {a : α} (h : UnlessLong short Q (.ok a)) (hshort : short) : Q a := by
  cases h with
  | ok h => exact h hshort

/-- If everything was short, it is there. -/
theorem exists_ok (h : UnlessLong short Q result) (hshort : short) : ∃ a, result = .ok a ∧ Q a := by
  cases h with
  | ok h => exact ⟨_, rfl, h hshort⟩
  | error h => exact absurd hshort h

/-- Less may be said of the result. -/
theorem imp {Q' : α → Prop} (h : UnlessLong short Q result) (hQ : ∀ a, Q a → Q' a) :
    UnlessLong short Q' result := by
  cases h with
  | ok h => exact .ok fun hs => hQ _ (h hs)
  | error h => exact .error h

/-- More may be asked to be short. -/
theorem mono (h : UnlessLong short Q result) (hshort : short' → short) :
    UnlessLong short' Q result := by
  cases h with
  | ok h => exact .ok fun hs => h (hshort hs)
  | error h => exact .error fun hs => h (hshort hs)

/-- What is computed of a result that may be missing is missing for the same reason, or for its
own. -/
theorem bind {f : α → Except Fault β} (h : UnlessLong short Q result)
    (hf : ∀ a, (short → Q a) → UnlessLong short R (f a)) : UnlessLong short R (result >>= f) := by
  cases h with
  | ok h => exact hf _ h
  | error h => exact .error h

theorem map {f : α → β} (h : UnlessLong short Q result) (hf : ∀ a, (short → Q a) → short → R (f a)) :
    UnlessLong short R (result.map f) := by
  cases h with
  | ok h => exact .ok (hf _ h)
  | error h => exact .error h

end UnlessLong

/-! ## Numbers within range -/

namespace Number

/-- The numbers within the range of floats have fewer bits than half as many digits as are allowed. -/
theorem exists_bits : ∃ bits, bits + bits + 1 ≤ Decimal.maxIntDigits ∧ floatMax < 2 ^ bits := by
  have hlt (k : Nat) : (2 ^ 53 - 1) * 2 ^ k < 2 ^ (53 + k) := by
    rw [Nat.pow_add]
    exact Nat.mul_lt_mul_of_pos_right (by decide) (Nat.two_pow_pos k)
  refine ⟨53 + 971, by decide, ?_⟩
  rw [floatMax]
  exact hlt 971

end Number

namespace Value

variable {a b v : Value}

/-- A whole number with fewer bits than digits are allowed can be written out. -/
theorem writable_int {n : Int} (bits : Nat) (hbits : bits ≤ Decimal.maxIntDigits)
    (h : n.natAbs < 2 ^ bits) : (Value.int n).Writable := by
  have hten : n.natAbs < 10 ^ Decimal.maxIntDigits :=
    calc n.natAbs
      _ < 2 ^ bits := h
      _ ≤ 10 ^ bits := Nat.pow_le_pow_left (by decide) bits
      _ ≤ 10 ^ Decimal.maxIntDigits := Nat.pow_le_pow_right (by decide) hbits
  exact decide_eq_true ((Nat.length_toDigits_le_iff (by decide) (by decide)).2 hten)

/-- So can every whole number within the range of floats. -/
theorem writable_of_inRange {n : Int} (h : (Number.int n).inRange = true) :
    (Value.int n).Writable := by
  obtain ⟨bits, hbits, hmax⟩ := Number.exists_bits
  exact writable_int bits (by omega) (Nat.lt_of_le_of_lt (of_decide_eq_true h) hmax)

/-- So can a number that is whole only if it has few bits, also after it was normalized. -/
theorem writable_normalize {n : Number} (bits : Nat) (hbits : bits ≤ Decimal.maxIntDigits)
    (h : ∀ k, n = .int k → k.natAbs < 2 ^ bits) : (ofNumber n.normalize).Writable := by
  cases n with
  | int k => exact writable_int bits hbits (h k rfl)
  | float x =>
    simp only [Number.normalize]
    split
    · split
      · rename_i k _ hsmall
        exact writable_int 54 (by decide) (Nat.lt_of_le_of_lt hsmall (by decide))
      · rfl
    · rfl

end Value

/-! ## Operations on whole numbers -/

section

variable {i j : Int} {k : Nat} (hi : i.natAbs < 2 ^ k) (hj : j.natAbs < 2 ^ k)
include hi hj

/-- What is no larger than two numbers of some bits together has one bit more at most. -/
theorem natAbs_lt_of_le_add {n : Int} (h : n.natAbs ≤ i.natAbs + j.natAbs) :
    n.natAbs < 2 ^ (k + k + 1) := by
  have hdouble : 2 ^ (k + 1) ≤ 2 ^ (k + k + 1) := Nat.pow_le_pow_right (by decide) (by omega)
  rw [Nat.pow_succ 2 k] at hdouble
  omega

theorem natAbs_add_lt : (i + j).natAbs < 2 ^ (k + k + 1) := natAbs_lt_of_le_add hi hj (by omega)

theorem natAbs_sub_lt : (i - j).natAbs < 2 ^ (k + k + 1) := natAbs_lt_of_le_add hi hj (by omega)

theorem natAbs_mul_lt : (i * j).natAbs < 2 ^ (k + k + 1) := by
  calc (i * j).natAbs
    _ = i.natAbs * j.natAbs := Int.natAbs_mul i j
    _ < 2 ^ k * 2 ^ k := Nat.mul_lt_mul'' hi hj
    _ = 2 ^ (k + k) := (Nat.pow_add 2 k k).symm
    _ ≤ 2 ^ (k + k + 1) := Nat.pow_le_pow_right (by decide) (by omega)

/-- A remainder is no larger than the divisor, and by zero no larger than the dividend. -/
theorem natAbs_fmod_lt : (i.fmod j).natAbs < 2 ^ (k + k + 1) := by
  refine natAbs_lt_of_le_add hi hj ?_
  by_cases hzero : j = 0
  · rw [hzero, Int.fmod_zero]
    omega
  · have hnonneg := Int.emod_nonneg i hzero
    have hlt := Int.emod_lt i hzero
    rw [Int.fmod_eq_emod]
    split <;> omega

end

/-! ## Results of arithmetic -/

namespace Value

variable {v : Value} {m n : Number}

theorem exists_ofResult {result : Option Number} (h : ∃ n, result = some n) :
    ∃ v, ofResult result = .ok v := by
  obtain ⟨n, rfl⟩ := h
  exact ⟨ofNumber n.normalize, rfl⟩

/-- The number that a value reads as becomes a float. -/
theorem exists_toFloat?_toNumber (v : Value) : ∃ x, v.toNumber.toFloat? = some x :=
  Number.exists_toFloat? v.inRange_toNumber

/-- **What is computed of two numbers within range can be written out**, if the operation on whole
numbers no more than doubles the bits. -/
theorem exists_combine? {onInt : Int → Int → Int} {onFloat : Float → Float → Float}
    (hop : ∀ i j : Int, ∀ k, i.natAbs < 2 ^ k → j.natAbs < 2 ^ k →
      (onInt i j).natAbs < 2 ^ (k + k + 1))
    (hm : m.inRange = true) (hn : n.inRange = true) :
    ∃ v, ofResult (Number.combine? onInt onFloat m n) = .ok v ∧ v.Writable := by
  obtain ⟨x, hx⟩ := Number.exists_toFloat? hm
  obtain ⟨y, hy⟩ := Number.exists_toFloat? hn
  obtain ⟨c, hc⟩ := @Number.exists_combine? _ _ onInt onFloat _ _ hx hy
  refine ⟨ofNumber c.normalize, by rw [hc]; rfl, ?_⟩
  obtain ⟨bits, hbits, hmax⟩ := Number.exists_bits
  refine writable_normalize (bits + bits + 1) hbits ?_
  rintro k rfl
  unfold Number.combine? at hc
  split at hc
  · cases hc
    exact hop _ _ bits (Nat.lt_of_le_of_lt (of_decide_eq_true hm) hmax)
      (Nat.lt_of_le_of_lt (of_decide_eq_true hn) hmax)
  · obtain ⟨_, -, hfloat⟩ := Option.map_eq_some_iff.1 hc
    cases hfloat

/-- So can a quotient, which is a float. -/
theorem exists_div? (hm : m.inRange = true) (hn : n.inRange = true) (hzero : n.isZero = false) :
    ∃ v, ofResult (m.div? n) = .ok v ∧ v.Writable := by
  obtain ⟨c, hc⟩ := Number.exists_div? hm hn hzero
  refine ⟨ofNumber c.normalize, by rw [hc]; rfl, ?_⟩
  refine writable_normalize 0 (by decide) ?_
  rintro k rfl
  unfold Number.div? at hc
  split at hc
  · dsimp only at hc
    split at hc <;> cases hc
  · obtain ⟨_, -, hfloat⟩ := Option.map_eq_some_iff.1 hc
    cases hfloat

end Value

/-! ## Texts -/

namespace Value

variable {a b v : Value}

/-- What stands in a dictionary that can be written out can be written out. -/
theorem Writable.of_entry {entries : Dict} (h : (Value.dict entries).Writable)
    {entry : Value × Value} (hentry : entry ∈ entries) : entry.2.Writable := by
  rw [Writable, isWritable] at h
  induction entries with
  | nil => cases hentry
  | cons first rest ih =>
    rw [haveWritable, Bool.and_eq_true, Bool.and_eq_true] at h
    rcases List.mem_cons.1 hentry with rfl | hentry
    · exact h.1.2
    · exact ih h.2 hentry

/-- A whole number can be written out if it has not too many digits. -/
theorem writable_int_iff {n : Int} :
    (Value.int n).Writable ↔ (Nat.toDigits 10 n.natAbs).length ≤ Decimal.maxIntDigits :=
  decide_eq_true_iff

/-- A power of ten has one digit more than its exponent. -/
theorem not_writable_pow {k : Nat} (h : Decimal.maxIntDigits ≤ k) :
    ¬ (Value.int (10 ^ k)).Writable := by
  rw [writable_int_iff, Nat.length_toDigits_le_iff (by decide) (by decide), Int.natAbs_pow]
  exact Nat.not_lt.2 (Nat.pow_le_pow_right (by decide) h)

theorem toText_int {n : Int} (h : (Value.int n).Writable) : toText (.int n) = .ok (Int.repr n) :=
  if_pos h

/-- **A value has a text** unless a whole number in it has too many digits. -/
theorem unlessLong_toText (v : Value) :
    UnlessLong (v.Writable) (fun _ => True) v.toText := by
  have hplain : UnlessLong (v.Writable) (fun _ => True)
      (if v.isWritable then .ok v.plain else .error .tooManyDigits : Except Fault String) := by
    split
    · exact .ok fun _ => trivial
    · rename_i hlong
      exact .error hlong
  cases v with
  | null | float => exact .ok fun _ => trivial
  | bool b => cases b <;> exact .ok fun _ => trivial
  | _ => exact hplain

/-- What is read of the texts of two values. -/
theorem unlessLong_texts {α : Type} {R : α → Prop} (f : String → String → α)
    (hf : ∀ s t, R (f s t)) (a b : Value) :
    UnlessLong (a.Writable ∧ b.Writable) R
      (do return f (← a.toText) (← b.toText)) := by
  refine (a.unlessLong_toText.mono And.left).bind fun s _ => ?_
  exact (b.unlessLong_toText.mono And.right).bind fun t _ => .ok fun _ => hf s t

/-- A sum, or the joined texts. -/
theorem unlessLong_add (a b : Value) :
    UnlessLong (a.Writable ∧ b.Writable) Value.Writable (a.add b) := by
  simp only [add]
  split
  · rename_i m n hm hn
    have hadd : ∃ v, ofResult (m.add? n) = .ok v ∧ v.Writable :=
      exists_combine? (fun _ _ _ => natAbs_add_lt) (inRange_numeric? hm) (inRange_numeric? hn)
    obtain ⟨v, hv, hwritable⟩ := hadd
    rw [hv]
    exact .ok fun _ => hwritable
  · exact unlessLong_texts (R := Value.Writable) (fun s t => Value.str (s ++ t)) (fun _ _ => rfl) a b

/-- Values are compared as numbers where both are numbers, which never needs a text, and as texts
otherwise. -/
theorem unlessLong_looselyEqual (a b : Value) :
    UnlessLong (a.Writable ∧ b.Writable) (fun _ => True) (a.looselyEqual b) := by
  simp only [looselyEqual]
  split
  · exact .ok fun _ => trivial
  · exact unlessLong_texts (R := fun _ => True) (fun s t => s == t) (fun _ _ => trivial) a b

end Value

end BlockProgram
