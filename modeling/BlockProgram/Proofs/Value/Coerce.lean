import BlockProgram.Value.Coerce

/-!
# The numbers that values read as

Whatever a value is, the number it reads as is finite and within the range of floats: other
numbers and texts read as zero. So a whole number can always be taken below it.
-/

namespace BlockProgram

namespace Number

theorem exactLimit_le_floatMax : exactLimit ≤ floatMax := by
  have hle (k : Nat) (hk : 1 ≤ k) : exactLimit ≤ (2 ^ 53 - 1) * 2 ^ k :=
    calc exactLimit
      _ ≤ (2 ^ 53 - 1) * 2 ^ 1 := by decide
      _ ≤ (2 ^ 53 - 1) * 2 ^ k := Nat.mul_le_mul_left _ (Nat.pow_le_pow_right (by decide) hk)
  rw [floatMax]
  exact hle 971 (by decide)

/-- Whole numbers that floats hold exactly are within range. -/
theorem inRange_of_le {n : Int} (h : n.natAbs ≤ exactLimit) : (Number.int n).inRange = true :=
  decide_eq_true (Nat.le_trans h exactLimit_le_floatMax)

/-- Turning a whole float into a whole number stays within range. -/
theorem inRange_normalize {n : Number} (h : n.inRange = true) : n.normalize.inRange = true := by
  rcases n with n | x
  · exact h
  · simp only [normalize]
    split
    · split
      · rename_i hsmall
        exact inRange_of_le hsmall
      · exact h
    · exact h

/-- A finite number has a whole number below it. -/
theorem exists_floor? {n : Number} (h : n.inRange = true) : ∃ k, n.floor? = some k := by
  rcases n with n | x
  · exact ⟨n, rfl⟩
  · obtain ⟨parts, hparts⟩ := Option.isSome_iff_exists.1 h
    exact ⟨parts.floor, by rw [floor?, Binary.floor?, hparts, Option.map_some]⟩

end Number

namespace Value

theorem inRange_numericText? {s : String} {n : Number} (h : numericText? s = some n) :
    n.inRange = true := by
  simp only [numericText?] at h
  split at h
  · cases h
    exact Number.inRange_of_le (by decide)
  · split at h
    · cases h
    · split at h
      · cases h
      · split at h
        · rename_i hfinite
          cases h
          exact Number.inRange_normalize hfinite
        · cases h

theorem inRange_numeric? {v : Value} {n : Number} (h : v.numeric? = some n) :
    n.inRange = true := by
  cases v with
  | bool b =>
    cases h
    refine Number.inRange_of_le ?_
    cases b <;> decide
  | int k =>
    obtain ⟨hk, hn⟩ := Option.ite_none_right_eq_some.1 h
    cases hn
    exact hk
  | float x =>
    obtain ⟨hx, hn⟩ := Option.ite_none_right_eq_some.1 h
    cases hn
    exact hx
  | null =>
    cases h
    exact Number.inRange_of_le (by decide)
  | str s =>
    rw [numeric?] at h
    exact inRange_numericText? h
  | list _ | dict _ | ref _ => cases h

/-- **Every value reads as a number within range.** -/
theorem inRange_toNumber (v : Value) : v.toNumber.inRange = true := by
  simp only [toNumber]
  rcases h : v.numeric? with _ | n
  · exact Number.inRange_of_le (by decide)
  · exact inRange_numeric? h

end Value

end BlockProgram
