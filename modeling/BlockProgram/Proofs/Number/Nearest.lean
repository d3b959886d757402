import BlockProgram.Number.Basic

/-!
# The range of rounding

How large the bits of the number nearest to a quotient can get:

* at the last place the quotient has a mantissa below `2 ^ 53` (`Binary.mantissa_lt`) and, unless
  that place is the smallest there is, of at least `2 ^ 52` (`Binary.le_mantissa`);
* so the bits reach those of the next power of two from half a place above `(2 ^ 53 - 1) · 2 ^ place`
  on, and not before (`Binary.nearestBits_lt`, `Binary.le_nearestBits`);
* in particular this says which quotients round to infinity
  (`Binary.nearestBits_eq_infinityBits_iff`).
-/

namespace BlockProgram.Binary

variable {num den : Nat}

/-- Less than a half above a whole number rounds to that number at most. -/
theorem roundDiv_le {bound : Nat} (hden : 0 < den) (h : 2 * num < (2 * bound + 1) * den) :
    roundDiv num den ≤ bound := by
  have hdecomposed := Nat.div_add_mod num den
  have hquotient : num / den ≤ bound := by
    refine Nat.le_of_lt_succ ((Nat.div_lt_iff_lt_mul hden).2 ?_)
    rw [Nat.add_mul, Nat.mul_assoc] at h
    rw [Nat.succ_mul]
    omega
  simp only [roundDiv]
  rcases Nat.lt_or_eq_of_le hquotient with hlt | heq
  · -- rounding up adds one at most
    have hparity : num / den % 2 ≤ 1 := Nat.le_of_lt_succ (Nat.mod_lt _ (by decide))
    split
    · omega
    · split <;> omega
  · -- at the bound the remainder is less than a half
    rw [heq, Nat.mul_comm den] at hdecomposed
    rw [Nat.add_mul, Nat.mul_assoc] at h
    rw [if_pos (by omega)]
    exact hquotient

/-- At least a half below an even number rounds to that number at least. -/
theorem le_roundDiv {bound : Nat} (hden : 0 < den) (heven : bound % 2 = 0)
    (h : 2 * bound * den ≤ 2 * num + den) : bound ≤ roundDiv num den := by
  have hdecomposed := Nat.div_add_mod num den
  have hrest := Nat.mod_lt num hden
  simp only [roundDiv]
  by_cases hquotient : bound ≤ num / den
  · split
    · exact hquotient
    · split <;> omega
  · -- one below the bound the remainder is a half at least, and the quotient is odd
    have hless : num / den + 1 ≤ bound := by omega
    have hscaled := Nat.mul_le_mul_right den hless
    rw [Nat.mul_assoc] at h
    rw [Nat.add_mul, Nat.one_mul, Nat.mul_comm _ den] at hscaled
    have hequal : num / den + 1 = bound := by
      refine Nat.le_antisymm hless (Nat.le_of_not_lt fun hfar => ?_)
      have hfar := Nat.mul_le_mul_right den (Nat.succ_le_of_lt hfar)
      rw [Nat.succ_mul, Nat.succ_mul, Nat.mul_comm _ den] at hfar
      omega
    rw [← hequal, Nat.add_mul, Nat.one_mul, Nat.mul_comm _ den] at h
    rw [if_neg (by omega)]
    split <;> omega

/-! ## The last place -/

/-- A power of two on each side of an inequality, moved to the exponents. -/
theorem mul_pow_lt {a b i j k l : Nat} (ha : a < 2 ^ i) (hb : 2 ^ j ≤ b) (h : i + k ≤ j + l) :
    a * 2 ^ k < b * 2 ^ l :=
  calc a * 2 ^ k
    _ < 2 ^ i * 2 ^ k := Nat.mul_lt_mul_of_pos_right ha (Nat.two_pow_pos k)
    _ = 2 ^ (i + k) := (Nat.pow_add 2 i k).symm
    _ ≤ 2 ^ (j + l) := Nat.pow_le_pow_right (by decide) h
    _ = 2 ^ j * 2 ^ l := Nat.pow_add 2 j l
    _ ≤ b * 2 ^ l := Nat.mul_le_mul_right _ hb

/-- The mantissa at the last place has 53 bits at most. -/
theorem mantissa_lt (hden : 0 < den) :
    num * 2 ^ (-lastPlace num den).toNat < den * 2 ^ (lastPlace num den).toNat * 2 ^ 53 := by
  have hlow : 2 ^ den.log2 ≤ den := Nat.log2_self_le (by omega)
  have hhigh : num < 2 ^ (num.log2 + 1) := Nat.lt_log2_self
  generalize hguess : (num.log2 : Int) - den.log2 - 52 = guess
  -- from the guess upward the logarithms decide
  have hup (q : Int) (hq : guess ≤ q) : num * 2 ^ (-q).toNat < den * 2 ^ q.toNat * 2 ^ 53 := by
    rw [Nat.mul_assoc, ← Nat.pow_add]
    exact mul_pow_lt hhigh hlow (by omega)
  unfold lastPlace
  rw [hguess]
  dsimp only
  split
  · rename_i hhalf
    by_cases hclipped : guess ≤ max minExponent (guess - 1)
    · exact hup _ hclipped
    · -- one place below the guess the mantissa is twice as large
      rw [show max minExponent (guess - 1) = guess - 1 by omega]
      by_cases hpos : 1 ≤ guess
      · have hplace : 2 ^ guess.toNat = 2 ^ (guess - 1).toNat * 2 := by
          rw [← Nat.pow_succ]
          congr 1
          omega
        rw [show (-guess).toNat = 0 by omega, hplace, ← Nat.mul_assoc, Nat.mul_assoc] at hhalf
        rw [show (-(guess - 1)).toNat = 0 by omega]
        exact hhalf
      · have hplace : 2 ^ (-(guess - 1)).toNat = 2 ^ (-guess).toNat * 2 := by
          rw [← Nat.pow_succ]
          congr 1
          omega
        rw [show guess.toNat = 0 by omega] at hhalf
        rw [show (guess - 1).toNat = 0 by omega, hplace, ← Nat.mul_assoc]
        have htwice := Nat.mul_lt_mul_of_pos_right hhalf (by decide : 0 < 2)
        rw [Nat.mul_assoc (den * 2 ^ 0)] at htwice
        exact htwice
  · exact hup _ (Int.le_max_right _ _)

/-- The mantissa at the last place has 53 bits at least, unless that place is the smallest. -/
theorem le_mantissa (hnum : num ≠ 0) (hplace : minExponent < lastPlace num den) :
    den * 2 ^ (lastPlace num den).toNat * 2 ^ 52 ≤ num * 2 ^ (-lastPlace num den).toNat := by
  have hhigh : den < 2 ^ (den.log2 + 1) := Nat.lt_log2_self
  have hlow : 2 ^ num.log2 ≤ num := Nat.log2_self_le hnum
  unfold lastPlace at hplace ⊢
  generalize hguess : (num.log2 : Int) - den.log2 - 52 = guess at hplace ⊢
  dsimp only at hplace ⊢
  split at hplace
  · rename_i hhalf
    rw [if_pos hhalf, show max minExponent (guess - 1) = guess - 1 by omega, Nat.mul_assoc,
      ← Nat.pow_add]
    exact Nat.le_of_lt (mul_pow_lt hhigh hlow (by omega))
  · rename_i hhalf
    rw [if_neg hhalf, show max minExponent guess = guess by omega]
    omega

/-! ## The bits -/

theorem nearestBits_le (num den : Nat) : nearestBits num den ≤ infinityBits := by
  simp only [nearestBits]
  split
  · exact Nat.zero_le _
  · exact Nat.min_le_left _ _

/-- Rounding is below the next binade for what is less than a half above the largest mantissa. -/
theorem nearestBits_lt {place : Nat} (hden : 0 < den)
    (h : 2 * num < (2 ^ 54 - 1) * (2 ^ place * den)) :
    nearestBits num den < (place + 1076) * 2 ^ 52 := by
  unfold nearestBits
  split
  · exact Nat.mul_pos (by omega) (Nat.two_pow_pos 52)
  rename_i hnum
  dsimp only
  have hbelow := @mantissa_lt num den hden
  have habove := @le_mantissa num den hnum
  generalize lastPlace num den = q at hbelow habove
  refine Nat.lt_of_le_of_lt (Nat.min_le_right _ _) ?_
  have hscaled : 0 < den * 2 ^ q.toNat := Nat.mul_pos hden (Nat.two_pow_pos _)
  rcases Int.lt_trichotomy q place with hlt | heq | hgt
  · have hmantissa : roundDiv (num * 2 ^ (-q).toNat) (den * 2 ^ q.toNat) ≤ 2 ^ 53 := by
      refine roundDiv_le hscaled ?_
      generalize num * 2 ^ (-q).toNat = a at hbelow
      generalize den * 2 ^ q.toNat = b at hbelow hscaled
      omega
    have hplace : (q - minExponent).toNat ≤ place + 1073 := by
      simp only [minExponent]
      omega
    have hweight := Nat.mul_le_mul_right (2 ^ 52) hplace
    omega
  · -- at the same place the mantissa is bounded by what the quotient is
    have hmantissa : roundDiv (num * 2 ^ (-q).toNat) (den * 2 ^ q.toNat) ≤ 2 ^ 53 - 1 := by
      refine roundDiv_le hscaled ?_
      rw [heq, show (-(place : Int)).toNat = 0 by omega, Int.toNat_natCast, Nat.pow_zero, Nat.mul_one,
        Nat.mul_comm den]
      exact h
    have hplace : (q - minExponent).toNat = place + 1074 := by
      simp only [minExponent]
      omega
    rw [hplace]
    omega
  · -- a higher place would need a larger quotient
    have hlow := habove (by unfold minExponent; omega)
    rw [show (-q).toNat = 0 by omega, Nat.pow_zero, Nat.mul_one] at hlow
    have hplace : 2 ^ (place + 1) ≤ 2 ^ q.toNat := Nat.pow_le_pow_right (by decide) (by omega)
    have hquotient : 2 ^ place * den * 2 * 2 ^ 52 ≤ num := by
      refine Nat.le_trans (Nat.mul_le_mul_right _ ?_) hlow
      rw [Nat.mul_right_comm, ← Nat.pow_succ, Nat.mul_comm _ den]
      exact Nat.mul_le_mul_left _ hplace
    have hpos : 0 < 2 ^ place * den := Nat.mul_pos (Nat.two_pow_pos _) hden
    generalize 2 ^ place * den = scaled at hquotient hpos h
    omega

/-- From a half above the largest mantissa on, rounding reaches the next binade. -/
theorem le_nearestBits {place : Nat} (hden : 0 < den)
    (h : (2 ^ 54 - 1) * (2 ^ place * den) ≤ 2 * num) :
    min infinityBits ((place + 1076) * 2 ^ 52) ≤ nearestBits num den := by
  have hpos : 0 < 2 ^ place * den := Nat.mul_pos (Nat.two_pow_pos _) hden
  have hnum : num ≠ 0 := by omega
  unfold nearestBits
  rw [if_neg hnum]
  dsimp only
  have hbelow := @mantissa_lt num den hden
  have habove := @le_mantissa num den hnum
  generalize lastPlace num den = q at hbelow habove
  have hscaled : 0 < den * 2 ^ q.toNat := Nat.mul_pos hden (Nat.two_pow_pos _)
  suffices (place + 1076) * 2 ^ 52 ≤ (q - minExponent).toNat * 2 ^ 52 +
      roundDiv (num * 2 ^ (-q).toNat) (den * 2 ^ q.toNat) by omega
  rcases Int.lt_trichotomy q place with hlt | heq | hgt
  · -- a smaller place would need a smaller quotient
    exfalso
    have hpow : den * 2 ^ q.toNat * 2 ≤ 2 ^ place * den * 2 ^ (-q).toNat := by
      rw [Nat.mul_assoc, ← Nat.pow_succ, Nat.mul_right_comm, ← Nat.pow_add, Nat.mul_comm _ den]
      exact Nat.mul_le_mul_left _ (Nat.pow_le_pow_right (by decide) (by omega))
    have hweight := Nat.mul_le_mul_right (2 ^ (-q).toNat) h
    have hone : 0 < 2 ^ (-q).toNat := Nat.two_pow_pos _
    have hwide : 0 < 2 ^ place * den * 2 ^ (-q).toNat := Nat.mul_pos hpos hone
    rw [Nat.mul_assoc, Nat.mul_assoc 2] at hweight
    generalize num * 2 ^ (-q).toNat = a at hbelow hweight
    generalize den * 2 ^ q.toNat = b at hbelow hpow
    generalize 2 ^ place * den * 2 ^ (-q).toNat = c at hpow hweight hwide
    omega
  · have hmantissa : 2 ^ 53 ≤ roundDiv (num * 2 ^ (-q).toNat) (den * 2 ^ q.toNat) := by
      refine le_roundDiv hscaled (by decide) ?_
      rw [heq, show (-(place : Int)).toNat = 0 by omega, Int.toNat_natCast, Nat.pow_zero, Nat.mul_one,
        Nat.mul_comm den]
      generalize 2 ^ place * den = scaled at h
      omega
    have hplace : (q - minExponent).toNat = place + 1074 := by
      simp only [minExponent]
      omega
    rw [hplace, show place + 1076 = place + 1074 + 2 from rfl, Nat.add_mul]
    exact Nat.add_le_add_left hmantissa _
  · have hmantissa : 2 ^ 52 ≤ roundDiv (num * 2 ^ (-q).toNat) (den * 2 ^ q.toNat) := by
      have hlow := habove (by unfold minExponent; omega)
      refine le_roundDiv hscaled (by decide) ?_
      generalize num * 2 ^ (-q).toNat = a at hlow
      generalize den * 2 ^ q.toNat = b at hlow
      omega
    have hplace : place + 1075 ≤ (q - minExponent).toNat := by
      simp only [minExponent]
      omega
    rw [show place + 1076 = place + 1075 + 1 from rfl, Nat.add_mul]
    exact Nat.add_le_add (Nat.mul_le_mul_right _ hplace) hmantissa

/-- **A quotient rounds to infinity** from a half above the largest float on. -/
theorem nearestBits_eq_infinityBits_iff (hden : 0 < den) :
    nearestBits num den = infinityBits ↔ (2 ^ 54 - 1) * (2 ^ 971 * den) ≤ 2 * num := by
  constructor
  · intro heq
    refine Nat.le_of_not_lt fun hlt => Nat.ne_of_lt ?_ heq
    exact nearestBits_lt hden hlt
  · intro hle
    refine Nat.le_antisymm (nearestBits_le num den) ?_
    have hbits := le_nearestBits hden hle
    rwa [show (971 + 1076) * 2 ^ 52 = infinityBits from rfl, Nat.min_self] at hbits

end BlockProgram.Binary
