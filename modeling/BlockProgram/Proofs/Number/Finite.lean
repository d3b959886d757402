import BlockProgram.Proofs.Number.Nearest

/-!
# Floats that are not infinite

The arithmetic of floats is that of a model, which unpacks a float into sign, mantissa and
exponent, computes there, rounds and packs again; only packing makes infinities, out of exponents
that are too large. Here the exponent of a result is bounded by the exponents of its operands:

* a float has the **exponent field** that its bits show, and is finite unless that is the largest
  (`Binary.isFinite_iff`);
* rounding raises an exponent past its target by one at most (`Binary.exponent_round_le`);
* so a float that is not infinite stays so when it is scaled down (`Binary.isInf_mul`), and so
  does a sum of floats that are not close to the largest (`Binary.isInf_add`).
-/

namespace BlockProgram.Binary

open Float.Model (UnpackedFloat Format totalExponent)
open Float.Model.UnpackedFloat

/-- The exponent field of a float. -/
def exponentField (x : Float) : Nat := x.toBits.toNat / 2 ^ 52 % 2048

/-- A float is finite exactly if its exponent field is not full. -/
theorem isFinite_iff {x : Float} : isFinite x = true ↔ exponentField x ≠ 2047 := by
  simp only [isFinite, parts?, exponentField]
  split
  · rename_i hfield
    constructor
    · rintro ⟨⟩
    · exact fun hne => absurd hfield hne
  · rename_i hfield
    split <;> exact ⟨fun _ => hfield, fun _ => rfl⟩

/-- The exponent that is unpacked is the exponent field. -/
theorem toNat_unpackExponent (x : Float) :
    (@unpackExponent .binary64 x.toBits.toBitVec).toNat = exponentField x := by
  simp only [unpackExponent, exponentField]
  simp [BitVec.extractLsb, Nat.shiftRight_eq_div_pow]

/-! ## Unpacking and packing -/

/-- A finite float is a zero or has a mantissa of 53 bits and the exponent that its field shows. -/
theorem unpack_cases {b : BitVec 64} {field : Nat}
    (hb : (@unpackExponent .binary64 b).toNat = field) (hfield : field ≠ 2047) :
    (∃ s, unpack .binary64 b = .zero s) ∨
      ∃ s m e hm, unpack .binary64 b = .finite s m e hm ∧ m < 2 ^ 53 ∧
        (e = field - 1075 ∧ field ≠ 0 ∨ e = -1074 ∧ field = 0 ∧ m < 2 ^ 52) := by
  have hones : @unpackExponent .binary64 b ≠ -1#_ := by
    intro heq
    rw [heq] at hb
    exact hfield hb.symm
  unfold unpack
  dsimp only
  rw [if_neg hones]
  by_cases hzero : @unpackExponent .binary64 b = 0#_
  · rw [if_pos hzero]
    rw [hzero] at hb
    have hfield : field = 0 := hb.symm
    by_cases hmantissa : @unpackMantissa .binary64 b = 0#_
    · rw [dif_pos hmantissa]
      exact .inl ⟨_, rfl⟩
    · have hpos : 0 < (@unpackMantissa .binary64 b).toNat :=
        Nat.pos_of_ne_zero fun h => hmantissa (BitVec.eq_of_toNat_eq h)
      rw [dif_neg hmantissa]
      refine .inr ⟨_, _, _, hpos, rfl, ?_, .inr ⟨?_, hfield, ?_⟩⟩
      · exact Nat.lt_trans (BitVec.isLt _) (by decide)
      · rw [hzero]
        rfl
      · exact BitVec.isLt _
  · have hpos : 0 < (1#1 ++ @unpackMantissa .binary64 b).toNat := by
      rw [BitVec.toNat_append]
      exact Nat.lt_of_lt_of_le (show 0 < 1 <<< 52 by decide) Nat.left_le_or
    rw [if_neg hzero]
    refine .inr ⟨_, _, _, hpos, rfl, BitVec.isLt _, .inl ⟨?_, ?_⟩⟩
    · rw [hb]
      rfl
    · rintro rfl
      exact hzero (BitVec.eq_of_toNat_eq hb)

/-- With a full exponent field a float is infinite or not a number. -/
theorem unpack_special {b : BitVec 64} (hb : (@unpackExponent .binary64 b).toNat = 2047) :
    (∃ s, unpack .binary64 b = .infinity s) ∨ unpack .binary64 b = .notANumber := by
  have hones : @unpackExponent .binary64 b = -1#_ := BitVec.eq_of_toNat_eq hb
  unfold unpack
  dsimp only
  rw [if_pos hones]
  split
  · exact .inl ⟨_, rfl⟩
  · exact .inr rfl

/-- The bits of an infinity: a full exponent field and no mantissa. -/
theorem isInf_unpack {b : BitVec 64} (h : (unpack .binary64 b).isInf = true) :
    @unpackExponent .binary64 b = -1#_ ∧ @unpackMantissa .binary64 b = 0#_ := by
  by_cases hones : @unpackExponent .binary64 b = -1#_
  · refine ⟨hones, Classical.byContradiction fun hmantissa => ?_⟩
    unfold unpack at h
    dsimp only at h
    rw [if_pos hones, if_neg hmantissa] at h
    cases h
  · have hfield : (@unpackExponent .binary64 b).toNat ≠ 2047 :=
      fun hfield => hones (BitVec.eq_of_toNat_eq hfield)
    rcases unpack_cases rfl hfield with ⟨s, hu⟩ | ⟨s, m, e, hm, hu, -⟩
    · rw [hu] at h
      cases h
    · rw [hu] at h
      cases h

/-- The exponent field of a packed finite number whose exponent fits. -/
theorem unpackExponent_pack {s : Sign} {m : Nat} {e : Int} {hm : 0 < m} (he : e ≤ 971) :
    (@unpackExponent .binary64 (pack .binary64 (.finite s m e hm))).toNat =
      if m.log2 + 1 = 53 then (e + 1075).toNat else 0 := by
  have hbias :
      (e + (Format.exponentBias .binary64 : Nat) + (52 : Nat)).toNat = (e + 1075).toNat := by
    show (e + (1023 : Nat) + (52 : Nat)).toNat = _
    congr 1
    omega
  unfold pack
  dsimp only
  rw [hbias]
  split
  · rename_i hover
    exfalso
    change 2048 ≤ (e + 1075).toNat + 1 at hover
    omega
  · split
    · rename_i hnormal
      change m.log2 + 1 = 53 at hnormal
      rw [if_pos hnormal, unpackExponent_packComponents, BitVec.toNat_ofNat]
      exact Nat.mod_eq_of_lt (show (e + 1075).toNat < 2048 by omega)
    · rename_i hsubnormal
      change ¬ m.log2 + 1 = 53 at hsubnormal
      rw [if_neg hsubnormal, unpackExponent_packComponents]
      rfl

/-- Packing makes no infinity of a number whose exponent fits. -/
theorem isInf_pack {s : Sign} {m : Nat} {e : Int} {hm : 0 < m} (he : e ≤ 971) :
    (unpack .binary64 (pack .binary64 (.finite s m e hm))).isInf = false := by
  refine Bool.eq_false_iff.2 fun hinf => ?_
  have hones := congrArg BitVec.toNat (isInf_unpack hinf).1
  rw [unpackExponent_pack he] at hones
  change _ = 2047 at hones
  split at hones <;> omega

/-! ## Rounding -/

/-- The exponent that a number is shifted to leaves 53 bits, and is at least that of the smallest
float. -/
theorem targetExponent_eq (t : Int) : Format.targetExponent .binary64 t = max (t - 53) (-1074) :=
  rfl

theorem mantissa_shiftRight (em : ExtendedMantissa) (k : Nat) :
    (em >>> k).mantissa = em.mantissa / 2 ^ k := by
  induction k with
  | zero => exact (Nat.div_one _).symm
  | succ k ih =>
    show (em >>> k).mantissa / 2 = _
    rw [ih, Nat.div_div_eq_div_mul, Nat.pow_succ]

/-- Rounding adds one at most. -/
theorem roundedMantissa_le (em : ExtendedMantissa) : em.roundedMantissa ≤ em.mantissa + 1 := by
  have hparity : em.mantissa % 2 ≤ 1 := Nat.le_of_lt_succ (Nat.mod_lt _ (by decide))
  simp only [ExtendedMantissa.roundedMantissa]
  rcases em.accuracy with _ | _ | _ | _ <;> simp only [Accuracy.roundToNearestEven] <;> omega

/-- The mantissa that is kept at the target exponent rounds to `2 ^ 53` at most. -/
theorem rounded_le {m : Nat} {e : Int} {acc : Accuracy} :
    (shiftToTargetExponent .binary64 m e acc).1.roundedMantissa ≤ 2 ^ 53 := by
  have hmantissa : (ExtendedMantissa.ofMantissaAndAccuracy m acc).mantissa = m := by
    rcases acc with _ | _ | _ | _ <;> rfl
  simp only [shiftToTargetExponent, shiftToExponent]
  rw [targetExponent_eq, totalExponent]
  refine Nat.le_trans (roundedMantissa_le _) ?_
  rw [mantissa_shiftRight, hmantissa]
  generalize hk : (max ((m.log2 : Int) + 1 + e - 53) (-1074) - e).toNat = k
  have hpow : 2 ^ (m.log2 + 1) ≤ 2 ^ 53 * 2 ^ k := by
    rw [← Nat.pow_add]
    exact Nat.pow_le_pow_right (by decide) (by omega)
  exact Nat.div_lt_of_lt_mul (Nat.lt_of_lt_of_le Nat.lt_log2_self (by rwa [Nat.mul_comm]))

theorem exponent_shift (m : Nat) (e : Int) (acc : Accuracy) :
    (shiftToTargetExponent .binary64 m e acc).2 =
      max e (max ((m.log2 : Int) + 1 + e - 53) (-1074)) := by
  show e + ((max ((m.log2 : Int) + 1 + e - 53) (-1074) - e).toNat : Int) = _
  omega

/-- **Rounding raises the exponent past its target by one at most.** -/
theorem exponent_round_le {s s' : Sign} {m m' : Nat} {e e' bound : Int} {acc : Accuracy} {hm : 0 < m'}
    (h : roundWithAccuracy .binary64 s m e acc = .finite s' m' e' hm)
    (hbound : max ((m.log2 : Int) + 1 + e - 53) (-1074) ≤ bound) (he : e ≤ bound) :
    e' ≤ bound + 1 := by
  have hrounded := @rounded_le m e acc
  have hfirst := exponent_shift m e acc
  unfold roundWithAccuracy at h
  dsimp only at h
  generalize shiftToTargetExponent .binary64 m e acc = first at h hrounded hfirst
  have hsecond := exponent_shift first.1.roundedMantissa first.2 .exact
  -- a mantissa of `2 ^ 53` is the only one that is shifted again
  have hlog : first.1.roundedMantissa.log2 ≤ 53 := by
    by_cases hzero : first.1.roundedMantissa = 0
    · rw [hzero]
      decide
    · exact Nat.le_of_lt_succ ((Nat.log2_lt hzero).2 (Nat.lt_of_le_of_lt hrounded (by decide)))
  by_cases hzero :
      (shiftToTargetExponent .binary64 first.1.roundedMantissa first.2 .exact).1.mantissa = 0
  · rw [dif_pos hzero] at h
    cases h
  · rw [dif_neg hzero] at h
    injection h with _ _ hexponent
    omega

/-- Rounding makes zeros and finite numbers only. -/
theorem round_cases (s : Sign) (m : Nat) (e : Int) (acc : Accuracy) :
    roundWithAccuracy .binary64 s m e acc = .zero s ∨
      ∃ m' e' hm, roundWithAccuracy .binary64 s m e acc = .finite s m' e' hm := by
  unfold roundWithAccuracy
  dsimp only
  by_cases hmantissa : ((shiftToTargetExponent .binary64
      (shiftToTargetExponent .binary64 m e acc).1.roundedMantissa
      (shiftToTargetExponent .binary64 m e acc).2 .exact).1.mantissa) = 0
  · rw [dif_pos hmantissa]
    exact .inl rfl
  · rw [dif_neg hmantissa]
    exact .inr ⟨_, _, Nat.pos_of_ne_zero hmantissa, rfl⟩

/-- **Rounding does not overflow** if the number is one bit below the range. -/
theorem isInf_round {s : Sign} {m : Nat} {e : Int} {acc : Accuracy}
    (hbound : (m.log2 : Int) + 1 + e - 53 ≤ 970) (he : e ≤ 970) :
    (unpack .binary64 (pack .binary64 (roundWithAccuracy .binary64 s m e acc))).isInf = false := by
  rcases round_cases s m e acc with hzero | ⟨m', e', hm, hfinite⟩
  · rw [hzero]
    cases s <;> rfl
  · rw [hfinite]
    exact isInf_pack (exponent_round_le hfinite (by omega) he)

/-! ## Sums and products -/

/-- The bits of a result are those that it was packed to. -/
theorem isInf_eq (x : Float) : x.isInf = (unpack .binary64 x.toBits.toBitVec).isInf := rfl

/-- A small exponent field bounds both the mantissa and the exponent. -/
theorem finite_of_field {x : Float} {bound : Nat} (h : exponentField x ≤ bound)
    (hbound : bound < 2047) :
    (∃ s, unpack .binary64 x.toBits.toBitVec = .zero s) ∨
      ∃ s m e hm, unpack .binary64 x.toBits.toBitVec = .finite s m e hm ∧ m < 2 ^ 53 ∧
        e ≤ max bound 1 - 1075 := by
  rcases unpack_cases (toNat_unpackExponent x) (by omega) with
    hzero | ⟨s, m, e, hm, hu, hmantissa, he⟩
  · exact .inl hzero
  · exact .inr ⟨s, m, e, hm, hu, hmantissa, by omega⟩

/-- A float that is not infinite is not a number, a zero, or finite within bounds. -/
theorem cases_of_isInf {x : Float} (h : x.isInf = false) :
    unpack .binary64 x.toBits.toBitVec = .notANumber ∨
      (∃ s, unpack .binary64 x.toBits.toBitVec = .zero s) ∨
      ∃ s m e hm, unpack .binary64 x.toBits.toBitVec = .finite s m e hm ∧ m < 2 ^ 53 ∧ e ≤ 971 := by
  by_cases hfield : exponentField x = 2047
  · rcases unpack_special ((toNat_unpackExponent x).trans hfield) with ⟨s, hinf⟩ | hnan
    · rw [isInf_eq, hinf] at h
      cases h
    · exact .inl hnan
  · have hlt : exponentField x < 2048 := Nat.mod_lt _ (by decide)
    exact .inr (finite_of_field (show exponentField x ≤ 2046 by omega) (by decide))

/-- **A float that is not infinite stays so when it is scaled down.** -/
theorem isInf_mul {x y : Float} (hx : x.isInf = false) (hy : exponentField y ≤ 1021) :
    (x * y).isInf = false := by
  show (unpack .binary64 (pack .binary64 (mul .binary64 (unpack .binary64 x.toBits.toBitVec)
    (unpack .binary64 y.toBits.toBitVec)))).isInf = false
  have hzero (s : Sign) : (unpack .binary64 (pack .binary64 (.zero s))).isInf = false := by
    cases s <;> rfl
  rcases finite_of_field hy (by decide) with ⟨s₂, hu₂⟩ | ⟨s₂, m₂, e₂, hm₂, hu₂, hlt₂, he₂⟩
  all_goals
    have hnan : (unpack .binary64 (pack .binary64 .notANumber)).isInf = false := by decide
    rw [hu₂]
    rcases cases_of_isInf hx with hu₁ | ⟨s₁, hu₁⟩ | ⟨s₁, m₁, e₁, hm₁, hu₁, hlt₁, he₁⟩
    all_goals rw [hu₁]
  · exact hnan
  · exact hzero _
  · exact hzero _
  · exact hnan
  · exact hzero _
  -- the exponent of the second factor takes away what its mantissa adds
  · have hproduct : m₁ * m₂ ≠ 0 := Nat.mul_ne_zero (by omega) (by omega)
    have hlog : (m₁ * m₂).log2 < 106 := by
      rw [Nat.log2_lt hproduct]
      exact Nat.lt_of_lt_of_le (Nat.mul_lt_mul'' hlt₁ hlt₂) (by decide)
    exact isInf_round (by omega) (by omega)

theorem log2_shiftLeft {m : Nat} (hm : m ≠ 0) (k : Nat) : (m <<< k).log2 = m.log2 + k := by
  have hpos : m * 2 ^ k ≠ 0 := Nat.mul_ne_zero hm (Nat.ne_of_gt (Nat.two_pow_pos k))
  rw [Nat.shiftLeft_eq, Nat.log2_eq_iff hpos]
  constructor
  · rw [Nat.pow_add]
    exact Nat.mul_le_mul_right _ (Nat.log2_self_le hm)
  · rw [Nat.add_right_comm, Nat.pow_add]
    exact Nat.mul_lt_mul_of_pos_right Nat.lt_log2_self (Nat.two_pow_pos k)

/-- Nor does rounding a number that was scaled first. -/
theorem isInf_roundScaled {s : Sign} {m : Nat} {e : Int} (hlog : (m.log2 : Int) + 1 + e ≤ 1023)
    (he : e ≤ 970) :
    (unpack .binary64 (pack .binary64 (UnpackedFloat.round .binary64 s m e))).isInf = false := by
  simp only [UnpackedFloat.round, decreaseExponent]
  generalize (e - Format.targetExponent .binary64 (totalExponent m e)).toNat = k
  refine isInf_round ?_ (by omega)
  by_cases hm : m = 0
  · rw [hm, Nat.zero_shiftLeft]
    rw [hm] at hlog
    omega
  · rw [log2_shiftLeft hm]
    omega

/-- A mantissa moved to a smaller exponent, where it weighs what it weighed before. -/
theorem scaled_lt {m : Nat} {e unit : Int} (hm : m < 2 ^ 53) (he : e ≤ 925) (hunit : unit ≤ e) :
    m <<< (e - unit).toNat < 2 ^ (978 - unit).toNat := by
  rw [Nat.shiftLeft_eq]
  calc m * 2 ^ (e - unit).toNat
    _ < 2 ^ 53 * 2 ^ (e - unit).toNat := Nat.mul_lt_mul_of_pos_right hm (Nat.two_pow_pos _)
    _ = 2 ^ (53 + (e - unit).toNat) := (Nat.pow_add _ _ _).symm
    _ ≤ 2 ^ (978 - unit).toNat := Nat.pow_le_pow_right (by decide) (by omega)

/-- Nor does normalizing a whole number of units, which is how a sum is formed. -/
theorem isInf_normalize {m : Int} {unit : Int} (hm : m.natAbs < 2 ^ (979 - unit).toNat)
    (hunit : unit ≤ 925) :
    (unpack .binary64 (pack .binary64 (UnpackedFloat.normalize .binary64 m unit .positive))).isInf =
      false := by
  have hlog (n : Nat) (hn : n < 2 ^ (979 - unit).toNat) : (n.log2 : Int) + 1 + unit ≤ 1023 := by
    by_cases hzero : n = 0
    · rw [hzero]
      show (0 : Int) + 1 + unit ≤ 1023
      omega
    · have := (Nat.log2_lt hzero).2 hn
      omega
  simp only [UnpackedFloat.normalize]
  split
  · exact isInf_roundScaled (hlog _ (by omega)) (by omega)
  · rfl
  · exact isInf_roundScaled (hlog _ (by omega)) (by omega)

theorem natAbs_apply (s : Sign) (n : Nat) : (s.apply n).natAbs = n := by
  cases s
  · exact (Int.natAbs_neg _).trans (Int.natAbs_natCast n)
  · exact Int.natAbs_natCast n

/-- **Floats that are not close to the largest have a sum that is not infinite.** -/
theorem isInf_add {x y : Float} (hx : exponentField x ≤ 2000) (hy : exponentField y ≤ 2000) :
    (x + y).isInf = false := by
  show (unpack .binary64 (pack .binary64 (add .binary64 (unpack .binary64 x.toBits.toBitVec)
    (unpack .binary64 y.toBits.toBitVec)))).isInf = false
  rcases finite_of_field hx (by decide) with ⟨s₁, hu₁⟩ | ⟨s₁, m₁, e₁, hm₁, hu₁, hlt₁, he₁⟩
  all_goals
    rw [hu₁]
    rcases finite_of_field hy (by decide) with ⟨s₂, hu₂⟩ | ⟨s₂, m₂, e₂, hm₂, hu₂, hlt₂, he₂⟩
    all_goals rw [hu₂]
  · cases s₁ <;> cases s₂ <;> rfl
  · exact isInf_pack (by omega)
  · exact isInf_pack (by omega)
  -- at the smaller exponent one more bit holds the sum
  · have hfirst := scaled_lt hlt₁ (show e₁ ≤ 925 by omega) (Int.min_le_left e₁ e₂)
    have hsecond := scaled_lt hlt₂ (show e₂ ≤ 925 by omega) (Int.min_le_right e₁ e₂)
    have htwice : 2 ^ (979 - min e₁ e₂).toNat = 2 ^ (978 - min e₁ e₂).toNat * 2 := by
      rw [← Nat.pow_succ]
      congr 1
      omega
    refine isInf_normalize ?_ (by omega)
    rw [htwice]
    refine Nat.lt_of_le_of_lt (Int.natAbs_add_le _ _) ?_
    rw [natAbs_apply, natAbs_apply]
    omega

end BlockProgram.Binary
