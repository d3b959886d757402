import BlockProgram.Proofs.Number.Finite

/-!
# Rounding half up

A duration is rounded by adding a half and taking the floor. The sum is rounded to a float before
the floor is taken, and here is why that does no harm: **a whole number that is not above a float is
not above the float rounded half up** (`Binary.le_floor?_add_half`).

* The magnitude of a float is counted in `Binary.units` of the smallest positive number, in which
  every mantissa at every exponent is a whole number.
* The bits of a float are unpacked into the parts that they show (`Binary.unpack_of_parts?`), and a
  number that has been rounded is packed into bits that show its parts (`Binary.parts?_pack`).
* What rounding cuts off leaves at least every float that the number was not below
  (`Binary.units_le_shift`), so a positive float does not get smaller by adding a half
  (`Binary.parts?_add_half`).
-/

namespace BlockProgram.Binary

open Float.Model (UnpackedFloat Format totalExponent)
open Float.Model.UnpackedFloat

/-! ## Mantissas counted in units of the smallest number -/

/-- What a mantissa weighs at an exponent, counted in units of the smallest positive number. -/
def units (m : Nat) (e : Int) : Nat := m * 2 ^ (e - minExponent).toNat

/-- A larger mantissa has more units. -/
theorem units_mono {m n : Nat} (h : m ≤ n) (e : Int) : units m e ≤ units n e :=
  Nat.mul_le_mul_right _ h

/-- A mantissa that is moved to a smaller exponent weighs what it weighed before. -/
theorem units_shiftLeft (m : Nat) {e : Int} {k : Nat} (h : minExponent ≤ e - k) :
    units (m <<< k) (e - k) = units m e := by
  rw [units, units, Nat.shiftLeft_eq, Nat.mul_assoc, ← Nat.pow_add]
  congr 2
  omega

/-- One more in the exponent is twice the mantissa. -/
theorem units_succ (m : Nat) {e : Int} (h : minExponent ≤ e) :
    units m (e + 1) = units (2 * m) e := by
  rw [units, units, Nat.mul_comm 2 m, Nat.mul_assoc, ← Nat.pow_succ']
  congr 2
  omega

namespace Parts

variable {p q : Parts}

theorem intPow_pos (k : Nat) : (0 : Int) < 2 ^ k := Int.pow_pos (by decide)

/-- A whole number is not above a number exactly if it is not above its floor. -/
theorem le_floor_iff {n : Int} : n ≤ p.floor ↔
    n * 2 ^ (-p.exponent).toNat ≤ p.signed * 2 ^ p.exponent.toNat := by
  rw [floor]
  split
  · rw [show (-p.exponent).toNat = 0 by omega, Int.pow_zero, Int.mul_one]
  · rw [show p.exponent.toNat = 0 by omega, Int.pow_zero, Int.mul_one,
      Int.fdiv_eq_ediv_of_nonneg _ (Int.le_of_lt (intPow_pos _)),
      Int.le_ediv_iff_mul_le (intPow_pos _)]

/-- A float is at least a whole number exactly if its floor is. -/
theorem isGE_compareInt {n : Int} : (p.compareInt n).isGE = true ↔ n ≤ p.floor := by
  rw [compareInt, Int.isGE_compare, le_floor_iff]

theorem signed_pos (h : 1 ≤ p.floor) : 0 < p.signed := by
  rw [le_floor_iff, Int.one_mul] at h
  have hpos : (0 : Int) < p.signed * 2 ^ p.exponent.toNat := Int.lt_of_lt_of_le (intPow_pos _) h
  refine Int.lt_of_not_ge fun hneg => Int.not_lt.2 ?_ hpos
  exact Int.mul_nonpos_of_nonpos_of_nonneg hneg (Int.le_of_lt (intPow_pos _))

/-- Whether a float reaches a natural number can be told in units of the smallest float. -/
theorem natCast_le_floor_iff {n : Nat} (hpositive : p.negative = false)
    (h : minExponent ≤ p.exponent) :
    (n : Int) ≤ p.floor ↔ n * 2 ^ 1074 ≤ units p.mantissa p.exponent := by
  have hmin : minExponent = -1074 := rfl
  have hleft : 1074 = (-p.exponent).toNat + (min p.exponent 0 + 1074).toNat := by omega
  have hright : (p.exponent - minExponent).toNat =
      p.exponent.toNat + (min p.exponent 0 + 1074).toNat := by omega
  rw [le_floor_iff, signed, hpositive, if_neg Bool.false_ne_true, units, hright, Nat.pow_add,
    ← Nat.mul_assoc]
  conv =>
    rhs
    lhs
    rw [hleft, Nat.pow_add, ← Nat.mul_assoc]
  rw [Nat.mul_le_mul_right_iff (Nat.two_pow_pos _)]
  exact_mod_cast Iff.rfl

/-- Of two positive numbers, the one with more units does not have the smaller floor. -/
theorem floor_mono (hp : p.negative = false) (hq : q.negative = false)
    (hpmin : minExponent ≤ p.exponent) (hqmin : minExponent ≤ q.exponent)
    (h : units p.mantissa p.exponent ≤ units q.mantissa q.exponent) : p.floor ≤ q.floor := by
  have hfloor : ((p.floor.toNat : Nat) : Int) = p.floor := by
    have hzero : 0 ≤ p.floor := by
      rw [le_floor_iff, Int.zero_mul, signed, hp, if_neg Bool.false_ne_true]
      exact Int.mul_nonneg (Int.natCast_nonneg _) (Int.le_of_lt (intPow_pos _))
    omega
  rw [← hfloor, natCast_le_floor_iff hq hqmin]
  exact Nat.le_trans ((natCast_le_floor_iff hp hpmin).1 (Int.le_of_eq hfloor)) h

end Parts

/-! ## Taking floats apart -/

theorem toNat_unpackMantissa (b : BitVec 64) :
    (@unpackMantissa .binary64 b).toNat = b.toNat % 2 ^ 52 := by
  simp only [unpackMantissa]
  simp [BitVec.extractLsb]

theorem toNat_unpackSign (b : BitVec 64) :
    (@unpackSign .binary64 b).toNat = b.toNat / 2 ^ 63 := by
  have hlt := b.isLt
  have hsign : @unpackSign .binary64 b = b.extractLsb 63 63 := rfl
  rw [hsign]
  simp [BitVec.extractLsb, Nat.shiftRight_eq_div_pow]
  omega

theorem toNat_normal (v : BitVec 52) : (1#1 ++ v).toNat = v.toNat + 2 ^ 52 := by
  rw [BitVec.toNat_append, ← Nat.shiftLeft_add_eq_or_of_lt v.isLt, Nat.add_comm]
  rfl

theorem finite_congr {s : Sign} {m m' : Nat} {e e' : Int} {h : 0 < m} {h' : 0 < m'} (hm : m = m')
    (he : e = e') : UnpackedFloat.finite s m e h = .finite s m' e' h' := by
  subst hm he
  rfl

/-- A float with a mantissa other than zero is unpacked into the parts that its bits show. -/
theorem unpack_of_parts? {x : Float} {p : Parts} (h : parts? x = some p) (hm : p.mantissa ≠ 0) :
    ∃ s hpos, unpack .binary64 x.toBits.toBitVec = .finite s p.mantissa p.exponent hpos ∧
      (p.negative = false → s = .positive) := by
  have hfield := toNat_unpackExponent x
  have hfraction : (@unpackMantissa .binary64 x.toBits.toBitVec).toNat =
    x.toBits.toNat % 2 ^ 52 := toNat_unpackMantissa x.toBits.toBitVec
  have hsign : (@unpackSign .binary64 x.toBits.toBitVec).toNat =
    x.toBits.toNat / 2 ^ 63 := toNat_unpackSign x.toBits.toBitVec
  have hpositive (hneg : decide (2 ^ 63 ≤ x.toBits.toNat) = false) :
      Sign.ofBitVec (@unpackSign .binary64 x.toBits.toBitVec) = .positive := by
    have hzero : @unpackSign .binary64 x.toBits.toBitVec = 0#1 := by
      refine BitVec.eq_of_toNat_eq ?_
      rw [hsign, Nat.div_eq_of_lt (Nat.lt_of_not_le (of_decide_eq_false hneg))]
      rfl
    rw [hzero]
    rfl
  simp only [parts?] at h
  rw [exponentField] at hfield
  unfold unpack
  dsimp only
  split at h
  · cases h
  rename_i hspecial
  rw [if_neg fun hones => hspecial (by rw [← hfield, hones]; rfl)]
  split at h
  · rename_i hzero
    cases h
    have hexponent : @unpackExponent .binary64 x.toBits.toBitVec = 0#_ :=
      BitVec.eq_of_toNat_eq (hfield.trans hzero)
    rw [if_pos hexponent]
    have hmantissa : ¬ @unpackMantissa .binary64 x.toBits.toBitVec = 0#_ := by
      intro hnone
      refine hm ?_
      rw [← hfraction, hnone]
      rfl
    rw [dif_neg hmantissa]
    refine ⟨_, Nat.pos_of_ne_zero hm, finite_congr hfraction ?_, hpositive⟩
    rw [hexponent]
    rfl
  · rename_i hnormal
    cases h
    rw [if_neg fun hzero => hnormal (by rw [← hfield, hzero]; rfl)]
    refine ⟨_, Nat.pos_of_ne_zero hm, finite_congr ?_ ?_, hpositive⟩
    · rw [toNat_normal, hfraction]
    · rw [hfield]
      rfl

/-- The parts of a positive float, read off its packed form. -/
theorem parts?_eq {x : Float} {exponent : BitVec 11} {mantissa : BitVec 52}
    (h : x.toBits.toBitVec = packComponents .binary64 .positive exponent mantissa) :
    parts? x = if exponent.toNat = 2047 then none
      else if exponent.toNat = 0 then some ⟨false, mantissa.toNat, minExponent⟩
      else some ⟨false, mantissa.toNat + 2 ^ 52, exponent.toNat - 1075⟩ := by
  have hfield : x.toBits.toNat / 2 ^ 52 % 2048 = exponent.toNat := by
    have hunpacked := toNat_unpackExponent x
    rw [h, unpackExponent_packComponents] at hunpacked
    exact hunpacked.symm
  have hfraction : x.toBits.toNat % 2 ^ 52 = mantissa.toNat := by
    have hunpacked := toNat_unpackMantissa x.toBits.toBitVec
    rw [h, unpackMantissa_packComponents, ← h] at hunpacked
    exact hunpacked.symm
  have hsign : decide (2 ^ 63 ≤ x.toBits.toNat) = false := by
    have hbits : x.toBits.toNat = (0#1 ++ exponent ++ mantissa).toNat := congrArg BitVec.toNat h
    have hlow := mantissa.isLt
    have hhigh := exponent.isLt
    rw [BitVec.toNat_append, ← Nat.shiftLeft_add_eq_or_of_lt hlow, BitVec.toNat_append,
      ← Nat.shiftLeft_add_eq_or_of_lt hhigh, Nat.shiftLeft_eq] at hbits
    simp only [BitVec.toNat_ofNat, Nat.zero_mod, Nat.zero_shiftLeft, Nat.zero_add] at hbits
    rw [decide_eq_false_iff_not]
    omega
  simp only [parts?, hfield, hfraction, hsign]

/-- A number of the form that rounding leaves has, when it is packed, the parts that it was packed
from, unless its exponent is too large. -/
theorem parts?_pack {y : Float} {m : Nat} {e : Int} {hpos : 0 < m}
    (hy : y.toBits.toBitVec = pack .binary64 (.finite .positive m e hpos))
    (hcanonical : 2 ^ 52 ≤ m ∨ e = minExponent) (hlt : m < 2 ^ 53) (he : minExponent ≤ e) :
    parts? y = none ∨ parts? y = some ⟨false, m, e⟩ := by
  have hmin : minExponent = -1074 := rfl
  have hbias : (e + (Format.exponentBias .binary64 : Nat) + (52 : Nat)).toNat =
      (e + 1075).toNat := by
    show (e + (1023 : Nat) + (52 : Nat)).toNat = _
    congr 1
    omega
  unfold pack at hy
  dsimp only at hy
  rw [hbias] at hy
  split at hy
  · left
    rw [parts?_eq hy]
    rfl
  rename_i hrange
  change ¬ 2048 ≤ (e + 1075).toNat + 1 at hrange
  split at hy
  · rename_i hnormal
    right
    have hlow : 2 ^ 52 ≤ m := ((Nat.log2_eq_iff (Nat.ne_of_gt hpos)).1 (Nat.succ.inj hnormal)).1
    have hfield : (BitVec.ofNat 11 (e + 1075).toNat).toNat = (e + 1075).toNat := by
      rw [BitVec.toNat_ofNat, Nat.mod_eq_of_lt (by omega)]
    have hmantissa : (BitVec.ofNat 52 m).toNat = m - 2 ^ 52 := by
      rw [BitVec.toNat_ofNat]
      omega
    rw [parts?_eq hy, hfield, hmantissa, if_neg (by omega), if_neg (by omega)]
    congr 2 <;> omega
  · rename_i hsubnormal
    right
    have hlow : m < 2 ^ 52 := by
      refine Nat.lt_of_not_le fun hlow => hsubnormal ?_
      exact congrArg (· + 1) ((Nat.log2_eq_iff (Nat.ne_of_gt hpos)).2 ⟨hlow, hlt⟩)
    have hmantissa : (BitVec.ofNat 52 m).toNat = m := by
      rw [BitVec.toNat_ofNat, Nat.mod_eq_of_lt hlow]
    rw [parts?_eq hy, hmantissa]
    have hexponent := hcanonical.resolve_left (Nat.not_le_of_lt hlow)
    rw [hexponent]
    rfl

/-! ## Rounding -/

/-- Shifting to the target exponent drops the bits below it. -/
theorem mantissa_shift (m : Nat) (e : Int) :
    (shiftToTargetExponent .binary64 m e .exact).1.mantissa =
      m / 2 ^ (max ((m.log2 : Int) + 1 + e - 53) (-1074) - e).toNat := by
  simp only [shiftToTargetExponent, shiftToExponent, mantissa_shiftRight]
  rfl

/-- **What is cut off at the target exponent leaves at least every number that a float can be.** -/
theorem units_le_shift {m k : Nat} {e v : Int} (hm : m < 2 ^ 53) (he : minExponent ≤ e)
    (hv : minExponent ≤ v) (h : units m e ≤ units k v) :
    units m e ≤ units (shiftToTargetExponent .binary64 k v .exact).1.mantissa
      (shiftToTargetExponent .binary64 k v .exact).2 := by
  have hmin : minExponent = -1074 := rfl
  rw [mantissa_shift, exponent_shift]
  generalize htarget : max ((k.log2 : Int) + 1 + v - 53) (-1074) = target
  by_cases hstay : target ≤ v
  · rw [show (target - v).toNat = 0 by omega, Nat.pow_zero, Nat.div_one, Int.max_eq_left hstay]
    exact h
  generalize hcut : (target - v).toNat = cut
  rw [Int.max_eq_right (by omega)]
  have hk : k ≠ 0 := by
    rintro rfl
    rw [Nat.log2_zero] at htarget
    omega
  have hplace : (target - minExponent).toNat = cut + (v - minExponent).toNat := by omega
  rcases Int.lt_or_le e target with hbelow | habove
  · -- the number has a place below the target, where what is left has all its bits
    have hlow : 2 ^ 52 ≤ k / 2 ^ cut := by
      rw [Nat.le_div_iff_mul_le (Nat.two_pow_pos _), ← Nat.pow_add,
        show 52 + cut = k.log2 by omega]
      exact Nat.log2_self_le hk
    calc units m e
      _ ≤ 2 ^ 53 * 2 ^ (e - minExponent).toNat := Nat.mul_le_mul_right _ (Nat.le_of_lt hm)
      _ = 2 ^ (53 + (e - minExponent).toNat) := (Nat.pow_add _ _ _).symm
      _ ≤ 2 ^ (52 + (target - minExponent).toNat) := Nat.pow_le_pow_right (by decide) (by omega)
      _ = 2 ^ 52 * 2 ^ (target - minExponent).toNat := Nat.pow_add _ _ _
      _ ≤ units (k / 2 ^ cut) target := units_mono hlow target
  · -- the number is a multiple of the last place that is left
    have hsplit : (e - minExponent).toNat = (e - target).toNat + (target - minExponent).toNat := by
      omega
    rw [units, hsplit, Nat.pow_add, ← Nat.mul_assoc]
    refine Nat.mul_le_mul_right _ ?_
    rw [Nat.le_div_iff_mul_le (Nat.two_pow_pos _)]
    rw [units, units, hsplit, hplace, Nat.pow_add, Nat.pow_add _ cut, ← Nat.mul_assoc,
      ← Nat.mul_assoc] at h
    exact Nat.le_of_mul_le_mul_right h (Nat.two_pow_pos _)

/-- Rounding leaves the rounded mantissa, or half of it at the next exponent if it has grown to one
bit more. -/
theorem roundWithAccuracy_eq {s : Sign} {m : Nat} {e : Int} {acc : Accuracy} {rounded : Nat}
    {place : Int}
    (hrounded : (shiftToTargetExponent .binary64 m e acc).1.roundedMantissa = rounded)
    (hplace : (shiftToTargetExponent .binary64 m e acc).2 = place) (hmin : minExponent ≤ place)
    (hpos : 0 < rounded) :
    rounded < 2 ^ 53 ∧ roundWithAccuracy .binary64 s m e acc = .finite s rounded place hpos ∨
      rounded = 2 ^ 53 ∧
        ∃ h, roundWithAccuracy .binary64 s m e acc = .finite s (2 ^ 52) (place + 1) h := by
  have hmost : rounded ≤ 2 ^ 53 := hrounded ▸ rounded_le
  have hmin' : minExponent = -1074 := rfl
  unfold roundWithAccuracy
  dsimp only
  rw [hrounded, hplace]
  rcases Nat.lt_or_eq_of_le hmost with hlt | rfl
  · left
    refine ⟨hlt, ?_⟩
    have hlog : rounded.log2 < 53 := (Nat.log2_lt (Nat.ne_of_gt hpos)).2 hlt
    have hsecond : (shiftToTargetExponent .binary64 rounded place .exact).1.mantissa = rounded := by
      rw [mantissa_shift, show (_ - place).toNat = 0 by omega, Nat.pow_zero, Nat.div_one]
    have hexponent : (shiftToTargetExponent .binary64 rounded place .exact).2 = place := by
      rw [exponent_shift]
      omega
    rw [dif_neg (by rw [hsecond]; omega)]
    exact finite_congr hsecond hexponent
  · right
    refine ⟨rfl, by decide, ?_⟩
    have hlog : (2 ^ 53 : Nat).log2 = 53 := by decide
    have hsecond : (shiftToTargetExponent .binary64 (2 ^ 53) place .exact).1.mantissa = 2 ^ 52 := by
      rw [mantissa_shift, hlog, show (_ - place).toNat = 1 by omega]
    have hexponent : (shiftToTargetExponent .binary64 (2 ^ 53) place .exact).2 = place + 1 := by
      rw [exponent_shift, hlog]
      omega
    rw [dif_neg (by rw [hsecond]; decide)]
    exact finite_congr hsecond hexponent

/-- Rounding takes nothing away, as it only ever adds one. -/
theorem le_roundedMantissa (em : ExtendedMantissa) : em.mantissa ≤ em.roundedMantissa := by
  simp only [ExtendedMantissa.roundedMantissa]
  rcases em.accuracy with _ | _ | _ | _ <;> simp only [Accuracy.roundToNearestEven] <;> omega

/-- What is cut off at the target exponent leaves a mantissa of 53 bits, unless that is the smallest
exponent. -/
theorem canonical_shift {m : Nat} {e : Int} (hm : m ≠ 0)
    (he : e ≤ max ((m.log2 : Int) + 1 + e - 53) (-1074)) :
    2 ^ 52 ≤ (shiftToTargetExponent .binary64 m e .exact).1.mantissa ∨
      (shiftToTargetExponent .binary64 m e .exact).2 = minExponent := by
  have hmin : minExponent = -1074 := rfl
  rw [mantissa_shift, exponent_shift, Int.max_eq_right he]
  rcases Int.lt_or_le (-1074) ((m.log2 : Int) + 1 + e - 53) with hnormal | hsmall
  · left
    rw [Nat.le_div_iff_mul_le (Nat.two_pow_pos _), ← Nat.pow_add,
      show 52 + (max ((m.log2 : Int) + 1 + e - 53) (-1074) - e).toNat = m.log2 by omega]
    exact Nat.log2_self_le hm
  · right
    omega

/-- **A positive number that is rounded keeps the units of every float below it**, unless it gets
too large. -/
theorem parts?_round {y : Float} {m total : Nat} {e u : Int} (hm : m < 2 ^ 53) (hpos : 0 < m)
    (he : minExponent ≤ e) (hu : minExponent ≤ u) (h : units m e ≤ units total u)
    (hy : y.toBits.toBitVec = pack .binary64 (UnpackedFloat.round .binary64 .positive total u)) :
    parts? y = none ∨ ∃ m' e', parts? y = some ⟨false, m', e'⟩ ∧ minExponent ≤ e' ∧
      units m e ≤ units m' e' := by
  have hmin : minExponent = -1074 := rfl
  have hunits : 0 < units m e := Nat.mul_pos hpos (Nat.two_pow_pos _)
  have htotal : total ≠ 0 := by
    rintro rfl
    rw [units, units, Nat.zero_mul] at h
    exact Nat.not_lt_of_le h hunits
  simp only [UnpackedFloat.round, decreaseExponent, targetExponent_eq, totalExponent] at hy
  generalize hk : (u - max ((total.log2 : Int) + 1 + u - 53) (-1074)).toNat = k at hy
  have hlog : (total <<< k).log2 = total.log2 + k := log2_shiftLeft htotal k
  have hshifted : total <<< k ≠ 0 := by
    rw [Nat.shiftLeft_eq]
    exact Nat.mul_ne_zero htotal (Nat.ne_of_gt (Nat.two_pow_pos k))
  have hplace := exponent_shift (total <<< k) (u - k) .exact
  have hfirst : units m e ≤ units (total <<< k) (u - k) := by
    rwa [units_shiftLeft _ (by omega)]
  have hkept := units_le_shift hm he (show minExponent ≤ u - k by omega) hfirst
  have hcanonical := canonical_shift hshifted (e := u - k) (by omega)
  have hrounded := le_roundedMantissa (shiftToTargetExponent .binary64 (total <<< k) (u - k) .exact).1
  generalize hfirst : shiftToTargetExponent .binary64 (total <<< k) (u - k) .exact = first at *
  have hmost : units m e ≤ units first.1.roundedMantissa first.2 :=
    Nat.le_trans hkept (units_mono hrounded _)
  have hsome : 0 < first.1.roundedMantissa :=
    Nat.pos_of_mul_pos_right (Nat.lt_of_lt_of_le hunits hmost)
  have hat : minExponent ≤ first.2 := by omega
  rcases roundWithAccuracy_eq (s := .positive) (congrArg (·.1.roundedMantissa) hfirst)
    (congrArg (·.2) hfirst) hat hsome with ⟨hlt, hround⟩ | ⟨hcarry, hpow, hround⟩
  · rw [hround] at hy
    have hform : 2 ^ 52 ≤ first.1.roundedMantissa ∨ first.2 = minExponent :=
      hcanonical.imp_left fun hlow => Nat.le_trans hlow hrounded
    exact (parts?_pack hy hform hlt hat).imp_right fun hparts => ⟨_, _, hparts, hat, hmost⟩
  · rw [hround] at hy
    refine (parts?_pack hy (.inl (Nat.le_refl _)) (by decide) (by omega)).imp_right fun hparts =>
      ⟨_, _, hparts, by omega, ?_⟩
    rw [units_succ _ hat, ← Nat.pow_succ', ← hcarry]
    exact hmost

/-! ## Adding a half -/

theorem parts?_half : parts? 0.5 = some ⟨false, 2 ^ 52, -53⟩ := by decide +kernel

/-- A finite float has 53 bits of mantissa and no exponent below the least one. -/
theorem bounds_of_parts? {x : Float} {p : Parts} (h : parts? x = some p) :
    p.mantissa < 2 ^ 53 ∧ minExponent ≤ p.exponent := by
  have hmin : minExponent = -1074 := rfl
  simp only [parts?] at h
  split at h
  · cases h
  split at h
  · cases h
    dsimp only
    omega
  · cases h
    dsimp only
    omega

theorem positive_of_signed_pos {p : Parts} (h : 0 < p.signed) :
    p.negative = false ∧ 0 < p.mantissa := by
  rw [Parts.signed] at h
  split at h
  · omega
  · rename_i hpositive
    exact ⟨Bool.eq_false_iff.2 hpositive, by omega⟩

/-- Normalizing a positive number is rounding it. -/
theorem normalize_of_pos {m : Nat} {e : Int} (hm : 0 < m) :
    normalize .binary64 (m : Int) e .positive = UnpackedFloat.round .binary64 .positive m e := by
  have hcompare : compare (m : Int) 0 = .gt := by
    rw [Int.compare_eq_gt]
    omega
  rw [UnpackedFloat.normalize, hcompare]
  rfl

/-- **A half that is added to a positive number makes it no smaller.** -/
theorem parts?_add_half {x : Float} {p : Parts} (h : parts? x = some p) (hpos : 0 < p.signed) :
    parts? (x + 0.5) = none ∨ ∃ m e, parts? (x + 0.5) = some ⟨false, m, e⟩ ∧ minExponent ≤ e ∧
      units p.mantissa p.exponent ≤ units m e := by
  obtain ⟨hpositive, hm⟩ := positive_of_signed_pos hpos
  obtain ⟨hlt, he⟩ := bounds_of_parts? h
  obtain ⟨s, hm₁, hx, hs⟩ := unpack_of_parts? h (Nat.ne_of_gt hm)
  obtain ⟨s', hm₂, hhalf, hs'⟩ := unpack_of_parts? parts?_half (by decide)
  obtain rfl := hs hpositive
  obtain rfl := hs' rfl
  have hmin : minExponent = -1074 := rfl
  generalize hu : min p.exponent (-53) = u
  generalize htotal : p.mantissa <<< (p.exponent - u).toNat +
    2 ^ 52 <<< (-53 - u).toNat = total
  have hsum : (x + 0.5).toBits.toBitVec =
      pack .binary64 (UnpackedFloat.round .binary64 .positive total u) := by
    have hsome : 0 < total := by
      rw [← htotal, Nat.shiftLeft_eq]
      exact Nat.add_pos_left (Nat.mul_pos hm (Nat.two_pow_pos _)) _
    rw [← normalize_of_pos hsome, ← htotal, ← hu]
    show pack .binary64 (add .binary64 (unpack .binary64 x.toBits.toBitVec)
      (unpack .binary64 (0.5 : Float).toBits.toBitVec)) = _
    rw [hx, hhalf]
    rfl
  have hshift : units p.mantissa p.exponent = units (p.mantissa <<< (p.exponent - u).toNat) u := by
    have hplace : u = p.exponent - ((p.exponent - u).toNat : Nat) := by omega
    conv =>
      rhs
      arg 2
      rw [hplace]
    exact (units_shiftLeft _ (by omega)).symm
  have hfewer : units p.mantissa p.exponent ≤ units total u := by
    rw [hshift, ← htotal]
    exact units_mono (Nat.le_add_right _ _) u
  exact parts?_round hlt hm he (by omega) hfewer hsum

/-- **A whole number that is not above a float is not above the float rounded half up.** -/
theorem le_floor?_add_half {x : Float} {n : Int} (hn : 1 ≤ n)
    (hx : (compareInt? x n).any Ordering.isGE = true) {k : Int} (hfinite : floor? x = some k)
    {ticks : Int} (h : floor? (x + 0.5) = some ticks) : n ≤ ticks := by
  obtain ⟨p, hp, rfl⟩ := Option.map_eq_some_iff.1 hfinite
  rw [compareInt?, hp, Option.any_some, Parts.isGE_compareInt] at hx
  have hpos := Parts.signed_pos (Int.le_trans hn hx)
  obtain ⟨hpositive, -⟩ := positive_of_signed_pos hpos
  rcases parts?_add_half hp hpos with hnone | ⟨m, e, hsome, he, hunits⟩
  · rw [floor?, hnone] at h
    cases h
  · rw [floor?, hsome] at h
    cases h
    exact Int.le_trans hx (Parts.floor_mono hpositive rfl (bounds_of_parts? hp).2 he hunits)

end BlockProgram.Binary
