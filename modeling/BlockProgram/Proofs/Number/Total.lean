import BlockProgram.Proofs.Number.Finite
import BlockProgram.Proofs.Value.Coerce

/-!
# Arithmetic that has a result

An operation on numbers has no result only where a whole number beyond the range of floats would
have to become a float. So on numbers within range every operation has one:

* what is put together from magnitude bits below those of infinity is finite
  (`Binary.isFinite_ofMagnitude`), and such bits are those of every quotient within the largest
  float;
* numbers within range become floats (`Number.exists_toFloat?`), and their sums, products,
  remainders and quotients exist; only **wide** whole numbers do not (`Number.wide_iff`);
* a remainder by a full turn is never infinite, whatever it is taken of (`Binary.isInf_modulo`).
-/

namespace BlockProgram

namespace Binary

open Float.Model (UnpackedFloat)
open Float.Model.UnpackedFloat

/-! ## Floats put together from their bits -/

/-- Reading bits as a float and taking its bits again keeps the exponent field, except that it is
normalized. -/
theorem exponentField_ofBits {u : UInt64} {field : Nat} (hu : u.toNat / 2 ^ 52 % 2048 = field)
    (hfield : field ≠ 2047) : exponentField (Float.ofBits u) ≤ field := by
  have hexponent : (@unpackExponent .binary64 u.toBitVec).toNat = field := by
    rw [← hu]
    simp only [unpackExponent]
    simp [BitVec.extractLsb, Nat.shiftRight_eq_div_pow]
  rw [← toNat_unpackExponent]
  show (@unpackExponent .binary64 (pack .binary64 (unpack .binary64 u.toBitVec))).toNat ≤ field
  rcases unpack_cases hexponent hfield with ⟨s, hzero⟩ | ⟨s, m, e, hm, hfinite, -, he⟩
  · rw [hzero]
    cases s <;> exact Nat.zero_le _
  · have hlt : field < 2048 := by
      rw [← hu]
      exact Nat.mod_lt _ (by decide)
    rw [hfinite, unpackExponent_pack (by omega)]
    split
    · rename_i hlog
      rcases he with ⟨rfl, -⟩ | ⟨-, -, hm'⟩
      · omega
      · -- a mantissa of 53 bits is no subnormal one
        have := (Nat.log2_lt (by omega)).2 hm'
        omega
    · exact Nat.zero_le _

theorem exponentField_ofMagnitude {negative : Bool} {bits : Nat} (h : bits < infinityBits) :
    exponentField (ofMagnitude negative bits) ≤ bits / 2 ^ 52 := by
  simp only [infinityBits] at h
  refine exponentField_ofBits ?_ (by omega)
  rw [UInt64.toNat_ofNat']
  cases negative <;> simp only [if_true, if_false, Bool.false_eq_true] <;> omega

/-- **Bits below those of infinity make a finite number.** -/
theorem isFinite_ofMagnitude {negative : Bool} {bits : Nat} (h : bits < infinityBits) :
    isFinite (ofMagnitude negative bits) = true := by
  have hfield := @exponentField_ofMagnitude negative bits h
  rw [isFinite_iff]
  simp only [infinityBits] at h
  omega

theorem isInf_of_exponentField {x : Float} (h : exponentField x ≠ 2047) : x.isInf = false := by
  rw [isInf_eq]
  rcases unpack_cases (toNat_unpackExponent x) h with ⟨s, hu⟩ | ⟨s, m, e, hm, hu, -⟩ <;>
    rw [hu] <;> rfl

theorem isInf_of_isFinite {x : Float} (h : isFinite x = true) : x.isInf = false :=
  isInf_of_exponentField (isFinite_iff.1 h)

/-- The bits of a quotient within the largest float are below those of infinity. -/
theorem nearestBits_lt_infinityBits {num den : Nat} (hden : 0 < den)
    (h : num ≤ Number.floatMax * den) : nearestBits num den < infinityBits := by
  have hbelow (place : Nat) (hle : num ≤ (2 ^ 53 - 1) * 2 ^ place * den) :
      2 * num < (2 ^ 54 - 1) * (2 ^ place * den) := by
    have hscaled : 0 < 2 ^ place * den := Nat.mul_pos (Nat.two_pow_pos place) hden
    rw [Nat.mul_assoc] at hle
    omega
  rw [Number.floatMax] at h
  exact nearestBits_lt hden (hbelow 971 h)

/-! ## Remainders by a full turn -/

theorem parts?_fullTurn : parts? 360 = some ⟨false, 360 * 2 ^ 44, -44⟩ := by decide +kernel

/-- What is left of a number when full turns are taken away is less than one. -/
theorem exponentField_truncatedRemainder (x : Parts) :
    exponentField (ofParts (x.truncatedRemainder ⟨false, 360 * 2 ^ 44, -44⟩)) ≤ 1075 := by
  simp only [ofParts, ofRatio, Parts.truncatedRemainder]
  generalize hunit : min x.exponent (-44) = unit
  have hneg : unit ≤ -44 := by omega
  have hden : 0 < 2 ^ (-unit).toNat := Nat.two_pow_pos _
  have hturn : 360 * 2 ^ 44 * 2 ^ (-44 - unit).toNat = 360 * 2 ^ (-unit).toNat := by
    rw [Nat.mul_assoc, ← Nat.pow_add]
    congr 2
    omega
  rw [show unit.toNat = 0 by omega, Nat.pow_zero, Nat.mul_one, hturn]
  have hrest := Nat.mod_lt (x.mantissa * 2 ^ (x.exponent - unit).toNat)
    (Nat.mul_pos (by decide : 0 < 360) hden)
  generalize x.mantissa * 2 ^ (x.exponent - unit).toNat % (360 * 2 ^ (-unit).toNat) = rest at hrest
  have hbits : nearestBits rest (2 ^ (-unit).toNat) < (0 + 1076) * 2 ^ 52 := by
    refine nearestBits_lt hden ?_
    rw [Nat.pow_zero, Nat.one_mul]
    omega
  have hinfinity : nearestBits rest (2 ^ (-unit).toNat) < infinityBits :=
    Nat.lt_trans hbits (by decide)
  exact Nat.le_trans (exponentField_ofMagnitude hinfinity) (by omega)

/-- **A remainder by a full turn is never infinite.** -/
theorem isInf_modulo (x : Float) : (modulo x 360).isInf = false := by
  unfold modulo
  rw [parts?_fullTurn]
  rcases parts? x with _ | parts
  · dsimp only
    decide +kernel
  · have hfield := exponentField_truncatedRemainder parts
    dsimp only
    generalize ofParts (parts.truncatedRemainder ⟨false, 360 * 2 ^ 44, -44⟩) = remainder at hfield
    split
    · exact isInf_of_isFinite (isFinite_ofMagnitude (by decide))
    · split
      · exact isInf_add (by omega) (by decide +kernel)
      · exact isInf_of_exponentField (by omega)

end Binary

namespace Number

variable {a b : Number}

/-- A number that does not become a float. -/
def Wide (n : Number) : Prop := n.toFloat? = none

/-- **Wide numbers** are the whole numbers from a half above the largest float on. -/
theorem wide_iff : a.Wide ↔ ∃ n, a = .int n ∧ (2 ^ 54 - 1) * 2 ^ 970 ≤ n.natAbs := by
  cases a with
  | float x =>
    constructor
    · rintro ⟨⟩
    · rintro ⟨n, hn, -⟩
      cases hn
  | int n =>
    have hbits : (Number.int n).Wide ↔ Binary.nearestBits n.natAbs 1 = Binary.infinityBits := by
      show (if _ then none else some _) = none ↔ _
      simp
    have hhalf (place : Nat) : (2 ^ 54 - 1) * (2 ^ (place + 1) * 1) ≤ 2 * n.natAbs ↔
        (2 ^ 54 - 1) * 2 ^ place ≤ n.natAbs := by
      rw [Nat.mul_one, Nat.pow_succ]
      omega
    rw [hbits, Binary.nearestBits_eq_infinityBits_iff Nat.one_pos, show 971 = 970 + 1 from rfl,
      hhalf 970]
    constructor
    · exact fun hle => ⟨n, rfl, hle⟩
    · rintro ⟨n, ⟨⟩, hle⟩
      exact hle

/-- **A number within range becomes a float.** -/
theorem exists_toFloat? (h : a.inRange = true) : ∃ x, a.toFloat? = some x := by
  rcases a with n | x
  · have hbits : Binary.nearestBits n.natAbs 1 < Binary.infinityBits := by
      refine Binary.nearestBits_lt_infinityBits Nat.one_pos ?_
      rw [Nat.mul_one]
      exact of_decide_eq_true h
    exact ⟨_, if_neg (Nat.ne_of_lt hbits)⟩
  · exact ⟨x, rfl⟩

theorem exists_combine? {onInt : Int → Int → Int} {onFloat : Float → Float → Float} {x y : Float}
    (ha : a.toFloat? = some x) (hb : b.toFloat? = some y) :
    ∃ c, combine? onInt onFloat a b = some c := by
  have hfloats : floats? a b = some (x, y) := by rw [floats?, ha, hb]
  simp only [combine?]
  split
  · exact ⟨_, rfl⟩
  · exact ⟨_, by rw [hfloats]; rfl⟩

/-- An operation with a float is done in floats. -/
theorem combine?_float (onInt : Int → Int → Int) (onFloat : Float → Float → Float) (a : Number)
    (y : Float) :
    combine? onInt onFloat a (.float y) = a.toFloat?.map fun x => .float (onFloat x y) := by
  have hfloats : floats? a (.float y) = a.toFloat?.map fun x => (x, y) := by
    simp only [floats?]
    rcases a.toFloat? with _ | x <;> rfl
  unfold combine?
  split
  · contradiction
  · rw [hfloats, Option.map_map]
    rfl

/-- A quotient of numbers within range, other than by zero, is within range. -/
theorem exists_div? (ha : a.inRange = true) (hb : b.inRange = true) (hzero : b.isZero = false) :
    ∃ c, div? a b = some c := by
  obtain ⟨x, hx⟩ := exists_toFloat? ha
  obtain ⟨y, hy⟩ := exists_toFloat? hb
  have hfloats : floats? a b = some (x, y) := by rw [floats?, hx, hy]
  simp only [div?]
  split
  · rename_i m n
    have hpos : 0 < n.natAbs := by
      refine Int.natAbs_pos.2 fun hn => ?_
      rw [hn] at hzero
      cases hzero
    have hrange : m.natAbs ≤ floatMax * n.natAbs :=
      Nat.le_trans (of_decide_eq_true ha) (Nat.le_mul_of_pos_right _ hpos)
    have hfinite : Binary.isFinite (Binary.ofRatio ((m < 0) != (n < 0)) m.natAbs n.natAbs) = true :=
      Binary.isFinite_ofMagnitude (Binary.nearestBits_lt_infinityBits hpos hrange)
    exact ⟨_, if_pos hfinite⟩
  · exact ⟨_, by rw [hfloats]; rfl⟩

end Number

end BlockProgram
