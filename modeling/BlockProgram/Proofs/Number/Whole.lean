import BlockProgram.Proofs.Number.ReadBack
import BlockProgram.Proofs.Number.Total

/-!
# Whole numbers that floats hold

A whole number is **held** if some float equals it (`Number.Held`). These are the whole numbers with
a mantissa of 53 bits before their trailing zeros, so all of magnitude up to `2 ^ 53` are among them
(`Number.held_of_le`), and beyond only even ones (`Number.even_of_held`).

The float nearest to a whole number equals it exactly if it is held (`Number.held_iff`): its parts
are those of the only float with this value, since a quotient in the interval of a number rounds to
the number.
-/

namespace BlockProgram

namespace Binary

open Float.Model.UnpackedFloat

variable {x y : Float} {p : Parts} {n : Int} {num den : Nat}

/-! ## Floats from canonical parts -/

/-- Bits that show no special number are those of the float that they make. -/
theorem toBits_ofBits {u : UInt64} (h : u.toNat / 2 ^ 52 % 2048 ≠ 2047) :
    (Float.ofBits u).toBits = u := by
  have hfield : (@unpackExponent .binary64 u.toBitVec).toNat ≠ 2047 := by
    simp only [unpackExponent]
    simpa [BitVec.extractLsb, Nat.shiftRight_eq_div_pow] using h
  show UInt64.ofBitVec (pack .binary64 (unpack .binary64 u.toBitVec)) = u
  rw [pack_unpack hfield]

/-- **Canonical parts are those of the float that they make.** -/
theorem parts?_ofMagnitude (hp : p.Canonical) :
    parts? (ofMagnitude p.negative p.bits) = some p := by
  have hmin : minExponent = -1074 := rfl
  have hlt : p.bits < 2047 * 2 ^ 52 := hp.bits_lt
  obtain ⟨hmantissa, hnormal, hleast, hmost⟩ := hp
  have hbits : p.bits = (p.exponent - minExponent).toNat * 2 ^ 52 + p.mantissa := rfl
  have hstored : (UInt64.ofNat (if p.negative then p.bits + 2 ^ 63 else p.bits)).toNat =
      if p.negative then p.bits + 2 ^ 63 else p.bits := by
    rw [UInt64.toNat_ofNat']
    exact Nat.mod_eq_of_lt (by split <;> omega)
  have hfield : (if p.negative then p.bits + 2 ^ 63 else p.bits) / 2 ^ 52 % 2048 =
      p.bits / 2 ^ 52 := by
    split <;> omega
  have hfraction : (if p.negative then p.bits + 2 ^ 63 else p.bits) % 2 ^ 52 =
      p.bits % 2 ^ 52 := by
    split <;> omega
  have hsign : decide (2 ^ 63 ≤ if p.negative then p.bits + 2 ^ 63 else p.bits) = p.negative := by
    cases p.negative
    · exact decide_eq_false (by rw [if_neg (by decide)]; omega)
    · exact decide_eq_true (by rw [if_pos rfl]; omega)
  rw [parts?, ofMagnitude, toBits_ofBits (by rw [hstored, hfield]; omega), hstored]
  simp only [hfield, hfraction, hsign]
  rw [if_neg (by omega)]
  rcases Nat.lt_or_ge p.mantissa (2 ^ 52) with hsubnormal | hfull
  · have hexponent := hnormal.resolve_left (by omega)
    rw [if_pos (by omega), show p.bits % 2 ^ 52 = p.mantissa by omega, ← hexponent]
  · rw [if_neg (by omega), show p.bits % 2 ^ 52 + 2 ^ 52 = p.mantissa by omega,
      show ((p.bits / 2 ^ 52 : Nat) : Int) - 1075 = p.exponent by omega]

/-! ## Floats with a whole value -/

namespace Parts

/-- The value of a float is a given whole number. -/
def HasValue (p : Parts) (n : Int) : Prop :=
  p.signed * 2 ^ p.exponent.toNat = n * 2 ^ (-p.exponent).toNat

theorem pow_dvd_signed {k : Nat} : (2 ^ k : Int) ∣ p.signed ↔ 2 ^ k ∣ p.mantissa := by
  rw [signed]
  split
  · rw [Int.dvd_neg]
    exact_mod_cast Iff.rfl
  · exact_mod_cast Iff.rfl

theorem hasValue_iff : p.HasValue n ↔ p.isWhole = true ∧ p.floor = n := by
  rw [HasValue, isWhole, floor]
  split
  · rename_i hwhole
    rw [decide_eq_true hwhole, show (-p.exponent).toNat = 0 by omega, Int.pow_zero, Int.mul_one,
      Bool.true_or, eq_self, true_and]
  · rename_i hfraction
    have hpos : (0 : Int) < 2 ^ (-p.exponent).toNat := intPow_pos _
    rw [decide_eq_false hfraction, show p.exponent.toNat = 0 by omega, Int.pow_zero, Int.mul_one,
      Bool.false_or, beq_iff_eq, ← Nat.dvd_iff_mod_eq_zero, ← pow_dvd_signed,
      Int.fdiv_eq_ediv_of_nonneg _ (Int.le_of_lt hpos)]
    constructor
    · intro h
      rw [h]
      exact ⟨Int.dvd_mul_left _ _, Int.mul_ediv_cancel _ (Int.ne_of_gt hpos)⟩
    · rintro ⟨hdvd, rfl⟩
      exact (Int.ediv_mul_cancel hdvd).symm

end Parts

theorem whole?_eq_some_iff : whole? x = some n ↔ ∃ p, parts? x = some p ∧ p.HasValue n := by
  rw [whole?]
  rcases parts? x with _ | p
  · simp
  · simp [Parts.hasValue_iff]

/-- A float equals a whole number exactly if it is this whole number. -/
theorem compareInt?_eq_iff : compareInt? x n = some .eq ↔ whole? x = some n := by
  rw [whole?_eq_some_iff, compareInt?]
  rcases parts? x with _ | p
  · simp only [reduceCtorEq, false_and, exists_false, iff_false]
    split
    · simp
    · split <;> simp
  · simp [Parts.compareInt, Parts.HasValue]

/-! ## The nearest float -/

theorem Parts.HasValue.natAbs (h : p.HasValue n) :
    p.mantissa * 2 ^ p.exponent.toNat = n.natAbs * 2 ^ (-p.exponent).toNat := by
  have hsigned : p.signed.natAbs = p.mantissa := by
    rw [signed]
    split
    · rw [Int.natAbs_neg, Int.natAbs_natCast]
    · exact Int.natAbs_natCast _
  have habs := congrArg Int.natAbs h
  rwa [Int.natAbs_mul, Int.natAbs_mul, Int.natAbs_pow, Int.natAbs_pow, hsigned] at habs

theorem Parts.HasValue.mantissa_pos (h : p.HasValue n) (hn : n ≠ 0) : 0 < p.mantissa := by
  refine Nat.pos_of_mul_pos_right (b := 2 ^ p.exponent.toNat) ?_
  rw [h.natAbs]
  exact Nat.mul_pos (Int.natAbs_pos.2 hn) (Nat.two_pow_pos _)

theorem Parts.HasValue.negative_eq (h : p.HasValue n) (hn : n ≠ 0) :
    p.negative = decide (n < 0) := by
  have hpos := h.mantissa_pos hn
  have hup : (0 : Int) < 2 ^ p.exponent.toNat := intPow_pos _
  have hdown : (0 : Int) < 2 ^ (-p.exponent).toNat := intPow_pos _
  have hsigned : p.signed < 0 ↔ p.negative = true := by
    rw [signed]
    split <;> simp_all
  have hsign : p.signed < 0 ↔ n < 0 :=
    calc p.signed < 0
      _ ↔ p.signed * 2 ^ p.exponent.toNat < 0 * 2 ^ p.exponent.toNat :=
        (Int.mul_lt_mul_right hup).symm
      _ ↔ n * 2 ^ (-p.exponent).toNat < 0 * 2 ^ (-p.exponent).toNat := by
        rw [h, Int.zero_mul, Int.zero_mul]
      _ ↔ n < 0 := Int.mul_lt_mul_right hdown
  rw [Bool.eq_iff_iff, decide_eq_true_iff, ← hsigned, hsign]

/-- The value of a number lies in its interval. -/
theorem Parts.HasValue.holds (h : p.HasValue n) (hn : n ≠ 0) :
    (Shortest.Interval.ofParts p).Holds n.natAbs 1 := by
  have hpos := h.mantissa_pos hn
  -- in quarters of the last place
  have hplaces : 2 + (p.exponent - 2).toNat + (-p.exponent).toNat =
      p.exponent.toNat + (2 - p.exponent).toNat := by omega
  have hquarters : 4 * p.mantissa * 2 ^ (p.exponent - 2).toNat =
      n.natAbs * 2 ^ (2 - p.exponent).toNat := by
    refine Nat.eq_of_mul_eq_mul_right (Nat.two_pow_pos (-p.exponent).toNat) ?_
    calc 4 * p.mantissa * 2 ^ (p.exponent - 2).toNat * 2 ^ (-p.exponent).toNat
      _ = p.mantissa * 2 ^ (2 + (p.exponent - 2).toNat + (-p.exponent).toNat) := by
        rw [Nat.pow_add, Nat.pow_add, show 2 ^ 2 = 4 from rfl]
        ac_rfl
      _ = p.mantissa * 2 ^ p.exponent.toNat * 2 ^ (2 - p.exponent).toNat := by
        rw [hplaces, Nat.pow_add, Nat.mul_assoc]
      _ = n.natAbs * 2 ^ (2 - p.exponent).toNat * 2 ^ (-p.exponent).toNat := by
        rw [h.natAbs, Nat.mul_right_comm]
  have hscale : 0 < 2 ^ (p.exponent - 2).toNat := Nat.two_pow_pos _
  have hlow : (Shortest.Interval.ofParts p).low < 4 * p.mantissa * 2 ^ (p.exponent - 2).toNat := by
    refine Nat.mul_lt_mul_of_pos_right ?_ hscale
    split <;> omega
  have hhigh : 4 * p.mantissa * 2 ^ (p.exponent - 2).toNat < (Shortest.Interval.ofParts p).high :=
    Nat.mul_lt_mul_of_pos_right (by omega) hscale
  rw [hquarters] at hlow hhigh
  rw [Shortest.Interval.Holds, Nat.mul_one, Nat.mul_one]
  split
  · exact ⟨Nat.le_of_lt hlow, Nat.le_of_lt hhigh⟩
  · exact ⟨hlow, hhigh⟩

/-- **A float with a whole value is the one nearest to this value.** -/
theorem ofInt?_of_whole? (h : whole? x = some n) (hn : n ≠ 0) : ofInt? n = some x := by
  obtain ⟨p, hp, hvalue⟩ := whole?_eq_some_iff.1 h
  have hcanonical := canonical_of_parts? hp
  have hbits : nearestBits n.natAbs 1 = p.bits :=
    Shortest.nearestBits_of_holds hcanonical (hvalue.mantissa_pos hn) Nat.one_pos (hvalue.holds hn)
  rw [ofInt?, hbits, if_neg (Nat.ne_of_lt hcanonical.bits_lt), ← hvalue.negative_eq hn,
    ofMagnitude_bits hp]

theorem of_ofInt? (h : ofInt? n = some x) :
    isFinite x = true ∧ x = ofMagnitude (decide (n < 0)) (nearestBits n.natAbs 1) := by
  obtain ⟨hfinite, hx⟩ := Option.ite_none_left_eq_some.1 h
  cases hx
  exact ⟨isFinite_ofMagnitude (Nat.lt_of_le_of_ne (nearestBits_le _ _) hfinite), rfl⟩

end Binary

namespace Number

variable {x : Float} {n : Int}

theorem same_float_int : (Number.float x).same (.int n) = true ↔ Binary.whole? x = some n := by
  rw [same, compare?, beq_iff_eq, Binary.compareInt?_eq_iff]

/-- A whole number that some float equals. -/
def Held (n : Int) : Prop := ∃ x : Float, (Number.float x).same (.int n) = true

/-- **The float nearest to a whole number equals it if any float does.** -/
theorem held_iff (h : (Number.int n).toFloat? = some x) : Held n ↔ Binary.whole? x = some n := by
  constructor
  · rintro ⟨y, hy⟩
    rw [same_float_int] at hy
    by_cases hn : n = 0
    · subst hn
      cases h
      decide +kernel
    · cases (Binary.ofInt?_of_whole? hy hn).symm.trans h
      exact hy
  · exact fun hx => ⟨x, same_float_int.2 hx⟩

theorem held_zero : Held 0 := ⟨0, by decide +kernel⟩

/-- A whole number is held if its magnitude is a number of 53 bits before trailing zeros. -/
theorem held_of_eq {m k : Nat} (hn : n.natAbs = m * 2 ^ k) (hm : m < 2 ^ 53) (hk : k ≤ 900) :
    Held n := by
  rcases Nat.eq_zero_or_pos m with rfl | hpos
  · rw [Nat.zero_mul, Int.natAbs_eq_zero] at hn
    rw [hn]
    exact held_zero
  have hmin : Binary.minExponent = -1074 := rfl
  have hlog : m.log2 ≤ 52 := Nat.le_of_lt_succ ((Nat.log2_lt (Nat.ne_of_gt hpos)).2 hm)
  -- the mantissa is moved up to 53 bits
  obtain ⟨j, hj⟩ : ∃ j, m.log2 + j = 52 := ⟨52 - m.log2, by omega⟩
  have hlow : 2 ^ 52 ≤ m * 2 ^ j := by
    rw [← hj, Nat.pow_add]
    exact Nat.mul_le_mul_right _ (Nat.log2_self_le (Nat.ne_of_gt hpos))
  have hhigh : m * 2 ^ j < 2 ^ 53 := by
    rw [show 53 = m.log2 + 1 + j by omega, Nat.pow_add]
    exact Nat.mul_lt_mul_of_pos_right Nat.lt_log2_self (Nat.two_pow_pos _)
  obtain ⟨p, hp⟩ : ∃ p : Binary.Parts, p = ⟨decide (n < 0), m * 2 ^ j, (k : Int) - j⟩ := ⟨_, rfl⟩
  have hcanonical : p.Canonical := by
    rw [hp]
    exact ⟨hhigh, .inl hlow, by dsimp only; omega, by dsimp only; omega⟩
  refine ⟨_, same_float_int.2 (Binary.whole?_eq_some_iff.2
    ⟨p, Binary.parts?_ofMagnitude hcanonical, ?_⟩)⟩
  have hvalue : m * 2 ^ j * 2 ^ ((k : Int) - j).toNat = n.natAbs * 2 ^ (-((k : Int) - j)).toNat := by
    rw [hn, Nat.mul_assoc, Nat.mul_assoc, ← Nat.pow_add, ← Nat.pow_add]
    congr 2
    omega
  have hvalue : ((m * 2 ^ j : Nat) : Int) * 2 ^ ((k : Int) - j).toNat =
      (n.natAbs : Int) * 2 ^ (-((k : Int) - j)).toNat := by exact_mod_cast hvalue
  rw [hp, Binary.Parts.HasValue, Binary.Parts.signed]
  dsimp only
  rcases Int.lt_or_le n 0 with hneg | hnonneg
  · rw [decide_eq_true hneg, if_pos rfl, Int.neg_mul, hvalue, ← Int.neg_mul,
      show -(n.natAbs : Int) = n by omega]
  · rw [decide_eq_false (Int.not_lt.2 hnonneg), if_neg (by decide), hvalue,
      Int.natAbs_of_nonneg hnonneg]

theorem held_of_le (h : n.natAbs ≤ exactLimit) : Held n := by
  rcases Nat.lt_or_eq_of_le h with hlt | heq
  · exact held_of_eq (k := 0) (Nat.mul_one _).symm hlt (by decide)
  · exact held_of_eq (m := 1) (k := 53) (heq.trans (Nat.one_mul _).symm) (by decide) (by decide)

/-- Beyond the limit of exact whole floats, every second number is skipped. -/
theorem even_of_held (h : Held n) (hbeyond : exactLimit < n.natAbs) : n % 2 = 0 := by
  obtain ⟨x, hx⟩ := h
  obtain ⟨p, hp, hvalue⟩ := Binary.whole?_eq_some_iff.1 (same_float_int.1 hx)
  have hlt : p.mantissa < exactLimit := (Binary.canonical_of_parts? hp).lt
  have habs := hvalue.natAbs
  rcases Int.lt_or_le 0 p.exponent with hlarge | hsmall
  · obtain ⟨e, he⟩ : ∃ e, p.exponent.toNat = e + 1 := ⟨p.exponent.toNat - 1, by omega⟩
    rw [he, show (-p.exponent).toNat = 0 by omega, Nat.pow_succ, ← Nat.mul_assoc] at habs
    omega
  · have hle := Nat.le_mul_of_pos_right n.natAbs (Nat.two_pow_pos (-p.exponent).toNat)
    rw [← habs, show p.exponent.toNat = 0 by omega] at hle
    omega

end Number

end BlockProgram
