import BlockProgram.Number.Decimal
import BlockProgram.Proofs.Number.ReadBack

/-!
# The shortest decimal reads back

The shortest decimal of a number lies in the interval of the number (`Shortest.has_decimal`), and a
decimal in this interval is read as the number (`Shortest.nearest_of_has`). For the first:

* a hit on a grid is in the interval by definition, and trailing zeros do not change a decimal
  (`Interval.has_mul_pow`);
* where no grid has a hit, the nearest decimal of seventeen digits is taken. It is off by half a
  unit of its last place at most, which is less than what the interval reaches
  (`Interval.has_nearest`).

The second point needs that the decimal has seventeen digits: the place of the first digit is
guessed from the bit length, and the guess is not too high (`Interval.le_leadingPlace`).
-/

namespace BlockProgram.Shortest

open Binary

/-! ## Decimals in an interval -/

/-- A decimal that lies in an interval. -/
def Interval.Has (i : Interval) (n : Nat) (place : Int) : Prop :=
  i.Holds (n * 10 ^ place.toNat) (10 ^ (-place).toNat)

variable {i : Interval} {p : Parts} {n : Nat} {place : Int}

/-- Equal quotients lie in the same intervals. -/
theorem Interval.holds_congr {num den num' den' : Nat} (hden : 0 < den) (hden' : 0 < den')
    (h : num * den' = num' * den) : i.Holds num den ↔ i.Holds num' den' := by
  have hend (a : Nat) : a * den * den' = a * den' * den := Nat.mul_right_comm _ _ _
  have hvalue : num * i.unit * den' = num' * i.unit * den := by
    rw [Nat.mul_right_comm, h, Nat.mul_right_comm]
  have hle (a : Nat) : a * den ≤ num * i.unit ↔ a * den' ≤ num' * i.unit := by
    rw [← Nat.mul_le_mul_right_iff hden', hend, hvalue, Nat.mul_le_mul_right_iff hden]
  have hge (a : Nat) : num * i.unit ≤ a * den ↔ num' * i.unit ≤ a * den' := by
    rw [← Nat.mul_le_mul_right_iff hden', hend, hvalue, Nat.mul_le_mul_right_iff hden]
  simp only [Holds, ← Nat.not_le, hle, hge]

/-- Zeros at the end do not change a decimal. -/
theorem Interval.has_mul_pow (k : Nat) : i.Has (n * 10 ^ k) (place - k) ↔ i.Has n place := by
  have hpow (j : Nat) : 0 < 10 ^ j := Nat.pow_pos (by decide)
  refine holds_congr (hpow _) (hpow _) ?_
  simp only [Nat.mul_assoc, ← Nat.pow_add]
  congr 2
  omega

theorem has_trimZeros (h : i.Has n place) : i.Has (trimZeros n place).1 (trimZeros n place).2 := by
  fun_induction trimZeros n place with
  | case1 n place hzero ih =>
    refine ih ?_
    rw [← Interval.has_mul_pow 1, Nat.pow_one, Nat.div_mul_cancel (Nat.dvd_of_mod_eq_zero hzero.2)]
    simpa using h
  | case2 n place => exact h

theorem Interval.nearest_eq (i : Interval) (place : Int) :
    i.nearest place =
      roundDiv (i.value * 10 ^ (-place).toNat) (i.unit * 10 ^ place.toNat) := by
  simp only [nearest, onPlace, roundDiv]
  generalize i.value * 10 ^ (-place).toNat = num
  generalize i.unit * 10 ^ place.toNat = den
  rcases Nat.lt_trichotomy (2 * (num % den)) den with hlt | heq | hgt
  · rw [Nat.compare_eq_lt.2 hlt, if_pos hlt]
  · rw [Nat.compare_eq_eq.2 heq, if_neg (by omega), if_neg (by omega)]
  · rw [Nat.compare_eq_gt.2 hgt, if_neg (by omega), if_pos hgt]

theorem Interval.nearest_cases (i : Interval) (place : Int) :
    i.nearest place = (i.onPlace place).1 ∨ i.nearest place = (i.onPlace place).1 + 1 := by
  simp only [nearest]
  split
  · rename_i hplace
    exact .inl (congrArg Prod.fst hplace).symm
  · rename_i hplace
    exact .inr (congrArg (·.1 + 1) hplace).symm
  · rename_i below hplace
    have hbelow := congrArg Prod.fst hplace
    dsimp only at hbelow
    omega

/-- A hit on a grid is in the interval. -/
theorem Interval.has_onGrid? (h : i.onGrid? place = some n) : i.Has n place := by
  refine contains_iff.1 ?_
  simp only [onGrid?] at h
  split at h
  · cases h
  · rename_i hbelow _
    cases h
    exact hbelow
  · rename_i _ habove
    cases h
    exact habove
  · rename_i hbelow habove
    cases h
    rcases i.nearest_cases place with heq | heq <;> rw [heq]
    · exact hbelow
    · exact habove

/-! ## The place of the first digit -/

/-- Powers of ten compared with powers of two, by means of `10 ^ 59 ≤ 2 ^ 196` and of
`2 ^ 93 ≤ 10 ^ 28`. -/
theorem pow_ten_le {a b : Nat} {k : Int} (ha : a ≤ 2000) (hb : b ≤ 2000)
    (h : (k + 1) * 100000 ≤ ((a : Int) - b) * 30103) :
    2 ^ b * 10 ^ k.toNat ≤ 2 ^ a * 10 ^ (-k).toNat := by
  rcases Int.le_total 0 k with hpos | hneg
  · rw [show (-k).toNat = 0 by omega, Nat.pow_zero, Nat.mul_one]
    refine (Nat.pow_le_pow_iff_left (show 59 ≠ 0 by decide)).1 ?_
    calc (2 ^ b * 10 ^ k.toNat) ^ 59
      _ = 2 ^ (b * 59) * (10 ^ 59) ^ k.toNat := by
        rw [Nat.mul_pow, ← Nat.pow_mul, ← Nat.pow_mul, ← Nat.pow_mul, Nat.mul_comm 59]
      _ ≤ 2 ^ (b * 59) * (2 ^ 196) ^ k.toNat :=
        Nat.mul_le_mul_left _ (Nat.pow_le_pow_left (by decide) _)
      _ = 2 ^ (b * 59 + 196 * k.toNat) := by rw [← Nat.pow_mul, ← Nat.pow_add]
      _ ≤ 2 ^ (a * 59) := Nat.pow_le_pow_right (by decide) (by omega)
      _ = (2 ^ a) ^ 59 := Nat.pow_mul _ _ _
  · rw [show k.toNat = 0 by omega, Nat.pow_zero, Nat.mul_one]
    rcases Nat.le_total b a with hle | hge
    · calc 2 ^ b
        _ ≤ 2 ^ a := Nat.pow_le_pow_right (by decide) hle
        _ ≤ 2 ^ a * 10 ^ (-k).toNat := Nat.le_mul_of_pos_right _ (Nat.pow_pos (by decide))
    · refine (Nat.pow_le_pow_iff_left (show 93 ≠ 0 by decide)).1 ?_
      calc (2 ^ b) ^ 93
        _ = 2 ^ (a * 93) * (2 ^ 93) ^ (b - a) := by
          rw [← Nat.pow_mul, ← Nat.pow_mul, ← Nat.pow_add]
          congr 1
          omega
        _ ≤ 2 ^ (a * 93) * (10 ^ 28) ^ (b - a) :=
          Nat.mul_le_mul_left _ (Nat.pow_le_pow_left (by decide) _)
        _ ≤ 2 ^ (a * 93) * 10 ^ ((-k).toNat * 93) := by
          rw [← Nat.pow_mul]
          exact Nat.mul_le_mul_left _ (Nat.pow_le_pow_right (by decide) (by omega))
        _ = (2 ^ a * 10 ^ (-k).toNat) ^ 93 := by rw [Nat.mul_pow, Nat.pow_mul, Nat.pow_mul 10]

theorem Interval.onPlace_ne_zero (hunit : 0 < i.unit) :
    (i.onPlace place).1 ≠ 0 ↔
      i.unit * 10 ^ place.toNat ≤ i.value * 10 ^ (-place).toNat := by
  have hden : 0 < i.unit * 10 ^ place.toNat := Nat.mul_pos hunit (Nat.pow_pos (by decide))
  simp only [onPlace, ne_eq, Nat.div_eq_zero_iff]
  omega

/-- The guessed place of the first digit is not too high. -/
theorem Interval.le_leadingPlace (hp : p.Canonical) (hpos : 0 < p.mantissa) :
    (Interval.ofParts p).unit * 10 ^ (Interval.ofParts p).leadingPlace.toNat ≤
      (Interval.ofParts p).value * 10 ^ (-(Interval.ofParts p).leadingPlace).toNat := by
  obtain ⟨hlt, -, hleast, hmost⟩ := hp
  have hunit : (Interval.ofParts p).unit = 2 ^ (2 - p.exponent).toNat := rfl
  have hvalue : (Interval.ofParts p).value = 4 * p.mantissa * 2 ^ (p.exponent - 2).toNat := rfl
  have hunitPos : 0 < (Interval.ofParts p).unit := hunit ▸ Nat.two_pow_pos _
  simp only [leadingPlace]
  split
  · rename_i hhigher
    exact (onPlace_ne_zero hunitPos).1 hhigher
  split
  · rename_i hguess
    exact (onPlace_ne_zero hunitPos).1 hguess
  have hvaluePos : (Interval.ofParts p).value ≠ 0 := by
    rw [hvalue]
    exact Nat.ne_of_gt (Nat.mul_pos (by omega) (Nat.two_pow_pos _))
  have hlog : (Interval.ofParts p).unit.log2 = (2 - p.exponent).toNat := by
    rw [hunit, Nat.log2_two_pow]
  have hbits : (Interval.ofParts p).value.log2 < 1024 := by
    refine (Nat.log2_lt hvaluePos).2 ?_
    rw [hvalue]
    calc 4 * p.mantissa * 2 ^ (p.exponent - 2).toNat
      _ < 2 ^ 55 * 2 ^ (p.exponent - 2).toNat :=
        Nat.mul_lt_mul_of_pos_right (by omega) (Nat.two_pow_pos _)
      _ = 2 ^ (55 + (p.exponent - 2).toNat) := (Nat.pow_add _ _ _).symm
      _ ≤ 2 ^ 1024 := Nat.pow_le_pow_right (by decide) (by omega)
  have hfirst := Nat.log2_self_le hvaluePos
  have hmin : minExponent = -1074 := rfl
  rw [hlog, hunit]
  generalize (Interval.ofParts p).value = value at *
  have hfloor : (((value.log2 : Int) - (2 - p.exponent).toNat) * 30103).fdiv 100000 * 100000 ≤
      ((value.log2 : Int) - (2 - p.exponent).toNat) * 30103 := by
    rw [Int.fdiv_eq_ediv_of_nonneg _ (by decide)]
    exact Int.ediv_mul_le _ (by decide)
  refine Nat.le_trans (pow_ten_le (by omega) (by omega) ?_) (Nat.mul_le_mul_right _ hfirst)
  rw [Int.sub_add_cancel]
  exact hfloor

/-! ## Seventeen digits are enough -/

/-- With seventeen digits the last place is small against the number. -/
theorem Interval.le_nearest (hp : p.Canonical) (hpos : 0 < p.mantissa)
    (hplace : place = (Interval.ofParts p).leadingPlace - 16) :
    10 ^ 16 * ((Interval.ofParts p).unit * 10 ^ place.toNat) ≤
      (Interval.ofParts p).value * 10 ^ (-place).toNat := by
  have hleading := le_leadingPlace hp hpos
  generalize (Interval.ofParts p).leadingPlace = l at hleading hplace
  have hleading := Nat.mul_le_mul_right (10 ^ (place.toNat + 16 - l.toNat)) hleading
  rw [Nat.mul_assoc, Nat.mul_assoc, ← Nat.pow_add, ← Nat.pow_add,
    show l.toNat + (place.toNat + 16 - l.toNat) = 16 + place.toNat by omega,
    show (-l).toNat + (place.toNat + 16 - l.toNat) = (-place).toNat by omega] at hleading
  rwa [Nat.pow_add, Nat.mul_left_comm] at hleading

/-- The nearest decimal of seventeen digits is in the interval. -/
theorem Interval.has_nearest (hp : p.Canonical) (hpos : 0 < p.mantissa)
    (hplace : place = (Interval.ofParts p).leadingPlace - 16) :
    (Interval.ofParts p).Has ((Interval.ofParts p).nearest place) place := by
  have hleading := le_nearest hp hpos hplace
  have hlt := hp.lt
  rw [nearest_eq]
  have hlow : (Interval.ofParts p).low * 10 ^ (-place).toNat =
      (4 * p.mantissa - reach p) * (2 ^ (p.exponent - 2).toNat * 10 ^ (-place).toNat) :=
    Nat.mul_assoc _ _ _
  have hvalue : (Interval.ofParts p).value * 10 ^ (-place).toNat =
      4 * p.mantissa * (2 ^ (p.exponent - 2).toNat * 10 ^ (-place).toNat) :=
    Nat.mul_assoc _ _ _
  have hhigh : (Interval.ofParts p).high * 10 ^ (-place).toNat =
      (4 * p.mantissa + 2) * (2 ^ (p.exponent - 2).toNat * 10 ^ (-place).toNat) :=
    Nat.mul_assoc _ _ _
  have hscale : 0 < 2 ^ (p.exponent - 2).toNat * 10 ^ (-place).toNat :=
    Nat.mul_pos (Nat.two_pow_pos _) (Nat.pow_pos (by decide))
  have hgrid : 0 < (Interval.ofParts p).unit * 10 ^ place.toNat :=
    Nat.mul_pos (Nat.two_pow_pos _) (Nat.pow_pos (by decide))
  have hcommuted (r : Nat) : r * 10 ^ place.toNat * (Interval.ofParts p).unit =
      r * ((Interval.ofParts p).unit * 10 ^ place.toNat) := by
    rw [Nat.mul_assoc, Nat.mul_comm (10 ^ _)]
  have hrounded := @roundDiv_bounds
    ((Interval.ofParts p).value * 10 ^ (-place).toNat) _ hgrid
  simp only [Has, Holds, hlow, hhigh, hcommuted]
  rw [hvalue] at hleading hrounded ⊢
  generalize 2 ^ (p.exponent - 2).toNat * 10 ^ (-place).toNat = scale at *
  generalize (Interval.ofParts p).unit * 10 ^ place.toNat = grid at *
  generalize roundDiv (4 * p.mantissa * scale) grid = r at *
  -- a unit of the last place is shorter than twice what the interval reaches down, and up
  have hmost := Nat.mul_le_mul_right scale (show 4 * p.mantissa ≤ 2 ^ 55 - 4 by omega)
  have hreach : grid < 2 * (reach p * scale) ∧ (reach p * scale ≤ 4 * p.mantissa * scale) := by
    rw [reach]
    split
    · rename_i hnarrow
      rw [Bool.and_eq_true, beq_iff_eq] at hnarrow
      rw [hnarrow.1] at hleading ⊢
      omega
    · have hsome := Nat.mul_le_mul_right scale (show 4 ≤ 4 * p.mantissa by omega)
      omega
  have hdown : (4 * p.mantissa - reach p) * scale < r * grid := by
    rw [Nat.sub_mul]
    omega
  have hup : r * grid < (4 * p.mantissa + 2) * scale := by
    rw [Nat.add_mul]
    omega
  split
  · exact ⟨Nat.le_of_lt hdown, Nat.le_of_lt hup⟩
  · exact ⟨hdown, hup⟩

theorem Interval.has_search (hp : p.Canonical) (hpos : 0 < p.mantissa) (more : Nat) :
    (Interval.ofParts p).Has ((Interval.ofParts p).search (Interval.ofParts p).leadingPlace more).1
      ((Interval.ofParts p).search (Interval.ofParts p).leadingPlace more).2 := by
  induction more with
  | zero => exact has_nearest hp hpos rfl
  | succ more ih =>
    simp only [search]
    split
    · rename_i hgrid
      exact has_onGrid? hgrid
    · exact ih

/-- **The shortest decimal of a number is in the interval of the number.** -/
theorem has_decimal (hp : p.Canonical) (hpos : 0 < p.mantissa) :
    (Interval.ofParts p).Has (decimal p).1 (decimal p).2 :=
  has_trimZeros (Interval.has_search hp hpos 16)

/-! ## Reading a decimal of the interval -/

theorem Interval.bounds_of_has (h : i.Has n place) :
    i.low * 10 ^ (-place).toNat ≤ n * 10 ^ place.toNat * i.unit ∧
      n * 10 ^ place.toNat * i.unit ≤ i.high * 10 ^ (-place).toNat := by
  rw [Has, Holds] at h
  split at h
  · exact h
  · exact ⟨Nat.le_of_lt h.1, Nat.le_of_lt h.2⟩

theorem Interval.low_pos (hpos : 0 < p.mantissa) : 0 < (Interval.ofParts p).low := by
  refine Nat.mul_pos ?_ (Nat.two_pow_pos _)
  split <;> omega

theorem ne_zero_of_has (hpos : 0 < p.mantissa) (h : (Interval.ofParts p).Has n place) : n ≠ 0 := by
  rintro rfl
  have hlow := (Interval.bounds_of_has h).1
  rw [Nat.zero_mul, Nat.zero_mul] at hlow
  have hscale : 0 < 10 ^ (-place).toNat := Nat.pow_pos (by decide)
  have hsome := Nat.mul_pos (Interval.low_pos hpos) hscale
  omega

/-- No finite number is as large as this. -/
theorem two_pow_lt_ten_pow {k : Nat} (hk : 400 < k) : 2 ^ 1076 < 10 ^ k :=
  calc 2 ^ 1076
    _ < 2 ^ (3 * k) := Nat.pow_lt_pow_right (by decide) (by omega)
    _ = 8 ^ k := Nat.pow_mul 2 3 k
    _ ≤ 10 ^ k := Nat.pow_le_pow_left (by decide) _

/-- A decimal in the interval of a finite number is not out of range above. -/
theorem place_le_of_has (hp : p.Canonical) (hpos : 0 < p.mantissa)
    (h : (Interval.ofParts p).Has n place) : place ≤ 400 := by
  obtain ⟨hlt, -, -, hmost⟩ := hp
  refine Int.not_lt.1 fun hfar => Nat.lt_irrefl (2 ^ 1076) ?_
  have hhigh := (Interval.bounds_of_has h).2
  rw [show (-place).toNat = 0 by omega, Nat.pow_zero, Nat.mul_one] at hhigh
  calc 2 ^ 1076
    _ < 10 ^ place.toNat := two_pow_lt_ten_pow (by omega)
    _ ≤ n * 10 ^ place.toNat :=
      Nat.le_mul_of_pos_left _ (Nat.pos_of_ne_zero (ne_zero_of_has hpos h))
    _ ≤ n * 10 ^ place.toNat * (Interval.ofParts p).unit :=
      Nat.le_mul_of_pos_right _ (Nat.two_pow_pos _)
    _ ≤ (Interval.ofParts p).high := hhigh
    _ ≤ 2 ^ 55 * 2 ^ (p.exponent - 2).toNat := Nat.mul_le_mul_right _ (by omega)
    _ = 2 ^ (55 + (p.exponent - 2).toNat) := (Nat.pow_add _ _ _).symm
    _ ≤ 2 ^ 1076 := Nat.pow_le_pow_right (by decide) (by omega)

/-- A decimal in the interval of a finite number is not out of range below. -/
theorem le_place_of_has {width : Nat} (hp : p.Canonical) (hpos : 0 < p.mantissa)
    (h : (Interval.ofParts p).Has n place) (hwidth : n < 10 ^ width) : -400 ≤ place + width := by
  refine Int.not_lt.1 fun hfar => Nat.lt_irrefl (10 ^ (-place).toNat) ?_
  have hlow := (Interval.bounds_of_has h).1
  have hleast := hp.least
  have hmin : minExponent = -1074 := rfl
  rw [show place.toNat = 0 by omega, Nat.pow_zero, Nat.mul_one] at hlow
  calc 10 ^ (-place).toNat
    _ ≤ (Interval.ofParts p).low * 10 ^ (-place).toNat :=
      Nat.le_mul_of_pos_left _ (Interval.low_pos hpos)
    _ ≤ n * (Interval.ofParts p).unit := hlow
    _ ≤ 10 ^ width * 2 ^ 1076 :=
      Nat.mul_le_mul (Nat.le_of_lt hwidth) (Nat.pow_le_pow_right (by decide) (by omega))
    _ < 10 ^ width * 10 ^ ((-place).toNat - width) :=
      Nat.mul_lt_mul_of_pos_left (two_pow_lt_ten_pow (by omega)) (Nat.pow_pos (by decide))
    _ = 10 ^ (-place).toNat := by
      rw [← Nat.pow_add]
      congr 1
      omega

/-- **A decimal in the interval of a finite number is read as the number.** -/
theorem nearest_of_has {x : Float} {width : Nat} (hx : parts? x = some p) (hpos : 0 < p.mantissa)
    (h : (Interval.ofParts p).Has n place) (hwidth : n < 10 ^ width) :
    Decimal.nearest p.negative n width place = x := by
  have hp := canonical_of_parts? hx
  have hhigh := place_le_of_has hp hpos h
  have hlow := le_place_of_has hp hpos h hwidth
  rw [Decimal.nearest, if_neg (ne_zero_of_has hpos h), if_neg (by omega), if_neg (by omega),
    ofRatio, nearestBits_of_holds hp hpos (Nat.pow_pos (by decide)) h]
  exact ofMagnitude_bits hx

end BlockProgram.Shortest
