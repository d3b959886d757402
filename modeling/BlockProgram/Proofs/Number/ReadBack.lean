import BlockProgram.Number.Shortest
import BlockProgram.Proofs.Number.HalfUp

/-!
# Decimals that read back

A finite number is known by its parts, which are **canonical**: the mantissa has 53 bits, unless the
exponent is the smallest (`Binary.Parts.Canonical`). From canonical parts the number is put together
again (`Binary.ofMagnitude_bits`).

Around a positive number lies the interval that `Shortest.Interval` describes, and **every quotient
in this interval rounds to the number** (`Shortest.nearestBits_of_holds`). To see this, everything
is counted in units of the smallest positive number: the last place of a quotient is that of the
number, or the one below it if the number is a power of two, which then comes from a mantissa that
rounds up to one bit more.
-/

namespace BlockProgram.Binary

open Float.Model (UnpackedFloat Format)
open Float.Model.UnpackedFloat

/-! ## Parts and bits -/

namespace Parts

/-- The form that the parts of a finite number have. -/
structure Canonical (p : Parts) : Prop where
  lt : p.mantissa < 2 ^ 53
  normal : 2 ^ 52 ≤ p.mantissa ∨ p.exponent = minExponent
  least : minExponent ≤ p.exponent
  most : p.exponent ≤ 971

/-- The magnitude bits of a number with canonical parts. -/
def bits (p : Parts) : Nat := (p.exponent - minExponent).toNat * 2 ^ 52 + p.mantissa

variable {p : Parts}

theorem Canonical.bits_lt (h : p.Canonical) : p.bits < infinityBits := by
  obtain ⟨hlt, -, hleast, hmost⟩ := h
  simp only [bits, infinityBits, minExponent] at hleast ⊢
  omega

end Parts

variable {x : Float} {p : Parts}

theorem canonical_of_parts? (h : parts? x = some p) : p.Canonical := by
  obtain ⟨hlt, hleast⟩ := bounds_of_parts? h
  simp only [parts?] at h
  split at h
  · cases h
  rename_i hfinite
  split at h
  · cases h
    exact ⟨hlt, .inr rfl, hleast, by simp only [minExponent]; omega⟩
  · cases h
    exact ⟨hlt, .inl (Nat.le_add_left _ _), hleast, by dsimp only; omega⟩

/-- The bits of a finite number, from its parts. -/
theorem toNat_toBits (h : parts? x = some p) :
    x.toBits.toNat = (if p.negative then p.bits + 2 ^ 63 else p.bits) := by
  have hlt := x.toBits.toNat_lt
  simp only [parts?] at h
  split at h
  · cases h
  split at h
  · cases h
    simp only [Parts.bits, minExponent, decide_eq_true_eq]
    split <;> omega
  · cases h
    simp only [Parts.bits, minExponent, decide_eq_true_eq]
    split <;> omega

/-! ## Packing again -/

theorem toNat_packComponents (s : Sign) (exponent : BitVec 11) (mantissa : BitVec 52) :
    (packComponents .binary64 s exponent mantissa).toNat =
      s.toBitVec.toNat * 2 ^ 63 + exponent.toNat * 2 ^ 52 + mantissa.toNat := by
  show (s.toBitVec ++ exponent ++ mantissa).toNat = _
  rw [BitVec.toNat_append, ← Nat.shiftLeft_add_eq_or_of_lt mantissa.isLt, BitVec.toNat_append,
    ← Nat.shiftLeft_add_eq_or_of_lt exponent.isLt, Nat.shiftLeft_eq, Nat.shiftLeft_eq]
  omega

/-- Bits are made of the components that are read off them. -/
theorem packComponents_unpack (b : BitVec 64) :
    packComponents .binary64 (Sign.ofBitVec (@unpackSign .binary64 b))
      (@unpackExponent .binary64 b) (@unpackMantissa .binary64 b) = b := by
  have hsign (bit : BitVec 1) : (Sign.ofBitVec bit).toBitVec = bit := by
    rcases BitVec.eq_zero_or_eq_one bit with rfl | rfl <;> rfl
  have hexponent : (@unpackExponent .binary64 b).toNat = b.toNat / 2 ^ 52 % 2048 := by
    simp only [unpackExponent]
    simp [BitVec.extractLsb, Nat.shiftRight_eq_div_pow]
  refine BitVec.eq_of_toNat_eq ?_
  rw [toNat_packComponents, hsign, toNat_unpackSign, hexponent, toNat_unpackMantissa]
  have hlt := b.isLt
  omega

theorem pack_finite {s : Sign} {m : Nat} {e : Int} {hm : 0 < m} (he : e ≤ 971) :
    pack .binary64 (.finite s m e hm) = packComponents .binary64 s
      (if m.log2 + 1 = 53 then BitVec.ofNat 11 (e + 1075).toNat else 0#11) (BitVec.ofNat 52 m) := by
  have hbias :
      (e + (Format.exponentBias .binary64 : Nat) + (52 : Nat)).toNat = (e + 1075).toNat := by
    show (e + (1023 : Nat) + (52 : Nat)).toNat = _
    congr 1
    omega
  unfold pack
  dsimp only
  rw [hbias, if_neg (show ¬ 2 ^ Format.exponentBits .binary64 ≤ (e + 1075).toNat + 1 by
    show ¬ 2048 ≤ _
    omega)]
  show (if m.log2 + 1 = 53 then _ else _) = _
  split <;> rfl

/-- Bits that show no special number come back when they are unpacked and packed. -/
theorem pack_unpack {b : BitVec 64} (h : (@unpackExponent .binary64 b).toNat ≠ 2047) :
    pack .binary64 (unpack .binary64 b) = b := by
  have hones : @unpackExponent .binary64 b ≠ -1#_ := fun heq => h (by rw [heq]; rfl)
  have hfield := (@unpackExponent .binary64 b).isLt
  have hfraction := (@unpackMantissa .binary64 b).isLt
  change (@unpackExponent .binary64 b).toNat < 2048 at hfield
  change (@unpackMantissa .binary64 b).toNat < 2 ^ 52 at hfraction
  conv => rhs; rw [← packComponents_unpack b]
  unfold unpack
  dsimp only
  rw [if_neg hones]
  by_cases hsubnormal : @unpackExponent .binary64 b = 0#_
  · rw [if_pos hsubnormal]
    by_cases hzero : @unpackMantissa .binary64 b = 0#_
    · rw [dif_pos hzero, hsubnormal, hzero]
      rfl
    · have hmantissa : (@unpackMantissa .binary64 b).toNat ≠ 0 := fun hnone =>
        hzero (BitVec.eq_of_toNat_eq hnone)
      have hlog := (Nat.log2_lt hmantissa).2 hfraction
      rw [dif_neg hzero, hsubnormal, pack_finite (by decide), if_neg (by omega),
        BitVec.ofNat_toNat, BitVec.setWidth_eq]
  · have hlog : (1#1 ++ @unpackMantissa .binary64 b).toNat.log2 = 52 := by
      rw [toNat_normal, Nat.log2_eq_iff (by omega)]
      omega
    rw [if_neg hsubnormal, pack_finite (by show _ - (1075 : Int) ≤ 971; omega), hlog, if_pos rfl]
    have hexponent : BitVec.ofNat 11 (((@unpackExponent .binary64 b).toNat : Int) -
        (1075 : Int) + 1075).toNat = @unpackExponent .binary64 b := by
      refine BitVec.eq_of_toNat_eq ?_
      rw [BitVec.toNat_ofNat, Int.sub_add_cancel, Int.toNat_natCast, Nat.mod_eq_of_lt hfield]
    have hmantissa : BitVec.ofNat 52 (1#1 ++ @unpackMantissa .binary64 b).toNat =
        @unpackMantissa .binary64 b := by
      refine BitVec.eq_of_toNat_eq ?_
      rw [BitVec.toNat_ofNat, toNat_normal, Nat.add_mod_right, Nat.mod_eq_of_lt hfraction]
    rw [hmantissa]
    exact congrArg (packComponents .binary64 _ · _) hexponent

/-- A finite number is put together again from its bits. -/
theorem ofBits_toBits (h : (parts? x).isSome) : Float.ofBits x.toBits = x := by
  have hfield : (@unpackExponent .binary64 x.toBits.toBitVec).toNat ≠ 2047 := by
    rw [toNat_unpackExponent]
    exact isFinite_iff.1 h
  obtain ⟨⟨bits, hvalid⟩⟩ := x
  show Float.ofModel ⟨UInt64.ofBitVec (pack .binary64 (unpack .binary64 bits.toBitVec)), _⟩ = _
  congr 2
  exact congrArg UInt64.ofBitVec (pack_unpack hfield)

/-- **A finite number is put together again from its parts.** -/
theorem ofMagnitude_bits (h : parts? x = some p) : ofMagnitude p.negative p.bits = x := by
  rw [ofMagnitude, ← toNat_toBits h, UInt64.ofNat_toNat]
  exact ofBits_toBits (h ▸ rfl)

/-! ## Rounding a quotient -/

variable {num den : Nat}

/-- The quotient may be reduced. -/
theorem roundDiv_mul_right (num den : Nat) {c : Nat} (hc : 0 < c) :
    roundDiv (num * c) (den * c) = roundDiv num den := by
  have htwice : 2 * (num % den * c) = 2 * (num % den) * c := (Nat.mul_assoc _ _ _).symm
  simp only [roundDiv, Nat.mul_div_mul_right _ _ hc, Nat.mul_mod_mul_right, htwice,
    Nat.mul_lt_mul_right hc]

/-- Rounding moves a quotient by a half at most. -/
theorem roundDiv_bounds (hden : 0 < den) :
    2 * (roundDiv num den * den) ≤ 2 * num + den ∧
      2 * num ≤ 2 * (roundDiv num den * den) + den := by
  have hdecomposed := Nat.div_add_mod num den
  have hrest := Nat.mod_lt num hden
  rw [Nat.mul_comm den] at hdecomposed
  have hnext : (num / den + 1) * den = num / den * den + den := Nat.succ_mul _ _
  simp only [roundDiv]
  split
  · omega
  · split
    · omega
    · rcases Nat.mod_two_eq_zero_or_one (num / den) with heven | hodd
      · rw [heven, Nat.add_zero]
        omega
      · rw [hodd]
        omega

/-- A quotient rounds to a number that is not more than a half away, and is even if it is just a
half. -/
theorem roundDiv_eq {r : Nat} (hden : 0 < den) (hlow : 2 * r * den ≤ 2 * num + den)
    (hhigh : 2 * num ≤ (2 * r + 1) * den)
    (htie : r % 2 = 0 ∨ 2 * r * den < 2 * num + den ∧ 2 * num < (2 * r + 1) * den) :
    roundDiv num den = r := by
  have hdecomposed := Nat.div_add_mod num den
  rw [Nat.mul_comm den] at hdecomposed
  simp only [Nat.add_mul, Nat.one_mul, Nat.mul_assoc] at hlow hhigh htie
  have hle : num / den ≤ r := by
    refine Nat.le_of_lt_succ ((Nat.div_lt_iff_lt_mul hden).2 ?_)
    rw [Nat.succ_mul r]
    omega
  have hge : r ≤ num / den + 1 := by
    rcases r with _ | r
    · exact Nat.zero_le _
    · refine Nat.succ_le_succ ((Nat.le_div_iff_mul_le hden).2 ?_)
      rw [Nat.succ_mul r] at hlow
      omega
  simp only [roundDiv]
  rcases Nat.lt_or_eq_of_le hle with hbelow | hsame
  · -- one below, the rest is a half at least
    have hnext : r = num / den + 1 := by omega
    rw [hnext, Nat.add_mul, Nat.one_mul] at hlow htie
    rw [if_neg (by omega)]
    split <;> omega
  · rw [hsame] at hdecomposed ⊢
    split
    · rfl
    · rw [if_neg (by omega)]
      omega

/-- The last place of a quotient, counted from that of the smallest number up: the mantissa there
has 53 bits at most and, unless it is the smallest place, at least. -/
theorem exists_place (hnum : num ≠ 0) (hden : 0 < den) :
    ∃ place : Nat, num * 2 ^ 1074 < den * 2 ^ place * 2 ^ 53 ∧
      (place = 0 ∨ den * 2 ^ place * 2 ^ 52 ≤ num * 2 ^ 1074) ∧
      nearestBits num den =
        min infinityBits (place * 2 ^ 52 + roundDiv (num * 2 ^ 1074) (den * 2 ^ place)) := by
  have hleast : minExponent ≤ lastPlace num den := Int.le_max_left _ _
  have hlt := @mantissa_lt num den hden
  have hle := @le_mantissa num den hnum
  unfold nearestBits
  rw [if_neg hnum]
  dsimp only
  generalize lastPlace num den = q at hleast hlt hle
  have hmin : minExponent = -1074 := rfl
  -- both sides are moved to the smallest place
  have hscale : 0 < 2 ^ (1074 - (-q).toNat) := Nat.two_pow_pos _
  have hnumscale : num * 2 ^ (-q).toNat * 2 ^ (1074 - (-q).toNat) = num * 2 ^ 1074 := by
    rw [Nat.mul_assoc, ← Nat.pow_add]
    congr 2
    omega
  have hdenscale : den * 2 ^ q.toNat * 2 ^ (1074 - (-q).toNat) =
      den * 2 ^ (q - minExponent).toNat := by
    rw [Nat.mul_assoc, ← Nat.pow_add]
    congr 2
    omega
  refine ⟨(q - minExponent).toNat, ?_, ?_, ?_⟩
  · rw [← hnumscale, ← hdenscale, Nat.mul_right_comm (den * 2 ^ q.toNat)]
    exact Nat.mul_lt_mul_of_pos_right hlt hscale
  · rcases Int.lt_or_eq_of_le hleast with hbigger | hsmallest
    · right
      rw [← hnumscale, ← hdenscale, Nat.mul_right_comm (den * 2 ^ q.toNat)]
      exact Nat.mul_le_mul_right _ (hle hbigger)
    · left
      omega
  · rw [← hnumscale, ← hdenscale, roundDiv_mul_right _ _ hscale]

end BlockProgram.Binary

/-! ## The interval of a number -/

namespace BlockProgram.Shortest

open Binary

/-- A quotient that lies in an interval. -/
def Interval.Holds (i : Interval) (num den : Nat) : Prop :=
  if i.closed then i.low * den ≤ num * i.unit ∧ num * i.unit ≤ i.high * den
  else i.low * den < num * i.unit ∧ num * i.unit < i.high * den

theorem Interval.contains_iff {i : Interval} {n : Nat} {place : Int} :
    i.contains n place = true ↔ i.Holds (n * 10 ^ place.toNat) (10 ^ (-place).toNat) := by
  simp only [contains, Holds]
  split <;> simp

/-- How far an interval reaches down, in quarters of the last place. -/
def reach (p : Parts) : Nat := if p.mantissa == 2 ^ 52 && p.exponent != minExponent then 1 else 2

variable {p : Parts} {num den : Nat}

theorem mul_pow_add_two (a k : Nat) : a * 2 ^ (k + 2) = 4 * (a * 2 ^ k) := by
  rw [Nat.pow_add, ← Nat.mul_assoc]
  exact Nat.mul_comm _ 4

/-- A value that rounds to a mantissa, when both are counted in the same unit, of which `weight`
make up one of the last place: it is not further from the mantissa than the interval reaches, and
an end belongs to an even mantissa. -/
structure Around (p : Parts) (value weight : Nat) : Prop where
  low : (4 * p.mantissa - reach p) * weight ≤ 4 * value
  high : 4 * value ≤ (4 * p.mantissa + 2) * weight
  tie : p.mantissa % 2 = 0 ∨
    (4 * p.mantissa - reach p) * weight < 4 * value ∧ 4 * value < (4 * p.mantissa + 2) * weight

/-- The interval of a number, counted in units of the smallest place. -/
theorem Interval.around_of_holds (hp : p.Canonical) (h : (Interval.ofParts p).Holds num den) :
    Around p (num * 2 ^ 1074) (den * 2 ^ (p.exponent - minExponent).toNat) := by
  have hleast := hp.least
  have hmin : minExponent = -1074 := rfl
  -- both sides are moved to a quarter of the smallest place
  have hscale : 0 < 2 ^ (1076 - (2 - p.exponent).toNat) := Nat.two_pow_pos _
  have hend (a : Nat) : a * 2 ^ (p.exponent - 2).toNat * den *
      2 ^ (1076 - (2 - p.exponent).toNat) =
        a * (den * 2 ^ (p.exponent - minExponent).toNat) := by
    rw [Nat.mul_right_comm a, Nat.mul_assoc (a * den), ← Nat.pow_add, Nat.mul_assoc]
    congr 3
    omega
  have hvalue : num * 2 ^ (2 - p.exponent).toNat * 2 ^ (1076 - (2 - p.exponent).toNat) =
      4 * (num * 2 ^ 1074) := by
    have hplaces : (2 - p.exponent).toNat + (1076 - (2 - p.exponent).toNat) = 1074 + 2 := by omega
    rw [Nat.mul_assoc, ← Nat.pow_add, hplaces]
    exact mul_pow_add_two num 1074
  have hlow : (Interval.ofParts p).low =
      (4 * p.mantissa - reach p) * 2 ^ (p.exponent - 2).toNat := rfl
  have hhigh : (Interval.ofParts p).high = (4 * p.mantissa + 2) * 2 ^ (p.exponent - 2).toNat := rfl
  have hunit : (Interval.ofParts p).unit = 2 ^ (2 - p.exponent).toNat := rfl
  have hclosed : (Interval.ofParts p).closed = (p.mantissa % 2 == 0) := rfl
  rw [Holds, hlow, hhigh, hunit, hclosed] at h
  split at h
  · rename_i heven
    obtain ⟨hfirst, hsecond⟩ := h
    have hfirst := Nat.mul_le_mul_right (2 ^ (1076 - (2 - p.exponent).toNat)) hfirst
    have hsecond := Nat.mul_le_mul_right (2 ^ (1076 - (2 - p.exponent).toNat)) hsecond
    rw [hend, hvalue] at hfirst
    rw [hend, hvalue] at hsecond
    exact ⟨hfirst, hsecond, .inl (beq_iff_eq.1 heven)⟩
  · obtain ⟨hfirst, hsecond⟩ := h
    have hfirst := Nat.mul_lt_mul_of_pos_right hfirst hscale
    have hsecond := Nat.mul_lt_mul_of_pos_right hsecond hscale
    rw [hend, hvalue] at hfirst
    rw [hend, hvalue] at hsecond
    exact ⟨Nat.le_of_lt hfirst, Nat.le_of_lt hsecond, .inr ⟨hfirst, hsecond⟩⟩

namespace Around

variable {value weight unit : Nat}

theorem reach_bounds : 1 ≤ reach p ∧ reach p ≤ 2 := by
  rw [reach]
  split <;> decide

theorem value_pos (h : Around p value weight) (hpos : 0 < p.mantissa) (hweight : 0 < weight) :
    0 < value := by
  have hreach := @reach_bounds p
  have hlow := h.low
  have hsome := Nat.mul_pos (show 0 < 4 * p.mantissa - reach p by omega) hweight
  omega

/-- At the last place of the number the value rounds to the mantissa. -/
theorem roundDiv_eq (h : Around p value weight) (hweight : 0 < weight) :
    roundDiv value weight = p.mantissa := by
  obtain ⟨hlow, hhigh, htie⟩ := h
  have hreached := Nat.mul_le_mul_right weight
    (show 4 * p.mantissa - 2 ≤ 4 * p.mantissa - reach p by have := @reach_bounds p; omega)
  simp only [Nat.sub_mul, Nat.add_mul, Nat.mul_assoc 4] at hlow hhigh htie hreached
  refine Binary.roundDiv_eq hweight ?_ ?_ ?_
  all_goals simp only [Nat.add_mul, Nat.one_mul, Nat.mul_assoc 2]
  · omega
  · omega
  · exact htie.imp_right fun _ => by omega

/-- At a higher place the value has too few bits. -/
theorem lt_of_higher (h : Around p value weight) (hlt : p.mantissa < 2 ^ 53) (hweight : 0 < weight)
    (htwice : weight * 2 ≤ unit) : value < unit * 2 ^ 52 := by
  have hhigh := h.high
  have hmost := Nat.mul_le_mul_right weight (show 4 * p.mantissa + 2 ≤ 2 ^ 55 - 2 by omega)
  omega

/-- At a lower place only a power of two has few enough bits: it comes from the place just below,
where the value rounds up to one bit more. -/
theorem roundDiv_lower {below : Nat} (h : Around p value weight) (hnormal : 2 ^ 52 ≤ p.mantissa)
    (hexponent : p.exponent ≠ minExponent) (hunit : 0 < unit) (hbelow : 0 < below)
    (hweight : weight = unit * 2 ^ below) (hfew : value < unit * 2 ^ 53) :
    p.mantissa = 2 ^ 52 ∧ below = 1 ∧ roundDiv value unit = 2 ^ 53 := by
  obtain ⟨hlow, hhigh, -⟩ := h
  have hreach := @reach_bounds p
  have hhalf : unit * 2 ≤ weight := by
    rw [hweight]
    exact Nat.mul_le_mul_left _ (Nat.pow_le_pow_right (show 0 < 2 by decide) hbelow)
  have hpower : p.mantissa = 2 ^ 52 := by
    refine Nat.le_antisymm (Nat.le_of_not_lt fun hmore => ?_) hnormal
    have hmore := Nat.mul_le_mul_right weight
      (show 2 ^ 54 + 2 ≤ 4 * p.mantissa - reach p by omega)
    omega
  have hnarrow : reach p = 1 := by
    rw [reach, hpower, if_pos]
    simp only [BEq.rfl, Bool.true_and, bne_iff_ne, ne_eq]
    exact hexponent
  rw [hnarrow, hpower] at hlow
  have hnext : below = 1 := by
    refine Nat.le_antisymm (Nat.le_of_not_lt fun hfar => ?_) hbelow
    have hquarter : unit * 2 ^ 2 ≤ weight := by
      rw [hweight]
      exact Nat.mul_le_mul_left _ (Nat.pow_le_pow_right (by decide) hfar)
    omega
  refine ⟨hpower, hnext, ?_⟩
  rw [hweight, hnext] at hlow
  exact Binary.roundDiv_eq hunit (by omega) (by omega) (.inl (by decide))

end Around

/-- **A quotient in the interval of a number rounds to the number.** -/
theorem nearestBits_of_holds (hp : p.Canonical) (hpos : 0 < p.mantissa) (hden : 0 < den)
    (h : (Interval.ofParts p).Holds num den) : nearestBits num den = p.bits := by
  have haround := Interval.around_of_holds hp h
  have hbits := hp.bits_lt
  obtain ⟨hlt, hnormal, hleast, -⟩ := hp
  have hbitsOf : p.bits = (p.exponent - minExponent).toNat * 2 ^ 52 + p.mantissa := rfl
  have hleastPlace : (p.exponent - minExponent).toNat = 0 ↔ p.exponent = minExponent := by omega
  generalize (p.exponent - minExponent).toNat = last at *
  have hweight : 0 < den * 2 ^ last := Nat.mul_pos hden (Nat.two_pow_pos _)
  have hnum : num ≠ 0 := by
    rintro rfl
    have hvalue := haround.value_pos hpos hweight
    omega
  obtain ⟨place, hfew, hmany, hnearest⟩ := exists_place hnum hden
  rw [hnearest]
  suffices hrounded : place * 2 ^ 52 + roundDiv (num * 2 ^ 1074) (den * 2 ^ place) = p.bits by
    rw [hrounded]
    exact Nat.min_eq_right (Nat.le_of_lt hbits)
  rcases Nat.lt_trichotomy place last with hlower | rfl | hhigher
  · have hunit : 0 < den * 2 ^ place := Nat.mul_pos hden (Nat.two_pow_pos _)
    have hsplit : den * 2 ^ last = den * 2 ^ place * 2 ^ (last - place) := by
      rw [Nat.mul_assoc, ← Nat.pow_add, Nat.add_sub_cancel' (Nat.le_of_lt hlower)]
    have hnotLeast : p.exponent ≠ minExponent := by omega
    obtain ⟨hpower, hnext, hrounded⟩ := haround.roundDiv_lower
      (hnormal.resolve_right hnotLeast) hnotLeast hunit (by omega) hsplit hfew
    rw [hrounded, hbitsOf, hpower]
    omega
  · rw [haround.roundDiv_eq hweight, hbitsOf]
  · have htwice : den * 2 ^ last * 2 ≤ den * 2 ^ place := by
      rw [Nat.mul_assoc, ← Nat.pow_succ]
      exact Nat.mul_le_mul_left _ (Nat.pow_le_pow_right (by decide) hhigher)
    exact absurd (haround.lt_of_higher hlt hweight htwice)
      (Nat.not_lt.2 (hmany.resolve_left (by omega)))

end BlockProgram.Shortest
