import BlockProgram.Number.Decimal
import Mathlib.Data.List.Induction
import Mathlib.Data.Nat.Digits.Defs

/-!
# Decimal digits

A list of digits of any script is read in base ten (`Text.readDigits_eq_spelled`). The text of a
whole number is a minus, if it is negative, and ASCII digits (`Text.toList_repr`), which are read as
its magnitude (`Text.readDigits_toDigits`).
-/

namespace BlockProgram.Text

open Decimal (isAsciiDigit)

variable {c : Char} {ds : List Char} {n : Nat}

/-! ## Digits of any script -/

/-- The value of a digit; other characters count as zero. -/
def digitValue (c : Char) : Nat := (digitValue? c).getD 0

/-- The number that digits spell in base ten, the last one being the unit. -/
def spelled (ds : List Char) : Nat := Nat.ofDigits 10 (ds.reverse.map digitValue)

/-- **Digits are read in base ten.** -/
theorem readDigits_eq_spelled (ds : List Char) : readDigits ds = spelled ds := by
  induction ds using List.reverseRecOn with
  | nil => rfl
  | append_singleton ds c ih =>
    rw [spelled, List.reverse_append, List.reverse_singleton, List.singleton_append, List.map_cons,
      Nat.ofDigits_cons, ← spelled, ← ih, readDigits, readDigits, List.foldl_append, Nat.add_comm]
    rfl

/-! ## ASCII digits -/

/-- A digit of any script has a value below ten, and no other character has a value at all. -/
theorem digitValue_lt (c : Char) : digitValue c < 10 := by
  rw [digitValue, digitValue?]
  rcases hfound : digitZeros.find? _ with _ | first
  · simp
  · have hrange := List.find?_some hfound
    simp only [Bool.and_eq_true, decide_eq_true_eq] at hrange
    rw [Option.map_some, Option.getD_some]
    omega

theorem readDigits_lt (ds : List Char) : readDigits ds < 10 ^ ds.length := by
  have hlt : Nat.ofDigits 10 (ds.reverse.map digitValue) <
      10 ^ (ds.reverse.map digitValue).length := by
    refine Nat.ofDigits_lt_base_pow_length (by decide) fun d hd => ?_
    obtain ⟨c, -, rfl⟩ := List.mem_map.1 hd
    exact digitValue_lt c
  rwa [List.length_map, List.length_reverse, ← spelled, ← readDigits_eq_spelled] at hlt

theorem isAsciiDigit_iff : isAsciiDigit c = true ↔ 48 ≤ c.toNat ∧ c.toNat ≤ 57 := by
  simp only [isAsciiDigit, Bool.and_eq_true, decide_eq_true_eq, Char.le_def, UInt32.le_iff_toNat_le]
  rfl

theorem digitValue?_of_isAsciiDigit (h : isAsciiDigit c = true) :
    digitValue? c = some (c.toNat - 48) := by
  obtain ⟨hlow, hhigh⟩ := isAsciiDigit_iff.1 h
  simp only [digitValue?, digitZeros, List.find?_cons]
  rw [decide_eq_true hlow, decide_eq_true (show c.toNat < 48 + 10 by omega)]
  rfl

theorem isDigit_of_isAsciiDigit (h : isAsciiDigit c = true) : isDigit c = true := by
  rw [isDigit, digitValue?_of_isAsciiDigit h]
  rfl

/-- ASCII digits are read as the characters of a number in base ten. -/
theorem readDigits_eq (h : ∀ c ∈ ds, isAsciiDigit c = true) :
    readDigits ds = Nat.ofDigitChars 10 ds 0 := by
  suffices hfold : ∀ start, ds.foldl (fun n c => 10 * n + (digitValue? c).getD 0) start =
      Nat.ofDigitChars 10 ds start from hfold 0
  induction ds with
  | nil => exact fun _ => rfl
  | cons c ds ih =>
    intro start
    have hdigit := digitValue?_of_isAsciiDigit (h c (by simp))
    rw [Nat.ofDigitChars_cons, List.foldl_cons, hdigit]
    exact ih (fun c hc => h c (List.mem_cons_of_mem _ hc)) _

theorem isAsciiDigit_of_mem_replicate {k : Nat} (h : c ∈ List.replicate k '0') :
    isAsciiDigit c = true := by
  rw [List.eq_of_mem_replicate h]
  rfl

theorem readDigits_append_replicate (h : ∀ c ∈ ds, isAsciiDigit c = true) (k : Nat) :
    readDigits (ds ++ List.replicate k '0') = readDigits ds * 10 ^ k := by
  rw [readDigits_eq (List.forall_mem_append.2 ⟨h, fun _ => isAsciiDigit_of_mem_replicate⟩),
    Nat.ofDigitChars_append, Nat.ofDigitChars_replicate_zero, readDigits_eq h, Nat.mul_comm]

theorem readDigits_replicate_append (h : ∀ c ∈ ds, isAsciiDigit c = true) (k : Nat) :
    readDigits (List.replicate k '0' ++ ds) = readDigits ds := by
  rw [readDigits_eq (List.forall_mem_append.2 ⟨fun _ => isAsciiDigit_of_mem_replicate, h⟩),
    Nat.ofDigitChars_append, Nat.ofDigitChars_replicate_zero, readDigits_eq h, Nat.mul_zero]

theorem isAsciiDigit_of_mem_toDigits (h : c ∈ Nat.toDigits 10 n) : isAsciiDigit c = true := by
  have hdigit := Nat.isDigit_of_mem_toDigits (by decide) (by decide) h
  simp only [Char.isDigit, Bool.and_eq_true, decide_eq_true_eq, ge_iff_le,
    UInt32.le_iff_toNat_le] at hdigit
  exact isAsciiDigit_iff.2 hdigit

theorem readDigits_toDigits : readDigits (Nat.toDigits 10 n) = n := by
  rw [readDigits_eq fun _ => isAsciiDigit_of_mem_toDigits, Nat.ofDigitChars_ten_toDigits]

theorem spelled_toDigits (n : Nat) : spelled (Nat.toDigits 10 n) = n := by
  rw [← readDigits_eq_spelled, readDigits_toDigits]

/-- What digits spell has no more digits than they are. -/
theorem length_toDigits_readDigits (hne : ds ≠ []) :
    (Nat.toDigits 10 (readDigits ds)).length ≤ ds.length :=
  (Nat.length_toDigits_le_iff (by decide) (List.length_pos_iff.2 hne)).2 (readDigits_lt ds)

/-- Only zero is written with a zero in front. -/
theorem toDigits_head_ne (h : 0 < n) : (Nat.toDigits 10 n).head? ≠ some '0' := by
  induction n using Nat.strongRecOn with
  | ind n ih =>
    rcases Nat.lt_or_ge n 10 with hsmall | hlarge
    · have hnotZero : ∀ n < 10, 0 < n → n.digitChar ≠ '0' := by decide
      rw [Nat.toDigits_of_lt_base hsmall, List.head?_cons, ne_eq, Option.some.injEq]
      exact hnotZero n hsmall h
    · have hfirst := ih (n / 10) (by omega) (by omega)
      rw [Nat.toDigits_of_base_le (by decide) hlarge]
      rwa [List.head?_append, Option.or_of_isSome (by simp [List.isSome_head?])]

/-- Digits have no sign in front of them. -/
theorem takeSign_append {rest : List Char} (hds : ∀ c ∈ ds, isAsciiDigit c = true) (hne : ds ≠ []) :
    Decimal.takeSign (ds ++ rest) = (false, ds ++ rest) := by
  obtain ⟨d, ds, rfl⟩ := List.exists_cons_of_ne_nil hne
  have hdigit := hds d (by simp)
  rw [List.cons_append]
  unfold Decimal.takeSign
  split
  · rename_i hminus
    rw [(List.cons.inj hminus).1] at hdigit
    cases hdigit
  · rename_i hplus
    rw [(List.cons.inj hplus).1] at hdigit
    cases hdigit
  · rfl

/-! ## The text of a whole number -/

/-- The minus of a negative number. -/
def minus (negative : Bool) : List Char := if negative then ['-'] else []

/-- A magnitude with its sign. -/
def signed (negative : Bool) (n : Nat) : Int := if negative then -(n : Int) else n

theorem natAbs_signed (negative : Bool) (n : Nat) : (signed negative n).natAbs = n := by
  cases negative
  · exact Int.natAbs_natCast n
  · exact (Int.natAbs_neg _).trans (Int.natAbs_natCast n)

theorem signed_natAbs (n : Int) : signed (decide (n < 0)) n.natAbs = n := by
  simp only [signed, decide_eq_true_eq]
  split <;> omega

theorem toList_repr (n : Int) :
    (Int.repr n).toList = minus (decide (n < 0)) ++ Nat.toDigits 10 n.natAbs := by
  rw [Int.repr_eq_if]
  split
  · rename_i hpos
    rw [decide_eq_false (Int.not_lt.2 hpos), Nat.toList_repr, show n.toNat = n.natAbs by omega]
    rfl
  · rename_i hneg
    rw [decide_eq_true (Int.not_le.1 hneg), String.toList_append, Nat.toList_repr,
      show (-n).toNat = n.natAbs by omega]
    rfl

/-- A property of the minus and of all digits holds for every character of a whole number. -/
theorem forall_mem_repr {p : Char → Prop} (hminus : p '-') (hdigit : ∀ d < 10, p (Char.ofNat (48 + d)))
    (n : Int) : ∀ c ∈ (Int.repr n).toList, p c := by
  intro c hc
  rw [toList_repr] at hc
  rcases List.mem_append.1 hc with hc | hc
  · rw [minus] at hc
    split at hc
    · rw [List.mem_singleton.1 hc]
      exact hminus
    · cases hc
  · obtain ⟨hlow, hhigh⟩ := isAsciiDigit_iff.1 (isAsciiDigit_of_mem_toDigits hc)
    have hp := hdigit (c.toNat - 48) (by omega)
    rwa [show 48 + (c.toNat - 48) = c.toNat by omega, Char.ofNat_toNat] at hp

end BlockProgram.Text
