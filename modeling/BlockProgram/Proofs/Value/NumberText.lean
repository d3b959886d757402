import BlockProgram.Proofs.Number.Whole
import BlockProgram.Proofs.Value.Literal
import BlockProgram.Reporter

/-!
# Whole numbers and their texts

A whole number within range and its text are two values that may stand for the same number. Typed in
as a literal the text is read digit by digit; as an operand it is read as a real, and so it stands for
the **nearest float** (`Value.numeric?_textOf`). The two therefore agree as far as floats do:

* the text reads as the number, and is loosely equal to it, exactly if the number is held by a float;
* a sum with the text is exact for every other operand, and no arithmetic operator or comparison can
  tell the text from the number, exactly up to a magnitude of `2 ^ 53`. Beyond, the number or one of
  its two neighbours is not held by any float.
-/

namespace BlockProgram

open Text

/-! ## The text of a whole number as a real -/

namespace Decimal

variable {cs ds : List Char} {negative : Bool} {n : Int}

theorem joinDigitGroups?_eq (h : '_' ∉ cs) : joinDigitGroups? cs = some cs := by
  induction cs with
  | nil => rfl
  | cons c cs ih =>
    have hrest := ih fun hmem => h (List.mem_cons_of_mem _ hmem)
    unfold joinDigitGroups?
    split
    · contradiction
    · rename_i heq
      exact absurd (heq ▸ List.mem_cons_self) h
    · rename_i heq
      exact absurd (heq ▸ List.mem_cons_of_mem _ List.mem_cons_self) h
    · rename_i heq
      cases heq
      rw [hrest]
      rfl

/-- A text without blanks, underscores and digits of other scripts is taken as it is. -/
theorem typedDigits?_repr (n : Int) : typedDigits? (Int.repr n) = some (Int.repr n).toList := by
  have hplain := forall_mem_repr
    (p := fun c => isNumberBlank c = false ∧ toAsciiDigit c = c ∧ c ≠ '_') (by decide +kernel)
    (by decide +kernel) n
  have htrim : trimBy isNumberBlank (Int.repr n).toList = (Int.repr n).toList :=
    trimBy_eq_self_of_forall fun c hc => (hplain c hc).1
  have hscript : (Int.repr n).toList.map toAsciiDigit = (Int.repr n).toList :=
    (List.map_congr_left fun c hc => (hplain c hc).2.1).trans (List.map_id _)
  rw [typedDigits?, htrim, hscript, joinDigitGroups?_eq fun hmem => (hplain _ hmem).2.2 rfl]

/-- Digits are not one of the special names. -/
theorem named?_eq_none (hds : ∀ c ∈ ds, isAsciiDigit c = true) (hne : ds ≠ []) :
    named? negative ds = none := by
  obtain ⟨d, ds, rfl⟩ := List.exists_cons_of_ne_nil hne
  have hdigit := hds d List.mem_cons_self
  obtain ⟨hlow, hhigh⟩ := isAsciiDigit_iff.1 hdigit
  have hlower : d.toLower = d := by
    refine dif_neg fun hupper => ?_
    have hletter : 65 ≤ d.toNat := hupper.1
    omega
  have hother {word : String} (hword : word.toList.head?.any isAsciiDigit = false) :
      (String.ofList ((d :: ds).map Char.toLower) == word) = false := by
    rw [beq_eq_false_iff_ne]
    rintro rfl
    rw [String.toList_ofList, List.map_cons, hlower, List.head?_cons, Option.any_some,
      hdigit] at hword
    cases hword
  rw [named?, hother (by decide), hother (by decide), hother (by decide)]
  rfl

/-- Digits alone read as the float nearest to the number that they spell. -/
theorem unsigned?_digits (hds : ∀ c ∈ ds, isAsciiDigit c = true) (hne : ds ≠ []) :
    unsigned? negative ds = some (nearest negative (readDigits ds) ds.length 0) := by
  have htake : ds.takeWhile isAsciiDigit = ds := List.takeWhile_eq_self_iff.2 hds
  have hdrop : ds.dropWhile isAsciiDigit = [] := List.dropWhile_eq_nil_iff.2 hds
  have hsome : ds.isEmpty = false := List.isEmpty_eq_false_iff.2 hne
  simp [unsigned?, significand?, htake, hdrop, hsome, exponent?]

/-- So they do behind a minus. -/
theorem real?_digits (hds : ∀ c ∈ ds, isAsciiDigit c = true) (hne : ds ≠ []) :
    real? (minus negative ++ ds) = some (nearest negative (readDigits ds) ds.length 0) := by
  have hsign : takeSign (minus negative ++ ds) = (negative, ds) := by
    cases negative with
    | true => rfl
    | false =>
      have hunsigned : takeSign (ds ++ []) = (false, ds ++ []) := takeSign_append hds hne
      rwa [List.append_nil] at hunsigned
  simp only [real?, hsign, named?_eq_none hds hne, unsigned?_digits hds hne]

theorem nearest_zero_exponent (negative : Bool) (m width : Nat) :
    nearest negative m width 0 = Binary.ofMagnitude negative (Binary.nearestBits m 1) := by
  rw [nearest]
  split
  · rename_i hzero
    rw [hzero]
    rfl
  · rw [if_neg (by decide), if_neg (by omega), Binary.ofRatio]
    simp

/-- **The text of a whole number is read as the float nearest to it.** -/
theorem typed?_repr (n : Int) : typed? (Int.repr n) =
    some (Binary.ofMagnitude (decide (n < 0)) (Binary.nearestBits n.natAbs 1)) := by
  rw [typed?, typedDigits?_repr, Option.bind_some, toList_repr,
    real?_digits (fun _ => isAsciiDigit_of_mem_toDigits) Nat.toDigits_ne_nil, readDigits_toDigits,
    nearest_zero_exponent]

end Decimal

/-! ## What the text reads as -/

namespace Number

variable {x : Float} {n k : Int}

/-- Two whole numbers are the same number only if they are equal. -/
theorem same_int_int : (Number.int k).same (.int n) = true ↔ k = n := by
  rw [same, compare?, beq_iff_eq, Option.some_inj, compare_eq_iff_eq]

/-- A number and a whole number are the same in either order. -/
theorem same_int_comm (a : Number) (n : Int) : (Number.int n).same a = a.same (.int n) := by
  cases a with
  | int k =>
    rw [Bool.eq_iff_iff, same_int_int, same_int_int, eq_comm]
  | float x =>
    simp only [same, compare?]
    rcases Binary.compareInt? x n with _ | order
    · rfl
    · cases order <;> rfl

/-- Normalizing a float does not change which whole number it equals. -/
theorem same_normalize : (Number.float x).normalize.same (.int n) = true ↔
    Binary.whole? x = some n := by
  rw [normalize]
  split
  · rename_i k hk
    split
    · rw [same_int_int, hk, Option.some_inj]
    · rw [same_float_int]
  · rw [same_float_int]

/-- A float of a small whole value is normalized to that whole number. -/
theorem normalize_of_whole? (h : Binary.whole? x = some n) (hn : n.natAbs ≤ exactLimit) :
    (Number.float x).normalize = .int n := by
  simp only [normalize, h]
  rw [if_pos hn]

/-- A normalized float is a whole number up to the limit, or a float still. -/
theorem normalize_cases (x : Float) : (∃ k : Int, (Number.float x).normalize = .int k ∧
    k.natAbs ≤ exactLimit) ∨ (Number.float x).normalize = .float x := by
  rw [normalize]
  split
  · split
    · rename_i k _ hk
      exact .inl ⟨k, rfl, hk⟩
    · exact .inr rfl
  · exact .inr rfl

end Number

namespace Value

open Number (exactLimit floatMax)

variable {x : Float} {n m k : Int} {v : Value}

theorem repr_isEmpty (n : Int) : (Int.repr n).isEmpty = false := by
  rw [Bool.eq_false_iff, ne_eq, String.isEmpty_iff, ← String.toList_eq_nil_iff, toList_repr]
  exact List.append_ne_nil_of_right_ne_nil _ Nat.toDigits_ne_nil

/-- **The text of a whole number reads as the float nearest to it.** -/
theorem numericText?_repr (hx : (Number.int n).toFloat? = some x) :
    numericText? (Int.repr n) = some (Number.float x).normalize := by
  obtain ⟨hfinite, hbits⟩ := Binary.of_ofInt? hx
  have htrim : trim (Int.repr n) = Int.repr n := by
    rw [← String.toList_inj, toList_trim, trimBy_eq_self_of_forall (isBlank_repr n)]
  have hjoined : (Int.repr n).toList.contains '_' = false := by
    rw [Bool.eq_false_iff, ne_eq, List.contains_iff_mem]
    exact fun hmem => forall_mem_repr (p := (· ≠ '_')) (by decide) (by decide) n _ hmem rfl
  simp only [numericText?, htrim, repr_isEmpty, hjoined, Decimal.typed?_repr, ← hbits, hfinite,
    Bool.false_eq_true, if_false, if_true]

/-- The text of a whole number as a value. -/
def textOf (n : Int) : Value := .str (Int.repr n)

/-- **The text of a whole number reads as the float nearest to it**, normalized, since texts are
read as floats. -/
theorem numeric?_textOf (hx : (Number.int n).toFloat? = some x) :
    (textOf n).numeric? = some (Number.float x).normalize := by
  rw [textOf, numeric?, numericText?_repr hx]

theorem comparable?_textOf (hx : (Number.int n).toFloat? = some x) :
    (textOf n).comparable? = some (Number.float x).normalize := by
  rw [textOf, comparable?, repr_isEmpty, if_neg (by decide), numericText?_repr hx]

/-- A whole number within range is its own number. -/
theorem numeric?_int (hn : (Number.int n).inRange = true) :
    (Value.int n).numeric? = some (.int n) := if_pos hn

/-- As a literal its text is read exactly. -/
theorem readLiteral_of_inRange (hn : (Number.int n).inRange = true) :
    readLiteral (Int.repr n) = .int n := by
  have hread : readLiteral ("" ++ Int.repr n ++ "") = .int n :=
    readLiteral_repr (writable_int_iff.1 (writable_of_inRange hn)) (by simp) (by simp)
  rwa [String.empty_append, String.append_empty] at hread

/-! ## Comparing -/

/-- **So the text reads back as the number exactly if a float holds it.** -/
theorem same_toNumber_textOf (hx : (Number.int n).toFloat? = some x) :
    (textOf n).toNumber.same (.int n) = true ↔ Number.Held n := by
  rw [toNumber, numeric?_textOf hx, Option.getD_some, Number.same_normalize, Number.held_iff hx]

/-- The text is equal to its number exactly if a float holds that. -/
theorem looselyEqual_textOf_left (hn : (Number.int n).inRange = true)
    (hx : (Number.int n).toFloat? = some x) :
    ∃ equal, (textOf n).looselyEqual (.int n) = .ok equal ∧ (equal = true ↔ Number.Held n) := by
  have hint : (Value.int n).comparable? = some (.int n) := numeric?_int hn
  rw [looselyEqual, comparable?_textOf hx, hint, Number.held_iff hx]
  exact ⟨_, rfl, Number.same_normalize⟩

/-- So is the number to its text. -/
theorem looselyEqual_textOf_right (hn : (Number.int n).inRange = true)
    (hx : (Number.int n).toFloat? = some x) :
    ∃ equal, (Value.int n).looselyEqual (textOf n) = .ok equal ∧ (equal = true ↔ Number.Held n) := by
  have hint : (Value.int n).comparable? = some (.int n) := numeric?_int hn
  rw [looselyEqual, comparable?_textOf hx, hint, Number.held_iff hx]
  refine ⟨_, rfl, ?_⟩
  rw [Number.same_int_comm]
  exact Number.same_normalize

/-! ## Adding -/

/-- A sum with an operand is the whole number that it should be. -/
def AddsTo (v : Value) (n m : Int) : Prop :=
  ∃ k, v.add (.int m) = .ok (ofNumber k) ∧ k.same (.int (n + m)) = true

/-- Whole numbers within range add up exactly. -/
theorem addsTo_int (hn : (Number.int n).inRange = true) (hm : (Number.int m).inRange = true) :
    AddsTo (.int n) n m := by
  refine ⟨.int (n + m), ?_, Number.same_int_int.2 rfl⟩
  rw [add, numeric?_int hn, numeric?_int hm]
  rfl

theorem ofNumber_inj {a b : Number} : ofNumber a = ofNumber b ↔ a = b := by
  cases a <;> cases b <;> simp [ofNumber]

/-- A sum of two whole numbers is the one of these and of no others. -/
theorem eq_of_addsTo (hv : v.numeric? = some (.int k)) (hm : (Number.int m).inRange = true)
    (h : AddsTo v n m) : k = n := by
  obtain ⟨sum, hsum, hsame⟩ := h
  rw [add, hv, numeric?_int hm] at hsum
  obtain rfl : Number.int (k + m) = sum := ofNumber_inj.1 (Except.ok.inj hsum)
  have hkey := Number.same_int_int.1 hsame
  omega

/-- A whole number that a sum with a float adds up to is held by a float. -/
theorem held_of_addsTo (hv : v.numeric? = some (.float x)) (hm : (Number.int m).inRange = true)
    (h : AddsTo v n m) : Number.Held (n + m) := by
  obtain ⟨sum, hsum, hsame⟩ := h
  obtain ⟨y, hy⟩ := Number.exists_toFloat? hm
  have hadd : (Number.float x).add? (.int m) = some (.float (x + y)) := by
    rw [Number.add?, Number.combine?, Number.floats?, hy]
    · rfl
    · intro a b hab
      cases hab
  rw [add, hv, numeric?_int hm] at hsum
  dsimp only at hsum
  rw [hadd] at hsum
  obtain rfl : (Number.float (x + y)).normalize = sum := ofNumber_inj.1 (Except.ok.inj hsum)
  exact ⟨x + y, Number.same_float_int.2 (Number.same_normalize.1 hsame)⟩

/-- **Sums with the text of a number are exact up to the limit of exact whole floats.** -/
theorem addsTo_textOf_iff (hn : (Number.int n).inRange = true) :
    (∀ m, (Number.int m).inRange = true → AddsTo (textOf n) n m) ↔ n.natAbs ≤ exactLimit := by
  obtain ⟨x, hx⟩ := Number.exists_toFloat? hn
  constructor
  · intro h
    refine Nat.le_of_not_lt fun hbeyond => ?_
    have hzero := h 0 (Number.inRange_of_le (by decide))
    rcases Number.normalize_cases x with ⟨k, hk, hle⟩ | hfloat
    · obtain rfl := eq_of_addsTo ((numeric?_textOf hx).trans (congrArg some hk))
        (Number.inRange_of_le (by decide)) hzero
      exact Nat.not_lt.2 hle hbeyond
    · have hv : (textOf n).numeric? = some (.float x) := by rw [numeric?_textOf hx, hfloat]
      have hself := held_of_addsTo hv (Number.inRange_of_le (by decide)) hzero
      have heven := Number.even_of_held hself (by omega)
      -- the neighbour further from zero is odd
      rcases Int.lt_or_le n 0 with hneg | hnonneg
      · have hnext := Number.even_of_held (held_of_addsTo hv (Number.inRange_of_le (by decide))
          (h (-1) (Number.inRange_of_le (by decide)))) (by omega)
        omega
      · have hnext := Number.even_of_held (held_of_addsTo hv (Number.inRange_of_le (by decide))
          (h 1 (Number.inRange_of_le (by decide)))) (by omega)
        omega
  · intro hle m hm
    have hvalue := (Number.held_iff hx).1 (Number.held_of_le hle)
    obtain ⟨k, hk, hsame⟩ := addsTo_int hn hm
    refine ⟨k, ?_, hsame⟩
    rw [← hk, add, add, numeric?_textOf hx, Number.normalize_of_whole? hvalue hle,
      numeric?_int hn, numeric?_int hm]

end Value

/-! ## All operators -/

namespace Reporter

/-- Arithmetic and comparisons. -/
def numeric : List Reporter :=
  [.plus, .minus, .multiply, .divide, .mod, .gt, .gte, .lt, .lte, .eq, .et]

/-- No arithmetic operator and no comparison tells two operands apart, on either side. -/
def Alike (a b : Value) : Prop :=
  ∀ r ∈ numeric, ∀ v, r.apply a v = r.apply b v ∧ r.apply v a = r.apply v b

/-- Two values that read as the same number and have the same text are the same operand. -/
theorem alike_of_eq {a b : Value} (hnumeric : a.numeric? = b.numeric?)
    (hcomparable : a.comparable? = b.comparable?) (htext : a.toText = b.toText) : Alike a b := by
  intro r hr v
  have hnumber : a.toNumber = b.toNumber := by rw [Value.toNumber, Value.toNumber, hnumeric]
  have hadd : a.add v = b.add v ∧ v.add a = v.add b := by
    simp only [Value.add, hnumeric, htext, and_self]
  have hequal : a.looselyEqual v = b.looselyEqual v ∧ v.looselyEqual a = v.looselyEqual b := by
    simp only [Value.looselyEqual, hcomparable, htext, and_self]
  cases r with
  | plus => exact hadd
  | minus | multiply | divide | mod | gt | gte | lt | lte => simp only [apply, hnumber, and_self]
  | eq | et => simp only [apply, hequal, and_self]
  | «variable» | and | or | not => exact absurd hr (by decide)

end Reporter

namespace Value

open Number (exactLimit)

variable {n : Int}

/-- **The text of a number behaves like the number up to the limit of exact whole floats.** -/
theorem alike_textOf_iff (hn : (Number.int n).inRange = true) :
    Reporter.Alike (textOf n) (.int n) ↔ n.natAbs ≤ exactLimit := by
  constructor
  · intro h
    refine (addsTo_textOf_iff hn).1 fun m hm => ?_
    obtain ⟨k, hk, hsame⟩ := addsTo_int hn hm
    refine ⟨k, ?_, hsame⟩
    rw [← hk]
    exact (h .plus (by decide) (.int m)).1
  · intro hle
    obtain ⟨x, hx⟩ := Number.exists_toFloat? hn
    have hvalue := (Number.held_iff hx).1 (Number.held_of_le hle)
    have hnormal := Number.normalize_of_whole? hvalue hle
    have hint : (Value.int n).comparable? = some (.int n) := numeric?_int hn
    refine Reporter.alike_of_eq ?_ ?_ (toText_int (writable_of_inRange hn)).symm
    · rw [numeric?_textOf hx, hnormal, numeric?_int hn]
    · rw [comparable?_textOf hx, hnormal, hint]

/-- **A whole number and its text are interchangeable as far as floats hold whole numbers.** The
literal that the text is typed in as is the number itself. As an operand the text is the nearest
float: it equals the number, and is loosely equal to it from either side, exactly if some float
equals it. Sums with the text are exact for all other operands, and the text behaves like the literal
under every arithmetic operator and comparison, exactly up to a magnitude of `2 ^ 53`, where every
whole number is held by a float. -/
theorem textOf_interchangeable (hn : (Number.int n).inRange = true) :
    (Value.int n).toText = .ok (Int.repr n) ∧ readLiteral (Int.repr n) = .int n ∧
    (∃ x, (Number.int n).toFloat? = some x ∧
      (textOf n).toNumber = (Number.float x).normalize) ∧
    ((textOf n).toNumber.same (.int n) = true ↔ Number.Held n) ∧
    (∃ equal, (textOf n).looselyEqual (.int n) = .ok equal ∧ (equal = true ↔ Number.Held n)) ∧
    (∃ equal, (Value.int n).looselyEqual (textOf n) = .ok equal ∧
      (equal = true ↔ Number.Held n)) ∧
    ((∀ m, (Number.int m).inRange = true →
      ∃ k, (textOf n).add (.int m) = .ok (ofNumber k) ∧ k.same (.int (n + m)) = true) ↔
        n.natAbs ≤ 2 ^ 53) ∧
    (Reporter.Alike (textOf n) (readLiteral (Int.repr n)) ↔ n.natAbs ≤ 2 ^ 53) ∧
    (n.natAbs ≤ 2 ^ 53 → Number.Held n) := by
  obtain ⟨x, hx⟩ := Number.exists_toFloat? hn
  refine ⟨toText_int (writable_of_inRange hn), readLiteral_of_inRange hn, ⟨x, hx, ?_⟩,
    same_toNumber_textOf hx, looselyEqual_textOf_left hn hx, looselyEqual_textOf_right hn hx,
    addsTo_textOf_iff hn, ?_, Number.held_of_le⟩
  · rw [toNumber, numeric?_textOf hx, Option.getD_some]
  · rw [readLiteral_of_inRange hn]
    exact alike_textOf_iff hn

/-- At the limit the text is still loosely equal to the number. -/
theorem textOf_interchangeable_limit : (Number.int (2 ^ 53)).inRange = true ∧
    (textOf (2 ^ 53)).looselyEqual (.int (2 ^ 53)) = .ok true := by
  have hrange : (Number.int (2 ^ 53)).inRange = true := Number.inRange_of_le (by decide)
  obtain ⟨-, -, -, -, ⟨equal, hequal, hheld⟩, -⟩ := textOf_interchangeable hrange
  refine ⟨hrange, ?_⟩
  rw [hequal, hheld.2 (Number.held_of_le (by decide))]

/-- The first whole number that no float equals: its text reads as the number before it, so the two
are not loosely equal although their texts are the same, and the text adds up to something else. -/
theorem textOf_beyond : (Number.int 9007199254740993).inRange = true ∧
    toText (.int 9007199254740993) = .ok "9007199254740993" ∧
    readLiteral "9007199254740993" = .int 9007199254740993 ∧
    (Value.str "9007199254740993").toNumber = .int 9007199254740992 ∧
    (Value.str "9007199254740993").looselyEqual (.int 9007199254740993) = .ok false ∧
    (Value.int 9007199254740993).looselyEqual (.str "9007199254740993") = .ok false ∧
    ¬ AddsTo (.str "9007199254740993") 9007199254740993 0 := by
  have hread : (Value.str "9007199254740993").numeric? = some (.int 9007199254740992) := by
    decide +kernel
  have htext : (Value.str "9007199254740993").comparable? = some (.int 9007199254740992) := by
    decide +kernel
  have hnumber : (Value.int 9007199254740993).comparable? = some (.int 9007199254740993) := by
    decide +kernel
  refine ⟨by decide +kernel, ?_, rfl, by decide +kernel, ?_, ?_, ?_⟩
  · rw [toText_int (writable_of_inRange (by decide +kernel))]
    exact congrArg Except.ok (by decide +kernel)
  · rw [looselyEqual, htext, hnumber]
    rfl
  · rw [looselyEqual, htext, hnumber]
    rfl
  · exact fun h => absurd (eq_of_addsTo hread (by decide +kernel) h) (by decide)

end Value

end BlockProgram
