import BlockProgram.Json.Printer
import BlockProgram.Json.Reader
import BlockProgram.Proofs.Number.Shortest
import BlockProgram.Proofs.Text.Digit

/-!
# Numbers of a document read back

The text of a finite number is read as this number, in every layout (`Json.number?_write?`), and the
text of a whole number is read as this whole number, unless it has too many digits
(`Json.number?_repr`). Both hold in front of any text that does not go on like a number
(`Json.Ends`).

A layout moves the point and may add zeros, so what is read is the decimal that was written, with
some zeros at the end (`Json.spells_magnitude`). It lies in the interval of the number like the one
that was written, and so it is read as the number.
-/

namespace BlockProgram

open Decimal (isAsciiDigit)

/-! ## The parts of a number -/

namespace Json

open Text

/-- A text that does not begin with a digit. -/
def NoDigit (rest : List Char) : Prop := ∀ c ∈ rest.head?, isAsciiDigit c = false

/-- A text that does not go on like a number. -/
def Ends (rest : List Char) : Prop :=
  ∀ c ∈ rest.head?, isAsciiDigit c = false ∧ c ≠ '.' ∧ c ≠ 'e' ∧ c ≠ 'E'

variable {ds rest : List Char} {negative : Bool} {n : Nat} {place : Int} {l : Layout}

theorem ends_nil : Ends [] := fun _ hc => by cases hc

theorem Ends.noDigit (h : Ends rest) : NoDigit rest := fun c hc => (h c hc).1

/-- Digits are taken up to the first other character. -/
theorem span_digits (hds : ∀ c ∈ ds, isAsciiDigit c = true) (hrest : NoDigit rest) :
    (ds ++ rest).takeWhile isAsciiDigit = ds ∧ (ds ++ rest).dropWhile isAsciiDigit = rest := by
  rw [List.takeWhile_append_of_pos hds, List.dropWhile_append_of_pos hds]
  cases rest with
  | nil => simp
  | cons c rest => simp [hrest c rfl]

theorem wholePart?_append (hds : ∀ c ∈ ds, isAsciiDigit c = true) (hne : ds ≠ [])
    (hzero : ds.head? = some '0' → ds = ['0']) (hrest : NoDigit rest) :
    wholePart? (ds ++ rest) = some (ds, rest) := by
  obtain ⟨htake, hdrop⟩ := span_digits hds hrest
  unfold wholePart?
  split
  · rename_i c tail hcons
    obtain ⟨d, ds, rfl⟩ := List.exists_cons_of_ne_nil hne
    obtain ⟨rfl, rfl⟩ := List.cons.inj hcons
    obtain rfl := (List.cons.inj (hzero rfl)).2
    cases rest with
    | nil => rfl
    | cons c rest => simp [hrest c rfl]
  · rw [htake, hdrop, if_neg (by simpa using hne)]

theorem fractionPart?_append (hds : ∀ c ∈ ds, isAsciiDigit c = true) (hne : ds ≠ [])
    (hrest : NoDigit rest) : fractionPart? ('.' :: (ds ++ rest)) = some (some ds, rest) := by
  obtain ⟨htake, hdrop⟩ := span_digits hds hrest
  simp only [fractionPart?, htake, hdrop]
  rw [if_neg (by simpa using hne)]

theorem fractionPart?_none (h : ∀ c ∈ rest.head?, c ≠ '.') :
    fractionPart? rest = some (none, rest) := by
  unfold fractionPart?
  split
  · exact absurd rfl (h '.' rfl)
  · rfl

theorem exponentPart?_none (h : Ends rest) : exponentPart? rest = some (none, rest) := by
  cases rest with
  | nil => rfl
  | cons c rest =>
    obtain ⟨-, -, hlower, hupper⟩ := h c rfl
    simp [exponentPart?, hlower, hupper]

theorem exponentPart?_signed {sign : List Char} (hds : ∀ c ∈ ds, isAsciiDigit c = true)
    (hne : ds ≠ []) (hrest : NoDigit rest)
    (hsign : Decimal.takeSign (sign ++ (ds ++ rest)) = (negative, ds ++ rest)) :
    exponentPart? ('e' :: (sign ++ (ds ++ rest))) =
      some (some (if negative then -(readDigits ds : Int) else readDigits ds), rest) := by
  obtain ⟨htake, hdrop⟩ := span_digits hds hrest
  simp only [exponentPart?, hsign, htake, hdrop]
  rw [if_pos (show ('e' == 'e' || 'e' == 'E') = true by decide), if_neg (by simpa using hne)]

theorem exponent_toList (e : Int) : (l.exponent e).toList =
    'e' :: ((if e < 0 then ['-'] else if l.plusSign then ['+'] else []) ++
      (List.replicate (l.exponentWidth - (Nat.repr e.natAbs).length) '0' ++
        Nat.toDigits 10 e.natAbs)) := by
  have hdigits : (Nat.repr e.natAbs).toList = Nat.toDigits 10 e.natAbs := by
    rw [Nat.repr_eq_ofList_toDigits, String.toList_ofList]
  simp only [Layout.exponent, String.append_assoc, String.toList_append, String.toList_ofList,
    hdigits, apply_ite String.toList]
  rfl

/-- An exponent is read in every layout. -/
theorem exponentPart?_exponent (e : Int) (hrest : Ends rest) :
    exponentPart? ((l.exponent e).toList ++ rest) = some (some e, rest) := by
  rw [exponent_toList]
  generalize l.exponentWidth - (Nat.repr e.natAbs).length = padding
  have hds : ∀ c ∈ List.replicate padding '0' ++ Nat.toDigits 10 e.natAbs, isAsciiDigit c = true :=
    List.forall_mem_append.2
      ⟨fun _ => isAsciiDigit_of_mem_replicate, fun _ => isAsciiDigit_of_mem_toDigits⟩
  have hne : List.replicate padding '0' ++ Nat.toDigits 10 e.natAbs ≠ [] := by simp
  have hvalue : readDigits (List.replicate padding '0' ++ Nat.toDigits 10 e.natAbs) = e.natAbs := by
    rw [readDigits_replicate_append fun _ => isAsciiDigit_of_mem_toDigits, readDigits_toDigits]
  generalize List.replicate padding '0' ++ Nat.toDigits 10 e.natAbs = digits at *
  have hminus : Decimal.takeSign (['-'] ++ (digits ++ rest)) = (true, digits ++ rest) := rfl
  have hplus : Decimal.takeSign (['+'] ++ (digits ++ rest)) = (false, digits ++ rest) := rfl
  rw [List.cons_append, List.append_assoc]
  split
  · rw [exponentPart?_signed hds hne hrest.noDigit hminus, hvalue, if_pos rfl]
    congr 3
    omega
  · have hnat : (e.natAbs : Int) = e := by omega
    split
    · rw [exponentPart?_signed hds hne hrest.noDigit hplus, hvalue, if_neg (by decide), hnat]
    · rw [exponentPart?_signed hds hne hrest.noDigit (takeSign_append hds hne), hvalue,
        if_neg (by decide), hnat]

/-- A number with a point or an exponent is read part by part. -/
theorem numberBody?_of_parts {cs rest₁ rest₂ whole : List Char} {fraction : Option (List Char)}
    {exponent : Option Int} (hwhole : wholePart? cs = some (whole, rest₁))
    (hfraction : fractionPart? rest₁ = some (fraction, rest₂))
    (hexponent : exponentPart? rest₂ = some (exponent, rest))
    (hreal : fraction.isSome ∨ exponent.isSome) :
    numberBody? negative cs =
      some (.float (Decimal.nearest negative (readDigits (whole ++ fraction.getD []))
        (whole ++ fraction.getD []).length (exponent.getD 0 - (fraction.getD []).length)), rest) := by
  simp only [numberBody?, hwhole, hfraction, hexponent, Option.bind_eq_bind, Option.bind_some]
  rcases fraction with _ | places <;> rcases exponent with _ | e
  · simp at hreal
  · rfl
  · rfl
  · rfl

/-! ## Laid out digits -/

/-- A text that is read as a decimal, which may have got some zeros at the end. -/
def Spells (text : List Char) (n : Nat) (place : Int) : Prop :=
  ∀ negative rest, Ends rest → ∃ k width : Nat, n * 10 ^ k < 10 ^ width ∧
    numberBody? negative (text ++ rest) =
      some (.float (Decimal.nearest negative (n * 10 ^ k) width (place - k)), rest)

theorem spells_of_parts {text whole : List Char} {fraction : Option (List Char)}
    {exponent : Option Int} {k : Nat}
    (hparts : ∀ rest, Ends rest → ∃ rest₁ rest₂, wholePart? (text ++ rest) = some (whole, rest₁) ∧
      fractionPart? rest₁ = some (fraction, rest₂) ∧
      exponentPart? rest₂ = some (exponent, rest))
    (hreal : fraction.isSome ∨ exponent.isSome)
    (hvalue : readDigits (whole ++ fraction.getD []) = n * 10 ^ k)
    (hplace : exponent.getD 0 - (fraction.getD []).length = place - k) : Spells text n place := by
  intro negative rest hrest
  obtain ⟨rest₁, rest₂, hwhole, hfraction, hexponent⟩ := hparts rest hrest
  refine ⟨k, _, hvalue ▸ readDigits_lt _, ?_⟩
  rw [numberBody?_of_parts hwhole hfraction hexponent hreal, hvalue, hplace]

theorem noDigit_point (tail : List Char) : NoDigit ('.' :: tail) := by
  rintro c ⟨⟩
  rfl

/-- A whole part and a fraction. -/
theorem spells_point {whole places : List Char} {k : Nat}
    (hwhole : ∀ c ∈ whole, isAsciiDigit c = true) (hne : whole ≠ [])
    (hzero : whole.head? = some '0' → whole = ['0'])
    (hplaces : ∀ c ∈ places, isAsciiDigit c = true) (hsome : places ≠ [])
    (hvalue : readDigits (whole ++ places) = n * 10 ^ k) (hplace : place = k - places.length) :
    Spells (whole ++ '.' :: places) n place := by
  refine @spells_of_parts _ _ _ whole (some places) none k (fun rest hrest => ?_) (.inl rfl)
    hvalue (by simp only [Option.getD]; omega)
  refine ⟨'.' :: (places ++ rest), rest, ?_, fractionPart?_append hplaces hsome hrest.noDigit,
    exponentPart?_none hrest⟩
  rw [List.append_assoc]
  exact wholePart?_append hwhole hne hzero (noDigit_point _)

theorem spells_zero : Spells "0.0".toList 0 (-1) :=
  @spells_point 0 (-1) ['0'] ['0'] 0 (List.forall_mem_singleton.2 rfl) (List.cons_ne_nil _ _)
    (fun _ => rfl) (List.forall_mem_singleton.2 rfl) (List.cons_ne_nil _ _) rfl rfl

/-- A digit, further digits and an exponent. -/
theorem spells_exponent {d : Char} {first : Int} (hds : ∀ c ∈ d :: ds, isAsciiDigit c = true)
    (hd : d ≠ '0') (hvalue : readDigits (d :: ds) = n) (hfirst : first = place + ds.length) :
    Spells ((match d :: ds with
      | d :: [] => [d]
      | d :: rest => d :: '.' :: rest
      | [] => []) ++ (l.exponent first).toList) n place := by
  obtain ⟨tail, htail⟩ : ∃ tail, (l.exponent first).toList = 'e' :: tail := ⟨_, exponent_toList _⟩
  have hwhole {rest : List Char} (hrest : NoDigit rest) :
      wholePart? (d :: rest) = some ([d], rest) :=
    @wholePart?_append [d] _ (fun c hc => hds c (by simp_all)) (by simp) (by simp [hd]) hrest
  rcases ds with _ | ⟨d', ds⟩
  · refine @spells_of_parts _ _ _ [d] none (some first) 0 (fun rest hrest => ?_) (.inr rfl)
      (by rw [Nat.pow_zero, Nat.mul_one]; exact hvalue) (by simpa using hfirst)
    refine ⟨(l.exponent first).toList ++ rest, (l.exponent first).toList ++ rest, hwhole ?_,
      fractionPart?_none ?_, exponentPart?_exponent _ hrest⟩
    · rw [htail]
      rintro c ⟨⟩
      rfl
    · rw [htail]
      rintro c ⟨⟩
      decide
  · refine @spells_of_parts _ _ _ [d] (some (d' :: ds)) (some first) 0 (fun rest hrest => ?_)
      (.inr rfl) (by rw [Nat.pow_zero, Nat.mul_one]; exact hvalue)
      (by simp only [Option.getD]; omega)
    refine ⟨'.' :: (d' :: ds ++ ((l.exponent first).toList ++ rest)),
      (l.exponent first).toList ++ rest, ?_, fractionPart?_append
        (fun c hc => hds c (List.mem_cons_of_mem _ hc)) (by simp) ?_, exponentPart?_exponent _ hrest⟩
    · rw [← List.append_assoc]
      exact hwhole (noDigit_point _)
    · rw [htail]
      rintro c ⟨⟩
      rfl

/-- **The digits of a layout spell the decimal that was written.** -/
theorem spells_magnitude (hn : 0 < n) : Spells (l.magnitude n place).toList n place := by
  have hds : ∀ c ∈ Nat.toDigits 10 n, isAsciiDigit c = true := fun _ => isAsciiDigit_of_mem_toDigits
  have hhead := toDigits_head_ne hn
  have hread := @readDigits_toDigits n
  obtain ⟨d, ds, hdigits⟩ := List.exists_cons_of_ne_nil (@Nat.toDigits_ne_nil n 10)
  unfold Layout.magnitude
  rw [hdigits] at hds hhead hread ⊢
  have hd : d ≠ '0' := by simpa using hhead
  dsimp only
  rw [List.length_cons]
  split
  · split
    · -- zeros up to the point and one after it
      rename_i hplace
      have hone : readDigits (d :: ds ++ List.replicate place.toNat '0' ++ ['0']) =
          n * 10 ^ (place.toNat + 1) := by
        rw [List.append_assoc, ← List.replicate_succ', readDigits_append_replicate hds, hread]
      rw [String.toList_append, String.toList_ofList]
      refine spells_point (List.forall_mem_append.2 ⟨hds, fun _ => isAsciiDigit_of_mem_replicate⟩)
        (by simp) (by simp [hd]) (by simp; decide) (by simp) hone ?_
      show place = (place.toNat + 1 : Nat) - (1 : Nat)
      omega
    split
    · -- the point among the digits
      have hsplit := List.take_append_drop (place + (ds.length + 1 : Nat) - 1 + 1).toNat (d :: ds)
      generalize hcut : (place + (ds.length + 1 : Nat) - 1 + 1).toNat = cut at *
      have hcutPos : 0 < cut := by omega
      have hcutLt : cut < (d :: ds).length := by
        rw [List.length_cons]
        omega
      rw [String.toList_ofList]
      refine spells_point (k := 0) (fun c hc => hds c (List.mem_of_mem_take hc))
        (by simp; omega) (fun hzero => ?_) (fun c hc => hds c (List.mem_of_mem_drop hc))
        (by simpa using hcutLt) (by rw [hsplit, hread, Nat.pow_zero, Nat.mul_one]) ?_
      · rw [List.head?_take, if_neg (by omega)] at hzero
        exact absurd hzero hhead
      · rw [List.length_drop, List.length_cons]
        omega
    · -- zeros between the point and the digits
      rw [String.toList_ofList]
      refine @spells_point _ _ ['0'] _ 0 (by simp; decide) (by simp) (fun _ => rfl)
        (List.forall_mem_append.2 ⟨fun _ => isAsciiDigit_of_mem_replicate, hds⟩) (by simp) ?_ ?_
      · rw [← List.append_assoc, List.singleton_append, ← List.replicate_succ,
          readDigits_replicate_append hds, hread, Nat.pow_zero, Nat.mul_one]
      · rw [List.length_append, List.length_replicate, List.length_cons]
        omega
  · rw [String.toList_append, String.toList_ofList]
    exact spells_exponent hds hd hread (by omega)

/-! ## Signed numbers -/

variable {cs : List Char} {r : Value × List Char}

/-- A number without its sign begins with a digit. -/
theorem exists_digit_of_numberBody? (h : numberBody? negative cs = some r) :
    ∃ c tail, cs = c :: tail ∧ isAsciiDigit c = true := by
  cases cs with
  | nil => simp [numberBody?, wholePart?] at h
  | cons c tail =>
    refine ⟨c, tail, rfl, Bool.not_eq_false _ |>.mp fun hother => ?_⟩
    have hnone : wholePart? (c :: tail) = none := by
      unfold wholePart?
      split
      · rename_i hzero
        rw [(List.cons.inj hzero).1] at hother
        cases hother
      · simp [hother]
    simp [numberBody?, hnone] at h

/-- A number begins with a minus or a digit. -/
theorem exists_of_number? (h : number? cs = some r) :
    ∃ c tail, cs = c :: tail ∧ (c == '-' || isAsciiDigit c) = true := by
  unfold number? at h
  split at h
  · exact ⟨_, _, rfl, rfl⟩
  · obtain ⟨c, tail, hcs, hdigit⟩ := exists_digit_of_numberBody? h
    exact ⟨c, tail, hcs, by rw [hdigit, Bool.or_true]⟩

theorem number?_signed (h : numberBody? negative cs = some r) :
    number? ((if negative then "-" else "").toList ++ cs) = some r := by
  obtain ⟨c, tail, rfl, hdigit⟩ := exists_digit_of_numberBody? h
  cases negative with
  | false =>
    show number? (c :: tail) = some r
    unfold number?
    split
    · rename_i hminus
      rw [(List.cons.inj hminus).1] at hdigit
      cases hdigit
    · exact h
  | true =>
    have hword : word? "Infinity".toList (c :: tail) = none := by
      refine if_neg fun hc => ?_
      rw [← beq_iff_eq.1 hc] at hdigit
      cases hdigit
    show number? ('-' :: c :: tail) = some r
    simp only [number?, hword]
    exact h

/-- **The text of a finite number is read as the number**, in every layout. -/
theorem number?_write? {x : Float} {text : String} (h : l.write? x = some text)
    (hrest : Ends rest) : number? (text.toList ++ rest) = some (.float x, rest) := by
  obtain ⟨p, hp, rfl⟩ := Option.map_eq_some_iff.1 h
  dsimp only
  split
  · rename_i hzero
    have hbits : p.bits = 0 := by
      have hnormal := (Binary.canonical_of_parts? hp).normal
      rw [hzero] at hnormal
      rw [Binary.Parts.bits, hzero, hnormal.resolve_left (by decide), Int.sub_self]
      rfl
    obtain ⟨k, width, -, hbody⟩ := spells_zero p.negative rest hrest
    rw [Nat.zero_mul, Decimal.nearest, if_pos rfl, ← hbits, Binary.ofMagnitude_bits hp] at hbody
    rw [String.toList_append, List.append_assoc]
    exact number?_signed hbody
  · rename_i hsome
    have hpos : 0 < p.mantissa := Nat.pos_of_ne_zero hsome
    have hhas := Shortest.has_decimal (Binary.canonical_of_parts? hp) hpos
    obtain ⟨k, width, hwidth, hbody⟩ := @spells_magnitude _ (Shortest.decimal p).2 l
      (Nat.pos_of_ne_zero (Shortest.ne_zero_of_has hpos hhas)) p.negative rest hrest
    rw [Shortest.nearest_of_has hp hpos ((Shortest.Interval.has_mul_pow k).2 hhas) hwidth] at hbody
    rw [String.toList_append, List.append_assoc]
    exact number?_signed hbody

theorem numberBody?_toDigits (h : (Nat.toDigits 10 n).length ≤ Decimal.maxIntDigits)
    (hrest : Ends rest) : numberBody? negative (Nat.toDigits 10 n ++ rest) =
      some (.int (if negative then -(n : Int) else n), rest) := by
  have hwhole : wholePart? (Nat.toDigits 10 n ++ rest) = some (Nat.toDigits 10 n, rest) := by
    refine wholePart?_append (fun _ => isAsciiDigit_of_mem_toDigits) Nat.toDigits_ne_nil
      (fun hzero => ?_) hrest.noDigit
    rcases Nat.eq_zero_or_pos n with rfl | hpos
    · rfl
    · exact absurd hzero (toDigits_head_ne hpos)
  have hfraction := fractionPart?_none fun c hc => (hrest c hc).2.1
  simp only [numberBody?, hwhole, hfraction, exponentPart?_none hrest, Option.bind_eq_bind,
    Option.bind_some]
  rw [if_neg (Nat.not_lt.2 h), readDigits_toDigits]
  rfl

/-- **The text of a whole number is read as the number**, if it has not too many digits. -/
theorem number?_repr {m : Int} (h : (Nat.toDigits 10 m.natAbs).length ≤ Decimal.maxIntDigits)
    (hrest : Ends rest) : number? ((Int.repr m).toList ++ rest) = some (.int m, rest) := by
  have hdigits : (Nat.repr m.natAbs).toList = Nat.toDigits 10 m.natAbs := by
    rw [Nat.repr_eq_ofList_toDigits, String.toList_ofList]
  rw [Int.repr_eq_if]
  split
  · rename_i hpos
    rw [show m.toNat = m.natAbs by omega, hdigits]
    have hbody := @numberBody?_toDigits _ false _ h hrest
    rw [if_neg (by decide), Int.natAbs_of_nonneg hpos] at hbody
    exact number?_signed hbody
  · rename_i hneg
    rw [show (-m).toNat = m.natAbs by omega, String.toList_append, hdigits, List.append_assoc]
    have hbody := @numberBody?_toDigits _ true _ h hrest
    rw [if_pos rfl, show -(m.natAbs : Int) = m by omega] at hbody
    exact number?_signed hbody

end Json

end BlockProgram
