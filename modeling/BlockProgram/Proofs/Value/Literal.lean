import BlockProgram.Proofs.Text.Digit
import BlockProgram.Proofs.Text.Trim
import BlockProgram.Proofs.Value.Writable
import BlockProgram.Value.Literal
import Mathlib.Data.List.Forall2

/-!
# The grammar of literals

What a text typed into a slot is read as is given by a grammar (`Literal`) of what is left after
trimming: nothing, one of the words for truth values in any case, a whole number of limited length,
or a real. The reader takes exactly these forms and keeps any other text as it is, blanks included
(`readLiteral_eq_iff`).

* A numeral is read into the parts that it was put together from and into no others
  (`Numeral.read?_eq_some_iff`).
* No text has two forms: a word has no digits, and a numeral begins with one, after its minus.

What has been read is not changed by reading it again, since of the forms only the empty one stands
for a text; and the text of a whole number is read as the number, with any blanks around it.
-/

namespace BlockProgram

open Text

variable {s : String} {cs ds es : List Char} {v w : Value} {n : Numeral} {negative : Bool}

/-! ## Numerals -/

/-- One or more digits of any scripts. -/
def Digits (ds : List Char) : Prop := ds ≠ [] ∧ ∀ c ∈ ds, isDigit c = true

namespace Numeral

/-- The point and the digits after it, if there is one. -/
def pointed : Option (List Char) → List Char
  | none => []
  | some es => '.' :: es

/-- The characters of a numeral. -/
def text (n : Numeral) : List Char := minus n.negative ++ (n.whole ++ pointed n.fraction)

/-- The parts of a numeral are digits, at least one before the point and one after it. -/
structure Proper (n : Numeral) : Prop where
  whole : Digits n.whole
  fraction : ∀ es ∈ n.fraction, Digits es

/-- The numeral that a text without its minus is. -/
def unsigned? (negative : Bool) (cs : List Char) : Option Numeral :=
  let whole := cs.takeWhile isDigit
  if whole.isEmpty then none
  else
    match cs.dropWhile isDigit with
    | [] => some ⟨negative, whole, none⟩
    | '.' :: fraction =>
      if !fraction.isEmpty && fraction.all isDigit then some ⟨negative, whole, some fraction⟩
      else none
    | _ => none

/-- Without a minus in front a numeral is read without a sign. -/
theorem read?_of_head (h : cs.head? ≠ some '-') : read? cs = unsigned? false cs := by
  unfold read?
  split
  rename_i hmatch
  split at hmatch
  · exact absurd rfl h
  · cases hmatch
    rfl

theorem isDigit_point : isDigit '.' = false := by decide +kernel

theorem isDigit_minus : isDigit '-' = false := by decide +kernel

/-- The digits in front are taken up to the point. -/
theorem span_pointed (hds : Digits ds) (fraction : Option (List Char)) :
    (ds ++ pointed fraction).takeWhile isDigit = ds ∧
      (ds ++ pointed fraction).dropWhile isDigit = pointed fraction := by
  rw [List.takeWhile_append_of_pos hds.2, List.dropWhile_append_of_pos hds.2]
  cases fraction with
  | none => simp [pointed]
  | some es => simp [pointed, isDigit_point]

/-- A proper numeral reads back from its digits, with or without a point. -/
theorem unsigned?_of_proper (h : n.Proper) :
    unsigned? n.negative (n.whole ++ pointed n.fraction) = some n := by
  obtain ⟨htake, hdrop⟩ := span_pointed h.whole n.fraction
  simp only [unsigned?, htake, hdrop]
  rw [List.isEmpty_eq_false_iff.2 h.whole.1, if_neg (by decide)]
  obtain ⟨negative, ds, _ | es⟩ := n
  · rfl
  · have hes := h.fraction es rfl
    have hall : (!es.isEmpty && es.all isDigit) = true := by
      rw [List.isEmpty_eq_false_iff.2 hes.1, List.all_eq_true.2 hes.2]
      rfl
    simp only [pointed, hall, if_true]

/-- Conversely, whatever is read as a numeral is proper and has been written like that. -/
theorem of_unsigned? (h : unsigned? negative cs = some n) :
    n.Proper ∧ n.text = minus negative ++ cs := by
  have hcs := List.takeWhile_append_dropWhile (p := isDigit) (l := cs)
  simp only [unsigned?] at h
  split at h
  · cases h
  · rename_i hsome
    have hwhole : Digits (cs.takeWhile isDigit) :=
      ⟨fun hnil => hsome (List.isEmpty_iff.2 hnil), fun c hc => List.mem_takeWhile_imp hc⟩
    split at h
    · rename_i hdrop
      cases h
      rw [hdrop] at hcs
      exact ⟨⟨hwhole, fun es hes => by cases hes⟩, congrArg _ hcs⟩
    · rename_i es hdrop
      split at h
      · rename_i hes
        cases h
        rw [Bool.and_eq_true, Bool.not_eq_true', List.isEmpty_eq_false_iff, List.all_eq_true] at hes
        rw [hdrop] at hcs
        refine ⟨⟨hwhole, ?_⟩, congrArg _ hcs⟩
        rintro _ ⟨⟩
        exact hes
      · cases h
    · cases h

/-- **A text is read as a numeral exactly if it is the text of the numeral.** -/
theorem read?_eq_some_iff : read? cs = some n ↔ n.Proper ∧ n.text = cs := by
  constructor
  · intro h
    by_cases hhead : cs.head? = some '-'
    · obtain ⟨cs, rfl⟩ : ∃ rest, cs = '-' :: rest := ⟨_, List.eq_cons_of_mem_head? hhead⟩
      exact of_unsigned? h
    · rw [read?_of_head hhead] at h
      exact of_unsigned? h
  · rintro ⟨hproper, rfl⟩
    have hread := unsigned?_of_proper hproper
    obtain ⟨negative, ds, fraction⟩ := n
    cases negative with
    | true => exact hread
    | false =>
      obtain ⟨d, ds, rfl⟩ := List.exists_cons_of_ne_nil hproper.whole.1
      have hdigit := hproper.whole.2 d List.mem_cons_self
      refine (read?_of_head ?_).trans hread
      rintro ⟨⟩
      exact absurd hdigit (by rw [isDigit_minus]; decide)

end Numeral

/-! ## Words in any case -/

/-- A text is a word, each of its letters in lower or upper case. -/
def AnyCase (word : String) (cs : List Char) : Prop :=
  List.Forall₂ (fun a c => c = a ∨ c = a.toUpper) word.toList cs

theorem toLower_eq_iff {a c : Char} (ha : a.isLower = true) :
    c.toLower = a ↔ c = a ∨ c = a.toUpper := by
  have hletter : 'a'.val ≤ a.val ∧ a.val ≤ 'z'.val :=
    (Bool.and_eq_true_iff.1 ha).imp of_decide_eq_true of_decide_eq_true
  unfold Char.toLower Char.toUpper
  rw [dif_pos hletter]
  -- in either case this is about code points
  split
  all_goals
    rename_i hupper
    simp only [Char.ext_iff, UInt32.le_iff_toNat_le, ← UInt32.toNat_inj, UInt32.toNat_add,
      UInt32.toNat_sub, ge_iff_le, Char.reduceVal, UInt32.reduceToNat] at hletter hupper ⊢
    omega

/-- A text is a word if it is that word in any mixture of capital and small letters. -/
theorem isWord_iff {word : String} (hword : ∀ a ∈ word.toList, a.isLower = true) :
    isWord word s = true ↔ AnyCase word s.toList := by
  rw [isWord, beq_iff_eq, AnyCase]
  generalize s.toList = cs
  generalize word.toList = letters at hword
  induction letters generalizing cs with
  | nil => rw [List.map_eq_nil_iff, List.forall₂_nil_left_iff]
  | cons a letters ih =>
    cases cs with
    | nil => simp
    | cons c cs =>
      rw [List.map_cons, List.cons.injEq, List.forall₂_cons, toLower_eq_iff (hword a (by simp)),
        ih _ fun b hb => hword b (List.mem_cons_of_mem _ hb)]

/-- The word for a truth value. -/
def truthWord (b : Bool) : String := if b then "true" else "false"

theorem isLower_truthWord {b : Bool} : ∀ a ∈ (truthWord b).toList, a.isLower = true :=
  List.all_eq_true.1 (by cases b <;> decide)

/-- The words of truth have no digits, so no numeral is one of them. -/
theorem not_isDigit_of_anyCase {b : Bool} (h : AnyCase (truthWord b) cs) :
    ∀ c ∈ cs, isDigit c = false := by
  have hletters : (truthWord b).toList.all (fun a => !isDigit a && !isDigit a.toUpper) = true := by
    cases b <;> decide +kernel
  intro c hc
  obtain ⟨i, hi, rfl⟩ := List.getElem_of_mem hc
  have hi' : i < (truthWord b).toList.length := h.length_eq ▸ hi
  obtain ⟨hlower, hupper⟩ := Bool.and_eq_true_iff.1
    (List.all_eq_true.1 hletters _ (List.getElem_mem hi'))
  rw [Bool.not_eq_true'] at hlower hupper
  rcases h.get hi' hi with hc | hc
  · exact (congrArg isDigit hc).trans hlower
  · exact (congrArg isDigit hc).trans hupper

/-- No text is both words of truth. -/
theorem anyCase_truthWord_inj {b b' : Bool} (h : AnyCase (truthWord b) cs)
    (h' : AnyCase (truthWord b') cs) : b = b' := by
  have hlength : (truthWord b).toList.length = (truthWord b').toList.length :=
    h.length_eq.trans h'.length_eq.symm
  cases b <;> cases b' <;> first | rfl | exact absurd hlength (by decide)

/-! ## The grammar -/

/-- The number nearest to a decimal with the given digits before and after the point. -/
def nearestReal (negative : Bool) (ds es : List Char) : Float :=
  Decimal.nearest negative (spelled (ds ++ es)) (ds ++ es).length (-(es.length : Int))

/-- The trimmed texts that are literals, with their values. -/
inductive Literal : List Char → Value → Prop
  | empty : Literal [] (.str "")
  | truth {cs : List Char} (b : Bool) (h : AnyCase (truthWord b) cs) : Literal cs (.bool b)
  | whole {ds : List Char} (negative : Bool) (hds : Digits ds)
      (hlength : ds.length ≤ Decimal.maxIntDigits) :
      Literal (minus negative ++ ds) (.int (signed negative (spelled ds)))
  | real {ds es : List Char} (negative : Bool) (hds : Digits ds) (hes : Digits es) :
      Literal (minus negative ++ (ds ++ '.' :: es)) (.float (nearestReal negative ds es))

namespace Numeral

/-- The numeral of a whole number. -/
theorem proper_whole (negative : Bool) (hds : Digits ds) : (⟨negative, ds, none⟩ : Numeral).Proper :=
  ⟨hds, fun _ hes => by cases hes⟩

theorem proper_real (negative : Bool) (hds : Digits ds) (hes : Digits es) :
    (⟨negative, ds, some es⟩ : Numeral).Proper := by
  refine ⟨hds, ?_⟩
  rintro _ ⟨⟩
  exact hes

/-- Digits without a point are a whole number, if there are not too many. -/
theorem value?_whole (negative : Bool) (h : ds.length ≤ Decimal.maxIntDigits) :
    value? ⟨negative, ds, none⟩ = some (.int (signed negative (spelled ds))) := by
  rw [← readDigits_eq_spelled, value?, if_pos h]
  rfl

/-- Digits with a point are the float nearest to them, however many there are. -/
theorem value?_real (negative : Bool) (ds es : List Char) :
    value? ⟨negative, ds, some es⟩ = some (.float (nearestReal negative ds es)) := by
  rw [nearestReal, ← readDigits_eq_spelled]
  rfl

/-- The value of a proper numeral is one that its text stands for. -/
theorem literal_of_value? (hproper : n.Proper) (h : n.value? = some v) : Literal n.text v := by
  obtain ⟨negative, ds, _ | es⟩ := n
  · have hlength : ds.length ≤ Decimal.maxIntDigits := by
      by_contra hlong
      rw [value?, if_neg hlong] at h
      cases h
    cases (value?_whole negative hlength).symm.trans h
    rw [text, pointed, List.append_nil]
    exact .whole negative hproper.whole hlength
  · cases (value?_real negative ds es).symm.trans h
    exact .real negative hproper.whole (hproper.fraction es rfl)

/-- Some character of a numeral is a digit. -/
theorem exists_isDigit (h : n.Proper) : ∃ c ∈ n.text, isDigit c = true := by
  obtain ⟨d, ds, hds⟩ := List.exists_cons_of_ne_nil h.whole.1
  have hd : d ∈ n.whole := by
    rw [hds]
    exact List.mem_cons_self
  exact ⟨d, List.mem_append_right _ (List.mem_append_left _ hd), h.whole.2 d hd⟩

/-- A text that is a numeral with a value is read as this value. -/
theorem readLiteral_eq (hproper : n.Proper) (hvalue : n.value? = some v)
    (hs : (trim s).toList = n.text) : readLiteral s = v := by
  obtain ⟨d, hd, hdigit⟩ := exists_isDigit hproper
  have hsome : (trim s).isEmpty = false := by
    rw [Bool.eq_false_iff, ne_eq, String.isEmpty_iff, ← String.toList_eq_nil_iff, hs]
    exact List.ne_nil_of_mem hd
  -- a word has no digit
  have hword (b : Bool) : isWord (truthWord b) (trim s) = false := by
    rw [Bool.eq_false_iff, ne_eq, isWord_iff isLower_truthWord, hs]
    intro hany
    rw [not_isDigit_of_anyCase hany d hd] at hdigit
    cases hdigit
  have htrue := hword true
  have hfalse := hword false
  rw [truthWord, if_pos rfl] at htrue
  rw [truthWord, if_neg (by decide)] at hfalse
  simp only [readLiteral, hsome, htrue, hfalse, hs, read?_eq_some_iff.2 ⟨hproper, rfl⟩, hvalue,
    Option.bind_some, Bool.false_eq_true, if_false]

end Numeral

/-- A word is read as its truth value. -/
theorem readLiteral_of_anyCase {b : Bool} (h : AnyCase (truthWord b) (trim s).toList) :
    readLiteral s = .bool b := by
  have hsome : (trim s).isEmpty = false := by
    rw [Bool.eq_false_iff, ne_eq, String.isEmpty_iff, ← String.toList_eq_nil_iff]
    intro hnil
    rw [hnil] at h
    cases b <;> cases h
  have hword := isWord_iff isLower_truthWord |>.2 h
  cases b with
  | true =>
    rw [truthWord, if_pos rfl] at hword
    simp only [readLiteral, hsome, hword, Bool.false_eq_true, if_false, if_true]
  | false =>
    have hother : isWord (truthWord true) (trim s) = false := by
      rw [Bool.eq_false_iff, ne_eq, isWord_iff isLower_truthWord]
      exact fun htrue => absurd (anyCase_truthWord_inj h htrue) (by decide)
    rw [truthWord, if_pos rfl] at hother
    rw [truthWord, if_neg (by decide)] at hword
    simp only [readLiteral, hsome, hword, hother, Bool.false_eq_true, if_false, if_true]

/-- A literal is read as its value. -/
theorem readLiteral_of_literal (h : Literal (trim s).toList v) : readLiteral s = v := by
  generalize hs : (trim s).toList = cs at h
  cases h with
  | empty =>
    rw [readLiteral, String.toList_eq_nil_iff.1 hs]
    rfl
  | truth b hany =>
    subst hs
    exact readLiteral_of_anyCase hany
  | whole negative hds hlength =>
    refine Numeral.readLiteral_eq (Numeral.proper_whole negative hds)
      (Numeral.value?_whole negative hlength) ?_
    rw [hs, Numeral.text, Numeral.pointed, List.append_nil]
  | real negative hds hes =>
    exact Numeral.readLiteral_eq (Numeral.proper_real negative hds hes)
      (Numeral.value?_real negative _ _) hs

/-- A text is read as a literal or kept. -/
theorem literal_readLiteral (s : String) :
    Literal (trim s).toList (readLiteral s) ∨ readLiteral s = .str s := by
  simp only [readLiteral]
  split
  · rename_i hnone
    rw [String.isEmpty_iff] at hnone
    rw [hnone]
    exact .inl .empty
  · split
    · rename_i htrue
      exact .inl (.truth true ((isWord_iff isLower_truthWord).1 htrue))
    · split
      · rename_i hfalse
        exact .inl (.truth false ((isWord_iff isLower_truthWord).1 hfalse))
      · split
        · rename_i hvalue
          obtain ⟨n, hread, hvalue⟩ := Option.bind_eq_some_iff.1 hvalue
          obtain ⟨hproper, htext⟩ := Numeral.read?_eq_some_iff.1 hread
          rw [← htext]
          exact .inl (Numeral.literal_of_value? hproper hvalue)
        · exact .inr rfl

/-- **The grammar of literals.** A text is read as the value that the grammar gives to it, and as
itself if the grammar gives it none. -/
theorem readLiteral_eq_iff : readLiteral s = v ↔
    Literal (trim s).toList v ∨ (v = .str s ∧ ∀ w, ¬ Literal (trim s).toList w) := by
  constructor
  · rintro rfl
    rcases literal_readLiteral s with hliteral | hkept
    · exact .inl hliteral
    · by_cases hany : ∃ w, Literal (trim s).toList w
      · obtain ⟨w, hw⟩ := hany
        rw [readLiteral_of_literal hw]
        exact .inl hw
      · exact .inr ⟨hkept, fun w hw => hany ⟨w, hw⟩⟩
  · rintro (hliteral | ⟨rfl, hnone⟩)
    · exact readLiteral_of_literal hliteral
    · exact (literal_readLiteral s).resolve_left (hnone _)

/-- **A text is read as something else than a text exactly if it stands for it** once it is
trimmed. -/
theorem readLiteral_eq_iff_of_ne (h : ∀ t, v ≠ .str t) :
    readLiteral s = v ↔ Literal (trim s).toList v :=
  readLiteral_eq_iff.trans (or_iff_left fun hkept => h s hkept.1)

/-- Only nothing is read as a text of its own. -/
theorem Literal.eq_nil (h : Literal cs (.str s)) : cs = [] := by
  cases h
  rfl

/-- Only blank texts are read as the empty text. -/
theorem readLiteral_eq_empty_iff : readLiteral s = .str "" ↔ trim s = "" := by
  constructor
  · intro h
    rcases readLiteral_eq_iff.1 h with hliteral | ⟨hs, -⟩
    · exact String.toList_eq_nil_iff.1 hliteral.eq_nil
    · cases hs
      rfl
  · intro h
    refine readLiteral_of_literal ?_
    rw [h]
    exact .empty

/-- **Reading a value a second time changes nothing.** -/
theorem ofLiteral_ofLiteral (v : Value) : v.ofLiteral.ofLiteral = v.ofLiteral := by
  cases v with
  | str s =>
    rcases literal_readLiteral s with hliteral | hkept
    · rw [Value.ofLiteral]
      generalize readLiteral s = v at hliteral
      generalize (trim s).toList = cs at hliteral
      cases hliteral with
      | empty =>
        have htrim : trim "" = "" := by decide
        rw [Value.ofLiteral, readLiteral_eq_empty_iff.2 htrim]
      | truth | whole | real => rfl
    · rw [Value.ofLiteral, hkept, Value.ofLiteral, hkept]
  | _ => rfl

/-- A whole number is written without blanks, so trimming leaves it alone. -/
theorem isBlank_repr (k : Int) : ∀ c ∈ (Int.repr k).toList, isBlank c = false :=
  forall_mem_repr (p := fun c => isBlank c = false) (by decide) (by decide) k

/-- **The text of a whole number is read as the number**, whatever blanks are around it. -/
theorem readLiteral_repr {before after : String} {k : Int}
    (hk : (Nat.toDigits 10 k.natAbs).length ≤ Decimal.maxIntDigits)
    (hbefore : ∀ c ∈ before.toList, isBlank c = true)
    (hafter : ∀ c ∈ after.toList, isBlank c = true) :
    readLiteral (before ++ Int.repr k ++ after) = .int k := by
  have htrim : trim (before ++ Int.repr k ++ after) = Int.repr k := by
    rw [← String.toList_inj, toList_trim, String.toList_append, String.toList_append,
      trimBy_append hbefore hafter, trimBy_eq_self_of_forall (isBlank_repr k)]
  have hdigits : Digits (Nat.toDigits 10 k.natAbs) :=
    ⟨Nat.toDigits_ne_nil, fun c hc => isDigit_of_isAsciiDigit (isAsciiDigit_of_mem_toDigits hc)⟩
  refine readLiteral_of_literal ?_
  rw [htrim, toList_repr]
  have hwhole := Literal.whole (decide (k < 0)) hdigits hk
  rwa [spelled_toDigits, signed_natAbs] at hwhole

/-! ## What each kind of literal is read from -/

theorem readLiteral_eq_bool_iff {b : Bool} :
    readLiteral s = .bool b ↔ AnyCase (truthWord b) (trim s).toList := by
  rw [readLiteral_eq_iff_of_ne fun t => by simp]
  generalize (trim s).toList = cs
  constructor
  · rintro ⟨⟩
    assumption
  · exact .truth b

/-- Which texts are read as a given whole number: those with its digits, leading zeros allowed,
and at most a minus in front. -/
theorem readLiteral_eq_int_iff {k : Int} : readLiteral s = .int k ↔
    ∃ negative ds, Digits ds ∧ ds.length ≤ Decimal.maxIntDigits ∧
      (trim s).toList = minus negative ++ ds ∧ k = signed negative (spelled ds) := by
  rw [readLiteral_eq_iff_of_ne fun t => by simp]
  generalize (trim s).toList = cs
  constructor
  · rintro ⟨⟩
    exact ⟨_, _, by assumption, by assumption, rfl, rfl⟩
  · rintro ⟨negative, ds, hds, hlength, rfl, rfl⟩
    exact .whole negative hds hlength

/-- Which texts are read as a given float: those with digits on both sides of a point to which it
is nearest. -/
theorem readLiteral_eq_float_iff {x : Float} : readLiteral s = .float x ↔
    ∃ negative ds es, Digits ds ∧ Digits es ∧
      (trim s).toList = minus negative ++ (ds ++ '.' :: es) ∧ x = nearestReal negative ds es := by
  rw [readLiteral_eq_iff_of_ne fun t => by simp]
  generalize (trim s).toList = cs
  constructor
  · rintro ⟨⟩
    exact ⟨_, _, _, by assumption, by assumption, rfl, rfl⟩
  · rintro ⟨negative, ds, es, hds, hes, rfl, rfl⟩
    exact .real negative hds hes

/-- What is read can be written out. -/
theorem writable_readLiteral (s : String) : (readLiteral s).Writable := by
  rcases literal_readLiteral s with hliteral | hkept
  · generalize (trim s).toList = cs at hliteral
    generalize readLiteral s = v at hliteral
    cases hliteral with
    | whole negative hds hlength =>
      refine Value.writable_int_iff.2 ?_
      rw [natAbs_signed, ← readDigits_eq_spelled]
      exact Nat.le_trans (length_toDigits_readDigits hds.1) hlength
    | empty | truth | real => rfl
  · rw [hkept]
    rfl

/-- A text that is read as none of the other kinds is kept with its blanks. -/
theorem readLiteral_cases (s : String) : trim s = "" ∨ (∃ b, readLiteral s = .bool b) ∨
    (∃ k, readLiteral s = .int k) ∨ (∃ x, readLiteral s = .float x) ∨ readLiteral s = .str s := by
  rcases literal_readLiteral s with hliteral | hkept
  · generalize hcs : (trim s).toList = cs at hliteral
    generalize readLiteral s = v at hliteral
    cases hliteral with
    | empty => exact .inl (String.toList_eq_nil_iff.1 hcs)
    | truth b => exact .inr (.inl ⟨b, rfl⟩)
    | whole => exact .inr (.inr (.inl ⟨_, rfl⟩))
    | real => exact .inr (.inr (.inr (.inl ⟨_, rfl⟩)))
  · exact .inr (.inr (.inr (.inr hkept)))

/-- **The reader of literals takes exactly its grammar, and what it gives is stable.** A text is
read by what stands between the blanks at its ends: nothing is the empty text, a word in any case is
a truth value, digits of any script after an optional minus are the whole number that they spell, at
most 4300 of them, and with a point between them the nearest float; any other text is kept with its
blanks. Reading what was read changes nothing, and the text of a whole number is read as the number
with any blanks around it. -/
theorem readLiteral_exact :
    (∀ s : String, Trimmed s (trim s) ∧
      (readLiteral s = .str "" ↔ trim s = "") ∧
      (∀ b, readLiteral s = .bool b ↔ AnyCase (truthWord b) (trim s).toList) ∧
      (∀ k, readLiteral s = .int k ↔ ∃ negative ds, Digits ds ∧ ds.length ≤ 4300 ∧
        (trim s).toList = minus negative ++ ds ∧ k = signed negative (spelled ds)) ∧
      (∀ x, readLiteral s = .float x ↔ ∃ negative ds es, Digits ds ∧ Digits es ∧
        (trim s).toList = minus negative ++ (ds ++ '.' :: es) ∧ x = nearestReal negative ds es) ∧
      (trim s = "" ∨ (∃ b, readLiteral s = .bool b) ∨ (∃ k, readLiteral s = .int k) ∨
        (∃ x, readLiteral s = .float x) ∨ readLiteral s = .str s)) ∧
    (∀ v : Value, v.ofLiteral.ofLiteral = v.ofLiteral) ∧
    ∀ (k : Int) (before after : String), (Nat.toDigits 10 k.natAbs).length ≤ 4300 →
      (∀ c ∈ before.toList, isBlank c = true) → (∀ c ∈ after.toList, isBlank c = true) →
      ∃ text, Value.toText (.int k) = .ok text ∧ readLiteral (before ++ text ++ after) = .int k := by
  refine ⟨fun s => ⟨trimmed_iff.2 rfl, readLiteral_eq_empty_iff, ?_, ?_, ?_, readLiteral_cases s⟩,
    ofLiteral_ofLiteral, ?_⟩
  · exact fun b => readLiteral_eq_bool_iff
  · exact fun k => readLiteral_eq_int_iff
  · exact fun x => readLiteral_eq_float_iff
  · exact fun k before after hk hbefore hafter =>
      ⟨Int.repr k, Value.toText_int (Value.writable_int_iff.2 hk),
        readLiteral_repr hk hbefore hafter⟩

/-- The text of a negative number between two kinds of blanks. -/
theorem readLiteral_exact_blanks : ∃ text, Value.toText (.int (-12)) = .ok text ∧
    readLiteral (" \t" ++ text ++ "\n") = .int (-12) :=
  readLiteral_exact.2.2 (-12) " \t" "\n" (by decide +kernel) (List.all_eq_true.1 (by decide))
    (List.all_eq_true.1 (by decide))

end BlockProgram
