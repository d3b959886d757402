import BlockProgram.Proofs.Text.Digit
import BlockProgram.Value.Written
import Mathlib.Algebra.BigOperators.Group.List.Basic

/-!
# Written values stand on one line

However many line breaks there are in the texts that a value holds, there is none in its written form
(`Value.occurs_written`): between quotes a line break is escaped (`Text.occurs_quote`), and numbers
are written with digits, signs, a point and the letter `e` (`Layout.occurs_textOf`), or by name.

Characters are counted by `Text.occurs`. A text has one line more than line breaks
(`Text.lineCount_eq`).
-/

namespace BlockProgram

namespace Text

variable {c : Char} {s t : String} {parts : List String}

/-- How often a character occurs in a text. -/
def occurs (c : Char) (s : String) : Nat := s.toList.count c

/-- The number of lines of a text. -/
def lineCount (s : String) : Nat := (s.toList.splitOn '\n').length

/-! ## Counting characters -/

@[simp] theorem occurs_append (c : Char) (s t : String) :
    occurs c (s ++ t) = occurs c s + occurs c t := by
  rw [occurs, String.toList_append, List.count_append]
  rfl

@[simp] theorem occurs_ofList (c : Char) (cs : List Char) :
    occurs c (String.ofList cs) = cs.count c := by
  rw [occurs, String.toList_ofList]

theorem occurs_eq_zero : occurs c s = 0 ↔ c ∉ s.toList := List.count_eq_zero

/-- In parts that are joined a character occurs as often as in the parts, if it does not occur in
what is put between them. -/
theorem occurs_joined (separator : String) (parts : List String) : occurs c (joined separator parts) =
    (parts.map (occurs c)).sum + (parts.length - 1) * occurs c separator := by
  induction parts with
  | nil => simp [joined, occurs]
  | cons s rest ih =>
    rcases rest with _ | ⟨t, rest⟩
    · simp [joined]
    · have hjoined : joined separator (s :: t :: rest) =
          s ++ separator ++ joined separator (t :: rest) := String.intercalate_cons_cons
      rw [hjoined, occurs_append, occurs_append, ih]
      simp only [List.map_cons, List.sum_cons, List.length_cons, Nat.add_sub_cancel, Nat.add_mul,
        Nat.one_mul]
      omega

theorem occurs_joined_eq_zero (hseparator : occurs c s = 0) (hparts : ∀ t ∈ parts, occurs c t = 0) :
    occurs c (joined s parts) = 0 := by
  rw [occurs_joined, hseparator, Nat.mul_zero, Nat.add_zero, List.sum_eq_zero]
  intro n hn
  obtain ⟨t, ht, rfl⟩ := List.mem_map.1 hn
  exact hparts t ht

/-- **A text has one line more than line breaks.** -/
theorem lineCount_eq (s : String) : lineCount s = occurs '\n' s + 1 := by
  rw [lineCount, occurs]
  induction s.toList with
  | nil => rfl
  | cons c rest ih =>
    rw [List.splitOn_cons_eq_if_modifyHead, List.count_cons]
    split
    · rw [List.length_cons, ih]
    · rw [List.length_modifyHead, ih]

/-- Lines that are joined can be taken apart. -/
theorem splitOn_joined {lines : List String} (hne : lines ≠ [])
    (hlines : ∀ s ∈ lines, occurs '\n' s = 0) :
    (joined "\n" lines).toList.splitOn '\n' = lines.map String.toList := by
  have hbetween : "\n".toList = ['\n'] := rfl
  rw [joined, String.toList_intercalate, hbetween]
  refine List.splitOn_intercalate '\n' ?_ (List.map_eq_nil_iff.not.2 hne)
  exact List.forall_mem_map.2 fun s hs => occurs_eq_zero.1 (hlines s hs)

/-! ## Quoted texts -/

theorem newline_not_mem_toDigits {base n : Nat} (hbase : 1 < base) :
    '\n' ∉ Nat.toDigits base n := by
  induction n using Nat.strongRecOn with
  | ind n ih =>
    rcases Nat.lt_or_ge n base with hsmall | hlarge
    · rw [Nat.toDigits_of_lt_base hsmall]
      simp
    · rw [Nat.toDigits_of_base_le hbase hlarge, List.mem_append, not_or]
      refine ⟨ih (n / base) (Nat.div_lt_self (by omega) hbase), ?_⟩
      simp

theorem newline_not_mem_hex (width n : Nat) : '\n' ∉ hex width n := by
  rw [hex, List.mem_append, not_or]
  exact ⟨by simp, newline_not_mem_toDigits (by decide)⟩

/-- No character is written as a line break between quotes. -/
theorem newline_not_mem_quoteChar {quote : Char} (hquote : quote ≠ '\n') (c : Char) :
    '\n' ∉ quoteChar quote c := by
  simp only [quoteChar]
  split
  · rename_i hescaped
    rw [Bool.or_eq_true, beq_iff_eq, beq_iff_eq] at hescaped
    rcases hescaped with rfl | rfl
    · simpa using hquote.symm
    · decide
  · split
    · decide
    · rename_i hc
      rw [beq_iff_eq] at hc
      split
      · decide
      · split
        · decide
        · split
          · simpa using Ne.symm hc
          · have hhex := newline_not_mem_hex
            split
            · simpa using hhex 2 c.toNat
            · split
              · simpa using hhex 4 c.toNat
              · simpa using hhex 8 c.toNat

/-- **A quoted text stands on one line.** -/
theorem occurs_quote (s : String) : occurs '\n' (quote s) = 0 := by
  have hmark : quoteMark s.toList ≠ '\n' := by
    rw [quoteMark]
    split <;> decide
  rw [quote, occurs_ofList, List.count_eq_zero]
  intro h
  rcases List.mem_cons.1 h with heq | h
  · exact hmark heq.symm
  · rcases List.mem_append.1 h with h | h
    · obtain ⟨c, -, hc⟩ := List.mem_flatMap.1 h
      exact newline_not_mem_quoteChar hmark c hc
    · exact hmark (List.mem_singleton.1 h).symm

end Text

open Text

/-! ## Numbers -/

namespace Layout

theorem occurs_exponent (l : Layout) (e : Int) : occurs '\n' (l.exponent e) = 0 := by
  have hdigits : '\n' ∉ (Nat.repr e.natAbs).toList := by
    rw [Nat.toList_repr]
    exact newline_not_mem_toDigits (by decide)
  have hsign : occurs '\n' (if e < 0 then "-" else if l.plusSign then "+" else "") = 0 := by
    split
    · rfl
    · split <;> rfl
  simp only [exponent, occurs_append, hsign, occurs_ofList, occurs_eq_zero.2 hdigits]
  simp [List.count_replicate]
  rfl

theorem occurs_magnitude (l : Layout) (n : Nat) (place : Int) :
    occurs '\n' (l.magnitude n place) = 0 := by
  have hdigits : '\n' ∉ Nat.toDigits 10 n := newline_not_mem_toDigits (by decide)
  simp only [magnitude]
  split
  · split
    · rw [occurs_append, occurs_ofList, List.count_append, List.count_eq_zero.2 hdigits]
      simp [List.count_replicate]
      rfl
    · split
      · rw [occurs_ofList, List.count_eq_zero]
        intro h
        rcases List.mem_append.1 h with h | h
        · exact hdigits (List.mem_of_mem_take h)
        · exact hdigits (List.mem_of_mem_drop (by simpa using h))
      · rw [occurs_ofList, List.count_eq_zero]
        simpa using hdigits
  · rw [occurs_append, occurs_exponent, occurs_ofList, Nat.add_zero, List.count_eq_zero]
    rcases hds : Nat.toDigits 10 n with _ | ⟨d, _ | ⟨d', rest⟩⟩
    · exact List.not_mem_nil
    · rwa [hds] at hdigits
    · rw [hds] at hdigits
      simpa using hdigits

theorem occurs_textOf (x : Float) : occurs '\n' (textOf x) = 0 := by
  rw [textOf, SpecialNames.write]
  split
  · rename_i s hs
    obtain ⟨p, -, rfl⟩ := Option.map_eq_some_iff.1 hs
    have hsign : occurs '\n' (if p.negative then "-" else "") = 0 := by
      split <;> rfl
    by_cases hzero : p.mantissa = 0
    · simp only [if_pos hzero, occurs_append, hsign]
      rfl
    · simp only [if_neg hzero, occurs_append, hsign, occurs_magnitude]
  · split
    · rfl
    · split <;> rfl

end Layout

/-! ## Values -/

theorem Text.occurs_repr (n : Int) : occurs '\n' (Int.repr n) = 0 := by
  rw [occurs, toList_repr, List.count_append,
    List.count_eq_zero.2 (newline_not_mem_toDigits (by decide)), minus]
  split <;> rfl

namespace Value

mutual

/-- **A written value stands on one line.** -/
theorem occurs_written : ∀ v : Value, occurs '\n' v.written = 0
  | .null => by
    change occurs '\n' "None" = 0
    rfl
  | .bool true => by
    change occurs '\n' "True" = 0
    rfl
  | .bool false => by
    change occurs '\n' "False" = 0
    rfl
  | .int n => occurs_repr n
  | .float x => Layout.occurs_textOf x
  | .str s => occurs_quote s
  | .list items => by
    change occurs '\n' ("[" ++ joined ", " (writtenItems items) ++ "]") = 0
    rw [occurs_append, occurs_append, occurs_joined_eq_zero rfl (occurs_writtenItems items)]
    rfl
  | .dict entries => by
    change occurs '\n' ("\x7b" ++ joined ", " (writtenEntries entries) ++ "\x7d") = 0
    rw [occurs_append, occurs_append, occurs_joined_eq_zero rfl (occurs_writtenEntries entries)]
    rfl
  | .ref block => by
    change occurs '\n' ("InputRef(block_id=" ++ quote block ++ ")") = 0
    rw [occurs_append, occurs_append, occurs_quote]
    rfl

theorem occurs_writtenItems : ∀ items : List Value, ∀ s ∈ writtenItems items, occurs '\n' s = 0
  | [], _, h => by cases h
  | item :: rest, s, h => by
    rcases List.mem_cons.1 h with rfl | h
    · exact occurs_written item
    · exact occurs_writtenItems rest s h

theorem occurs_writtenEntries : ∀ entries : List (Value × Value),
    ∀ s ∈ writtenEntries entries, occurs '\n' s = 0
  | [], _, h => by cases h
  | (key, value) :: rest, s, h => by
    rcases List.mem_cons.1 h with rfl | h
    · rw [occurs_append, occurs_append, occurs_written key, occurs_written value]
      rfl
    · exact occurs_writtenEntries rest s h

end

end Value

end BlockProgram
