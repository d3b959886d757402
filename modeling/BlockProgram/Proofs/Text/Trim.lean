import BlockProgram.Text.Blank
import Mathlib.Data.List.DropRight

/-!
# Trimmed texts

Trimming a text cuts off blanks at both ends and nothing else: what is left is bare at both ends,
and the text is what is left between blanks (`Text.trimmed_iff`). So blanks put around a text make
no difference to what is left (`Text.trimBy_append`), and trimming a second time changes nothing
(`Text.trim_trim`).
-/

namespace BlockProgram.Text

variable {blank : Char → Bool} {cs us ws : List Char} {s t : String}

theorem trimBy_eq_rdropWhile (blank : Char → Bool) (cs : List Char) :
    trimBy blank cs = (cs.dropWhile blank).rdropWhile blank := rfl

/-- A text that neither begins nor ends with a blank is left as it is. -/
theorem trimBy_eq_self (h : cs ≠ []) (hhead : blank (cs.head h) = false)
    (hlast : blank (cs.getLast h) = false) : trimBy blank cs = cs := by
  rw [List.head_eq_getElem] at hhead
  rw [trimBy_eq_rdropWhile, List.dropWhile_eq_self_iff.2 fun _ => Bool.eq_false_iff.1 hhead]
  exact List.rdropWhile_eq_self_iff.2 fun _ => Bool.eq_false_iff.1 hlast

theorem trimBy_eq_self_of_forall (h : ∀ c ∈ cs, blank c = false) : trimBy blank cs = cs := by
  by_cases hnil : cs = []
  · rw [hnil]
    rfl
  · exact trimBy_eq_self hnil (h _ (List.head_mem hnil)) (h _ (List.getLast_mem hnil))

/-- What is left neither begins nor ends with a blank. -/
theorem trimBy_ends (h : trimBy blank cs ≠ []) :
    blank ((trimBy blank cs).head h) = false ∧ blank ((trimBy blank cs).getLast h) = false := by
  refine ⟨?_, Bool.eq_false_iff.2 (List.rdropWhile_last_not blank _ h)⟩
  -- cutting at the end leaves the beginning as it is
  have hcut : trimBy blank cs <+: cs.dropWhile blank := List.rdropWhile_prefix blank _
  rw [hcut.head h]
  exact List.head_dropWhile_not blank _

theorem trimBy_trimBy (blank : Char → Bool) (cs : List Char) :
    trimBy blank (trimBy blank cs) = trimBy blank cs := by
  by_cases hnil : trimBy blank cs = []
  · rw [hnil]
    rfl
  · obtain ⟨hhead, hlast⟩ := trimBy_ends hnil
    exact trimBy_eq_self hnil hhead hlast

theorem rdropWhile_append_of_pos (hws : ∀ c ∈ ws, blank c = true) :
    (cs ++ ws).rdropWhile blank = cs.rdropWhile blank := by
  rw [List.rdropWhile, List.reverse_append,
    List.dropWhile_append_of_pos fun c hc => hws c (List.mem_reverse.1 hc)]
  rfl

/-- Blanks around a text are cut off together with its own. -/
theorem trimBy_append (hus : ∀ c ∈ us, blank c = true) (hws : ∀ c ∈ ws, blank c = true) :
    trimBy blank (us ++ cs ++ ws) = trimBy blank cs := by
  rw [trimBy_eq_rdropWhile, trimBy_eq_rdropWhile, List.append_assoc,
    List.dropWhile_append_of_pos hus, List.dropWhile_append]
  split
  · rename_i hcs
    -- nothing is left of a text of blanks, and nothing of the blanks after it
    rw [List.isEmpty_iff.1 hcs, List.dropWhile_eq_nil_iff.2 hws]
  · exact rdropWhile_append_of_pos hws

/-- What is cut off at the two ends are blanks. -/
theorem exists_trimBy (blank : Char → Bool) (cs : List Char) :
    ∃ us ws, cs = us ++ trimBy blank cs ++ ws ∧ ∀ c ∈ us ++ ws, blank c = true := by
  refine ⟨cs.takeWhile blank, (cs.dropWhile blank).rtakeWhile blank, ?_, ?_⟩
  · rw [trimBy_eq_rdropWhile, List.append_assoc, List.rdropWhile_append_rtakeWhile,
      List.takeWhile_append_dropWhile]
  · intro c hc
    rcases List.mem_append.1 hc with hc | hc
    · exact List.mem_takeWhile_imp hc
    · exact List.mem_rtakeWhile_imp hc

theorem toList_trim (s : String) : (trim s).toList = trimBy isBlank s.toList :=
  String.toList_ofList

/-- Trimming twice is trimming once. -/
theorem trim_trim (s : String) : trim (trim s) = trim s := by
  rw [trim, toList_trim, trimBy_trimBy]
  rfl

/-- A text has the characters of another one between blanks, and neither begins nor ends with a
blank. -/
structure Trimmed (s t : String) : Prop where
  between : ∃ us ws, s.toList = us ++ t.toList ++ ws ∧ ∀ c ∈ us ++ ws, isBlank c = true
  head : ∀ c ∈ t.toList.head?, isBlank c = false
  last : ∀ c ∈ t.toList.getLast?, isBlank c = false

/-- **What is left of a text is what stands between the blanks at its ends.** -/
theorem trimmed_iff : Trimmed s t ↔ t = trim s := by
  constructor
  · rintro ⟨⟨us, ws, hs, hblank⟩, hhead, hlast⟩
    rw [← String.toList_inj, toList_trim, hs,
      trimBy_append (fun c hc => hblank c (List.mem_append_left _ hc))
        fun c hc => hblank c (List.mem_append_right _ hc)]
    by_cases hnil : t.toList = []
    · rw [hnil]
      rfl
    · exact (trimBy_eq_self hnil (hhead _ (List.head_mem_head? hnil))
        (hlast _ (List.getLast_mem_getLast? hnil))).symm
  · rintro rfl
    refine ⟨?_, ?_, ?_⟩
    · rw [toList_trim]
      exact exists_trimBy isBlank s.toList
    · intro c hc
      rw [toList_trim] at hc
      rw [← List.head_of_mem_head? hc]
      exact (trimBy_ends _).1
    · intro c hc
      rw [toList_trim] at hc
      obtain ⟨hne, rfl⟩ := List.mem_getLast?_eq_getLast hc
      exact (trimBy_ends hne).2

end BlockProgram.Text
