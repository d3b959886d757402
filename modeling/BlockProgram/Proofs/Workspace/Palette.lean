import BlockProgram.Proofs.Text.Trim
import BlockProgram.Proofs.Value.Dict
import BlockProgram.Proofs.Workspace.Invariant
import Mathlib.Data.List.Nodup
import Mathlib.Data.List.Perm.Subperm

/-!
# The names of variables

The variables of every workspace have names of their own, which are trimmed and not blank
(`Workspace.Labelled`). A new variable has the name that is asked for, or this name with a number
after it:

* a number in parentheses leaves the ends of a name free of blanks (`Text.trim_numberedName`);
* among one more numbered names than there are names taken, one is free, since no two of them are the
  same (`Workspace.freeName_not_mem`).

So the variables that a run starts with are those of the palette, one entry for each
(`Workspace.initialVars_eq`), and storing a value under the name of one changes its entry and no
other (`Workspace.setNamed_initialVars`).
-/

namespace BlockProgram

/-! ## Numbered names -/

namespace Text

variable {s : String}

theorem toList_numberedName (name : String) (n : Nat) : (Workspace.numberedName name n).toList =
    name.toList ++ ' ' :: '(' :: ((Nat.repr n).toList ++ [')']) := by
  simp [Workspace.numberedName]

/-- A number after a trimmed name leaves it trimmed. -/
theorem trim_numberedName (h : trim s = s) (hs : s ≠ "") (n : Nat) :
    trim (Workspace.numberedName s n) = Workspace.numberedName s n := by
  have hne : trimBy isBlank s.toList ≠ [] := by
    rwa [← toList_trim, h, ne_eq, String.toList_eq_nil_iff]
  have hhead := (trimBy_ends hne).1
  simp only [← toList_trim, h] at hhead
  have hkept : trimBy isBlank (Workspace.numberedName s n).toList =
      (Workspace.numberedName s n).toList := by
    have hnumbered : (Workspace.numberedName s n).toList ≠ [] := by
      simp [toList_numberedName]
    refine trimBy_eq_self hnumbered ?_ ?_
    · simp only [toList_numberedName, List.head_append_of_ne_nil (mt String.toList_eq_nil_iff.1 hs)]
      exact hhead
    · simp only [toList_numberedName]
      simp
      decide
  rw [trim, hkept, String.ofList_toList]

end Text

namespace Workspace

variable {ws ws' : Workspace} {taken : List String} {name : String}

/-! ## Free names -/

theorem numberedName_injective (name : String) : Function.Injective (numberedName name) := by
  intro m n h
  have hdigits := congrArg String.toList h
  simp only [Text.toList_numberedName, List.append_cancel_left_eq, List.cons.injEq, true_and,
    List.append_cancel_right_eq, Nat.toList_repr] at hdigits
  -- the digits of a number read as this number
  have hread := congrArg (fun digits => Nat.ofDigitChars 10 digits 0) hdigits
  simpa using hread

/-- If the name that is found is taken, so are all that were tried. -/
theorem mem_of_firstFree_mem {fuel n : Nat} (h : firstFree taken name fuel n ∈ taken) :
    ∀ k ≤ fuel, numberedName name (n + k) ∈ taken := by
  induction fuel generalizing n with
  | zero =>
    intro k hk
    rw [Nat.le_zero.1 hk]
    exact h
  | succ fuel ih =>
    rw [firstFree] at h
    split at h
    · rename_i hn
      intro k hk
      rcases k with _ | k
      · exact List.contains_iff_mem.1 hn
      · have hlater := ih h k (Nat.le_of_succ_le_succ hk)
        rwa [Nat.add_right_comm] at hlater
    · rename_i hn
      exact absurd (List.contains_iff_mem.2 h) hn

/-- **The free name is free**: there are more names to try than names taken. -/
theorem freeName_not_mem (taken : List String) (name : String) : freeName taken name ∉ taken := by
  rw [freeName]
  split
  · intro htaken
    have htried := mem_of_firstFree_mem htaken
    have hsubset : (List.range (taken.length + 1)).map (fun k => numberedName name (2 + k)) ⊆
        taken := by
      intro s hs
      obtain ⟨k, hk, rfl⟩ := List.mem_map.1 hs
      exact htried k (Nat.lt_succ_iff.1 (List.mem_range.1 hk))
    have hnodup : ((List.range (taken.length + 1)).map
        fun k => numberedName name (2 + k)).Nodup := by
      refine List.nodup_range.map fun k l hkl => ?_
      exact Nat.add_left_cancel (numberedName_injective name hkl)
    have hlength := (hnodup.subperm hsubset).length_le
    rw [List.length_map, List.length_range] at hlength
    exact Nat.not_succ_le_self _ hlength
  · rename_i hfree
    exact fun hmem => hfree (List.contains_iff_mem.2 hmem)

theorem firstFree_eq (taken : List String) (name : String) (fuel n : Nat) :
    ∃ k, firstFree taken name fuel n = numberedName name k := by
  induction fuel generalizing n with
  | zero => exact ⟨n, rfl⟩
  | succ fuel ih =>
    rw [firstFree]
    split
    · exact ih (n + 1)
    · exact ⟨n, rfl⟩

/-- A free name is the name asked for, perhaps with a number. -/
theorem freeName_eq (taken : List String) (name : String) :
    freeName taken name = name ∨ ∃ n, freeName taken name = numberedName name n := by
  rw [freeName]
  split
  · exact .inr (firstFree_eq _ _ _ _)
  · exact .inl rfl

/-- Like the name asked for, it is trimmed and not blank. -/
theorem trim_freeName (h : Text.trim name = name) (hne : name ≠ "") (taken : List String) :
    freeName taken name ≠ "" ∧ Text.trim (freeName taken name) = freeName taken name := by
  rcases freeName_eq taken name with hname | ⟨n, hname⟩
  · rw [hname]
    exact ⟨hne, h⟩
  · rw [hname]
    refine ⟨fun hempty => ?_, Text.trim_numberedName h hne n⟩
    have hlist := congrArg String.toList hempty
    simp [Text.toList_numberedName] at hlist

/-! ## The palette -/

/-- The variables have names of their own, which are trimmed and not blank. -/
structure Labelled (palette : List Variable) : Prop where
  distinct : (palette.map (·.name)).Nodup
  named : ∀ v ∈ palette, v.name ≠ "" ∧ Text.trim v.name = v.name

theorem Labelled.createVariable (h : Labelled ws.palette) (name : String) (initial : Value) :
    Labelled (ws.createVariable name initial).2.palette := by
  simp only [Workspace.createVariable]
  split
  · exact h
  · rename_i hblank
    obtain ⟨hdistinct, hnamed⟩ := h
    have hfree := freeName_not_mem (ws.palette.map (·.name)) (Text.trim name)
    refine ⟨?_, fun v hv => ?_⟩
    · rw [List.map_append]
      refine List.nodup_append.2 ⟨hdistinct, List.pairwise_singleton _ _, ?_⟩
      rintro other hother _ hnew rfl
      rw [List.mem_singleton.1 hnew] at hother
      exact hfree hother
    · rcases List.mem_append.1 hv with hv | hv
      · exact hnamed v hv
      · have hclean : Text.trim name ≠ "" := by simpa using hblank
        rw [List.mem_singleton.1 hv]
        exact trim_freeName (Text.trim_trim name) hclean _

theorem Labelled.relabels (h : Labelled ws.palette) {palette : List Variable}
    (hchange : ws.Relabels palette) : Labelled palette := by
  cases hchange with
  | same => exact h
  | created name initial => exact h.createVariable name initial
  | deleted id =>
    obtain ⟨hdistinct, hnamed⟩ := h
    refine ⟨hdistinct.sublist (List.filter_sublist.map _), fun v hv => ?_⟩
    exact hnamed v (List.mem_of_mem_filter hv)

theorem palette_deleteBlock (ws : Workspace) (id : String) :
    (ws.deleteBlock id).2.palette = ws.palette := by
  rcases deleteBlock_cases ws id with hsame | hgone | ⟨above, below, -, -, hjoined⟩
  · rw [hsame]
  · rw [hgone]
    rfl
  · rw [hjoined]
    rfl

/-- **The variables of every workspace have names of their own.** -/
theorem ReachableBy.labelled {may : Workspace → Request → Prop} (h : ReachableBy may ws) :
    Labelled ws.palette := by
  refine holds_of_reachableBy (I := fun ws => Labelled ws.palette) ⟨List.nodup_nil, nofun⟩ ?_
    (fun h _ => h) h
  intro ws ws' h hchange
  cases hchange with
  | keep _ _ hpalette => exact h.relabels hpalette
  | delete id => rwa [palette_deleteBlock]
  | _ => exact h

/-! ## What a run starts with -/

/-- The variables of a palette by name, with one of them at another value. -/
def varsWith (ws : Workspace) (v : Variable) (value : Value) : Dict :=
  ws.palette.map fun u => (.str u.name, if u.name = v.name then value else u.initial)

/-- **A run starts with one entry for each variable.** -/
theorem initialVars_eq (h : Labelled ws.palette) :
    ws.initialVars = ws.palette.map fun v => (.str v.name, v.initial) := by
  refine Dict.ofEntries_eq ?_
  rw [List.pairwise_map]
  refine (List.pairwise_map.1 h.distinct).imp fun hne => Bool.eq_false_iff.2 ?_
  exact mt Value.sameKey_str.1 (by simpa using hne)

theorem named?_map_of_mem {palette : List Variable} (h : (palette.map (·.name)).Nodup)
    {v : Variable} (hv : v ∈ palette) :
    Dict.named? (palette.map fun v => (.str v.name, v.initial)) v.name = some v.initial := by
  induction palette with
  | nil => cases hv
  | cons u rest ih =>
    obtain ⟨hu, hrest⟩ := List.nodup_cons.1 h
    rw [List.map_cons]
    rcases List.mem_cons.1 hv with rfl | hv
    · exact Dict.named?_cons_self _
    · have hne : Value.str u.name ≠ .str v.name := by
        intro hname
        injection hname with hname
        exact hu (List.mem_map.2 ⟨v, hv, hname.symm⟩)
      rw [Dict.named?_cons_of_ne _ hne]
      exact ih hrest hv

/-- Under the name of a variable a run finds its value. -/
theorem named?_initialVars (h : Labelled ws.palette) {v : Variable} (hv : v ∈ ws.palette) :
    Dict.named? ws.initialVars v.name = some v.initial := by
  rw [initialVars_eq h]
  exact named?_map_of_mem h.distinct hv

theorem setNamed_map_of_mem {palette : List Variable} (h : (palette.map (·.name)).Nodup)
    {v : Variable} (hv : v ∈ palette) (value : Value) :
    Dict.setNamed (palette.map fun v => (.str v.name, v.initial)) v.name value =
      palette.map fun u => (.str u.name, if u.name = v.name then value else u.initial) := by
  induction palette with
  | nil => cases hv
  | cons u rest ih =>
    obtain ⟨hu, hrest⟩ := List.nodup_cons.1 h
    rw [List.map_cons, List.map_cons]
    rcases List.mem_cons.1 hv with rfl | hv
    · rw [Dict.setNamed_cons_self, if_pos rfl]
      refine congrArg _ (List.map_congr_left fun w hw => ?_)
      rw [if_neg fun hname => hu (List.mem_map.2 ⟨w, hw, hname⟩)]
    · have hne : u.name ≠ v.name := fun hname => hu (List.mem_map.2 ⟨v, hv, hname.symm⟩)
      rw [Dict.setNamed_cons_of_ne _ (by simpa using hne), if_neg hne, ih hrest hv]

/-- A value that is stored under the name of a variable takes the place of its value. -/
theorem setNamed_initialVars (h : Labelled ws.palette) {v : Variable} (hv : v ∈ ws.palette)
    (value : Value) : Dict.setNamed ws.initialVars v.name value = ws.varsWith v value := by
  rw [initialVars_eq h]
  exact setNamed_map_of_mem h.distinct hv value

end Workspace

end BlockProgram
