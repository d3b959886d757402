import BlockProgram.Proofs.Workspace.Palette

/-!
# How a new variable is named

A new variable gets the name that is asked for, without the blanks around it. If a variable has this
name already, it gets the name with the least number from two upward that makes it free
(`Workspace.NamedAfter`). The search for this number tries one number after the other
(`Workspace.exists_firstFree`) and comes to a free one (`Workspace.freeName_not_mem`), so the name is
the right one (`Workspace.namedAfter_freeName`).

With what holds of every palette this says all about the variables of a workspace
(`Workspace.variables_of_reachableBy`).
-/

namespace BlockProgram

namespace Workspace

variable {ws : Workspace} {taken : List String} {name : String}

/-- The first name of those in a row that is free: the ones before it are taken. -/
theorem exists_firstFree (taken : List String) (name : String) (fuel n : Nat) :
    ∃ k, n ≤ k ∧ firstFree taken name fuel n = numberedName name k ∧
      ∀ j, n ≤ j → j < k → numberedName name j ∈ taken := by
  induction fuel generalizing n with
  | zero => exact ⟨n, Nat.le_refl n, rfl, fun j hn hk => absurd hk (Nat.not_lt.2 hn)⟩
  | succ fuel ih =>
    rw [firstFree]
    split
    · rename_i htaken
      obtain ⟨k, hk, hname, hbefore⟩ := ih (n + 1)
      refine ⟨k, Nat.le_of_succ_le hk, hname, fun j hn hjk => ?_⟩
      rcases Nat.eq_or_lt_of_le hn with rfl | hlt
      · exact List.contains_iff_mem.1 htaken
      · exact hbefore j hlt hjk
    · exact ⟨n, Nat.le_refl n, rfl, fun j hn hk => absurd hk (Nat.not_lt.2 hn)⟩

/-- A text is free, and it is the name asked for or, if this is taken, the name with the least
number from two upward that makes it free. -/
structure NamedAfter (taken : List String) (name s : String) : Prop where
  free : s ∉ taken
  asked : name ∉ taken → s = name
  numbered : name ∈ taken → ∃ n, 2 ≤ n ∧ s = numberedName name n ∧
    ∀ k, 2 ≤ k → k < n → numberedName name k ∈ taken

/-- **A free name is the one asked for, with the least number that it needs.** -/
theorem namedAfter_freeName (taken : List String) (name : String) :
    NamedAfter taken name (freeName taken name) := by
  refine ⟨freeName_not_mem taken name, fun hfree => ?_, fun htaken => ?_⟩
  · rw [freeName, if_neg (mt List.contains_iff_mem.1 hfree)]
  · rw [freeName, if_pos (List.contains_iff_mem.2 htaken)]
    obtain ⟨n, hn, hname, hbefore⟩ := exists_firstFree taken name taken.length 2
    exact ⟨n, hn, hname, hbefore⟩

theorem createVariable_blank (ws : Workspace) (hblank : Text.trim name = "") (initial : Value) :
    ws.createVariable name initial = (none, ws) := by
  rw [createVariable, hblank]
  rfl

/-- A name that is not blank adds a variable at the end. -/
theorem createVariable_clean (ws : Workspace) (hclean : Text.trim name ≠ "") (initial : Value) :
    ∃ v : Variable, ws.createVariable name initial =
      (some v, { ws with palette := ws.palette ++ [v], issued := ws.issued + 1 }) ∧
      v.initial = initial ∧ v.name = freeName (ws.palette.map (·.name)) (Text.trim name) := by
  have hkept : (Text.trim name).isEmpty = false := by simpa using hclean
  refine ⟨⟨(ws.freshId "var_").1, freeName (ws.palette.map (·.name)) (Text.trim name), initial⟩,
    ?_, rfl, rfl⟩
  rw [createVariable, hkept]
  rfl

theorem perform_createVariable (ws : Workspace) (name : String) (initial : Value) :
    (Request.createVariable (.str name) initial).perform ws =
      (.ok (Request.variableAnswer (ws.createVariable name initial).1),
        (ws.createVariable name initial).2) := by
  have hname : Edit.lift (Request.nameText (.str name)) ws = (.ok name, ws) := rfl
  have hchange (f : Workspace → Option Variable × Workspace) :
      Edit.change f ws = (.ok (f ws).1, (f ws).2) := rfl
  simp only [Request.perform]
  rw [Edit.bind_ok hname, Edit.bind_ok (hchange _)]
  rfl

/-- **The names of variables are their own, trimmed and the nearest to what was asked for.** After
any requests, the variables have distinct names, none of them blank and none with a blank at an end,
and a run starts with one entry for each, its value under its name. A new variable that is asked for
comes last, at the value given and under the trimmed name, or if that is taken, under the trimmed
name with the least number from two upward that makes it free; a blank name changes nothing. -/
theorem variables_of_reachableBy {may : Workspace → Request → Prop} (h : ReachableBy may ws) :
    (ws.palette.map (·.name)).Nodup ∧
    (∀ v ∈ ws.palette, v.name ≠ "" ∧ Text.Trimmed v.name v.name) ∧
    (ws.initialVars = ws.palette.map fun v => (.str v.name, v.initial)) ∧
    ∀ name clean initial, Text.Trimmed name clean →
      (clean = "" →
        (Request.createVariable (.str name) initial).perform ws = (.ok .null, ws)) ∧
      (clean ≠ "" → ∃ v : Variable,
        (Request.createVariable (.str name) initial).perform ws =
          (.ok (Request.variableAnswer (some v)),
            { ws with palette := ws.palette ++ [v], issued := ws.issued + 1 }) ∧
        v.initial = initial ∧ NamedAfter (ws.palette.map (·.name)) clean v.name) := by
  have hlabelled := h.labelled
  refine ⟨hlabelled.distinct, fun v hv => ?_, initialVars_eq hlabelled,
    fun name clean initial hclean => ?_⟩
  · obtain ⟨hne, htrim⟩ := hlabelled.named v hv
    exact ⟨hne, Text.trimmed_iff.2 htrim.symm⟩
  · obtain rfl := Text.trimmed_iff.1 hclean
    rw [perform_createVariable]
    refine ⟨fun hblank => ?_, fun hne => ?_⟩
    · rw [createVariable_blank ws hblank]
      rfl
    · obtain ⟨v, hcreated, hinitial, hname⟩ := createVariable_clean ws hne initial
      refine ⟨v, by rw [hcreated], hinitial, ?_⟩
      rw [hname]
      exact namedAfter_freeName _ _

/-- Three variables are asked for by one name, and the second one is deleted. -/
def scores : Workspace :=
  let ws := ((Request.createVariable (.str "score") (.int 1)).perform {}).2
  let ws := ((Request.createVariable (.str " score") (.int 2)).perform ws).2
  let ws := ((Request.createVariable (.str "score ") (.int 3)).perform ws).2
  ((Request.deleteVariable (.str "var_0000000002")).perform ws).2

/-- The next one has the number that has become free. -/
theorem variables_scores : Reachable scores ∧
    scores.palette.map (·.name) = ["score", "score (3)"] ∧ Text.Trimmed "\tscore\n" "score" ∧
    ∃ v : Variable, ((Request.createVariable (.str "\tscore\n") .null).perform scores).2.palette =
      scores.palette ++ [v] ∧ NamedAfter ["score", "score (3)"] "score" v.name ∧
      v.name = "score (2)" := by
  have hempty : Reachable {} := @ReachableBy.drawn _ {} {} 0 rfl
  have hdrawn : Reachable scores :=
    .asked (.asked (.asked (.asked hempty trivial) trivial) trivial) trivial
  have hnames : scores.palette.map (·.name) = ["score", "score (3)"] := by
    with_unfolding_all rfl
  have htrimmed : Text.Trimmed "\tscore\n" "score" := Text.trimmed_iff.2 (by with_unfolding_all rfl)
  obtain ⟨-, -, -, hcreate⟩ := variables_of_reachableBy hdrawn
  obtain ⟨v, hcreated, -, hnamed⟩ := (hcreate "\tscore\n" "score" .null htrimmed).2 (by decide)
  rw [hnames] at hnamed
  refine ⟨hdrawn, hnames, htrimmed, v, by rw [hcreated], hnamed, ?_⟩
  obtain ⟨n, hn, hname, hbefore⟩ := hnamed.numbered (by decide)
  rcases Nat.eq_or_lt_of_le hn with rfl | hlt
  · exact hname
  · -- the number two is free
    exact absurd (hbefore 2 (Nat.le_refl 2) hlt) (by with_unfolding_all decide)

end Workspace

end BlockProgram
