import BlockProgram.Json.Reader
import BlockProgram.Proofs.Json.Number
import BlockProgram.Proofs.Value.Dict

/-!
# What a document can hold

Not every value can be read from a document. A document has no references, its whole numbers have
not too many digits, the keys of its dictionaries are texts, each of which occurs once, and its
containers are nested only so deep. A value of this kind is **readable** within the limits of a reader
(`Json.Readable`), and whatever the reader of this library gives is (`Json.readable_document?`).
-/

namespace BlockProgram

/-! ## Keys that are names -/

namespace Dict

/-- A dictionary whose keys are texts, no two of them the same. -/
def Named (d : Dict) : Prop := ∃ names : List String, names.Nodup ∧ d.map (·.1) = names.map .str

variable {d : Dict} {v : Value}

theorem Named.exists_name (h : Named d) : ∀ entry ∈ d, ∃ name, entry.1 = .str name := by
  obtain ⟨names, -, hkeys⟩ := h
  intro entry hentry
  have hkey : entry.1 ∈ names.map Value.str := hkeys ▸ List.mem_map_of_mem hentry
  obtain ⟨name, -, hname⟩ := List.mem_map.1 hkey
  exact ⟨name, hname.symm⟩

theorem Named.ofEntries_eq (h : Named d) : ofEntries d = d := by
  obtain ⟨names, hnodup, hkeys⟩ := h
  have hdistinct : (d.map (·.1)).Pairwise fun key key' => key.sameKey key' = false := by
    rw [hkeys, List.pairwise_map]
    exact hnodup.imp fun hne => by simpa [Value.sameKey] using hne
  exact Dict.ofEntries_eq (List.pairwise_map.1 hdistinct)

theorem map_fst_insert (d : Dict) (key v : Value) :
    (insert d key v).map (·.1) =
      if contains d key then d.map (·.1) else d.map (·.1) ++ [key] := by
  induction d with
  | nil => rfl
  | cons entry rest ih =>
    simp only [insert, contains, List.any_cons, List.map_cons]
    by_cases hkey : entry.1.sameKey key
    · simp [hkey]
    · rw [if_neg hkey, List.map_cons, ih, Bool.eq_false_iff.2 hkey, Bool.false_or, contains]
      split <;> rfl

theorem Named.insert (h : Named d) (name : String) (v : Value) :
    Named (insert d (.str name) v) := by
  obtain ⟨names, hnodup, hkeys⟩ := h
  rw [Named, map_fst_insert]
  split
  · exact ⟨names, hnodup, hkeys⟩
  · rename_i hnew
    refine ⟨names ++ [name], ?_, by rw [hkeys, List.map_append, List.map_singleton]⟩
    refine List.nodup_append.2 ⟨hnodup, by simp, fun a ha b hb => ?_⟩
    rintro rfl
    obtain rfl := List.mem_singleton.1 hb
    have hmem : Value.str a ∈ d.map (·.1) := hkeys ▸ List.mem_map_of_mem ha
    obtain ⟨entry, hentry, hkey⟩ := List.mem_map.1 hmem
    exact hnew (contains_iff.2 ⟨entry.2, hkey ▸ hentry⟩)

theorem named_ofEntries {entries : Dict} (h : ∀ entry ∈ entries, ∃ name, entry.1 = .str name) :
    Named (ofEntries entries) := by
  suffices hfold : ∀ d : Dict, Named d →
      Named (entries.foldl (fun d entry => insert d entry.1 entry.2) d) from hfold [] ⟨[], by simp⟩
  induction entries with
  | nil => exact fun d hd => hd
  | cons entry rest ih =>
    obtain ⟨⟨name, hname⟩, hrest⟩ := List.forall_mem_cons.1 h
    intro d hd
    rw [List.foldl_cons, hname]
    exact ih hrest _ (hd.insert name _)

end Dict

namespace Json

open Decimal (isAsciiDigit)

/-- What a reader of documents takes at most. -/
structure Limits where
  /-- how deep containers with content may be nested -/
  depth : Nat
  /-- how many digits a whole number may have -/
  digits : Nat

/-- A value that can be read at a level of nesting. -/
inductive Readable (most : Limits) : Nat → Value → Prop
  | null {depth : Nat} : Readable most depth .null
  | bool {depth : Nat} (b : Bool) : Readable most depth (.bool b)
  | int {depth : Nat} {n : Int} (h : (Nat.toDigits 10 n.natAbs).length ≤ most.digits) :
      Readable most depth (.int n)
  | float {depth : Nat} (x : Float) : Readable most depth (.float x)
  | str {depth : Nat} (s : String) : Readable most depth (.str s)
  | list {depth : Nat} {items : List Value} (hdepth : items ≠ [] → depth < most.depth)
      (hitems : ∀ v ∈ items, Readable most (depth + 1) v) : Readable most depth (.list items)
  | dict {depth : Nat} {entries : Dict} (hdepth : entries ≠ [] → depth < most.depth)
      (hnamed : entries.Named) (hentries : ∀ entry ∈ entries, Readable most (depth + 1) entry.2) :
      Readable most depth (.dict entries)

/-- Further out, more nesting is left. -/
theorem Readable.mono {most : Limits} {depth depth' : Nat} {v : Value} (h : Readable most depth v)
    (hle : depth' ≤ depth) : Readable most depth' v := by
  induction h generalizing depth' with
  | null => exact .null
  | bool b => exact .bool b
  | int h => exact .int h
  | float x => exact .float x
  | str s => exact .str s
  | list hdepth _ ih =>
    exact .list (fun hne => Nat.lt_of_le_of_lt hle (hdepth hne)) fun v hv =>
      ih v hv (Nat.succ_le_succ hle)
  | dict hdepth hnamed _ ih =>
    exact .dict (fun hne => Nat.lt_of_le_of_lt hle (hdepth hne)) hnamed fun entry hentry =>
      ih entry hentry (Nat.succ_le_succ hle)

/-- What the reader of this library takes at most. -/
def limits : Limits := ⟨maxDepth, Decimal.maxIntDigits⟩

/-! ## Numbers and words -/

variable {depth : Nat} {cs rest : List Char} {v : Value}

theorem digits_of_wholePart? {ds : List Char} (h : wholePart? cs = some (ds, rest)) :
    ds ≠ [] ∧ ∀ c ∈ ds, isAsciiDigit c = true := by
  have hzero : ['0'] ≠ [] ∧ ∀ c ∈ ['0'], isAsciiDigit c = true :=
    ⟨List.cons_ne_nil _ _, List.forall_mem_singleton.2 rfl⟩
  unfold wholePart? at h
  split at h
  · split at h
    · split at h <;> cases h
      exact hzero
    · cases h
      exact hzero
  · dsimp only at h
    split at h
    · cases h
    · rename_i hsome
      cases h
      exact ⟨by simpa using hsome, List.all_eq_true.1 List.all_takeWhile⟩

theorem readable_numberBody? {negative : Bool} (h : numberBody? negative cs = some (v, rest)) :
    Readable limits depth v := by
  simp only [numberBody?] at h
  obtain ⟨⟨whole, rest₁⟩, hwhole, h⟩ := Option.bind_eq_some_iff.1 h
  obtain ⟨⟨fraction, rest₂⟩, -, h⟩ := Option.bind_eq_some_iff.1 h
  obtain ⟨⟨exponent, rest₃⟩, -, h⟩ := Option.bind_eq_some_iff.1 h
  split at h
  · split at h
    · cases h
    · rename_i hmost
      cases h
      obtain ⟨hne, -⟩ := digits_of_wholePart? hwhole
      have habs : (if negative then -(Text.readDigits whole : Int)
          else Text.readDigits whole).natAbs = Text.readDigits whole := by
        split <;> omega
      refine .int ?_
      rw [habs]
      exact Nat.le_trans (Text.length_toDigits_readDigits hne) (Nat.not_lt.1 hmost)
  · cases h
    exact .float _

theorem readable_number? (h : number? cs = some (v, rest)) : Readable limits depth v := by
  simp only [number?] at h
  split at h
  · split at h
    · cases h
      exact .float _
    · exact readable_numberBody? h
  · exact readable_numberBody? h

theorem readable_namedValue? (h : namedValue? cs = some (v, rest)) : Readable limits depth v := by
  obtain ⟨⟨name, v'⟩, hmem, h⟩ := List.exists_of_findSome?_eq_some h
  obtain ⟨rest', -, heq⟩ := Option.map_eq_some_iff.1 h
  cases heq
  simp only [List.mem_cons, Prod.mk.injEq, List.not_mem_nil, or_false] at hmem
  rcases hmem with ⟨-, rfl⟩ | ⟨-, rfl⟩ | ⟨-, rfl⟩ | ⟨-, rfl⟩ | ⟨-, rfl⟩
  · exact .null
  · exact .bool true
  · exact .bool false
  · exact .float _
  · exact .float _

/-! ## Values, items and members -/

/-- With so much fuel, the three readers give readable values only, and members with names. -/
structure GivesReadable (limit fuel : Nat) : Prop where
  value : ∀ {depth cs v rest}, value? limit fuel depth cs = some (v, rest) → Readable limits depth v
  items : ∀ {depth cs items rest}, items? limit fuel depth cs = some (items, rest) →
    ∀ v ∈ items, Readable limits depth v
  members : ∀ {depth cs members rest}, members? limit fuel depth cs = some (members, rest) →
    ∀ member ∈ members, (∃ name, member.1 = .str name) ∧ Readable limits depth member.2

variable {limit fuel : Nat}

theorem readable_value?_succ (hread : GivesReadable limit fuel)
    (h : value? limit (fuel + 1) depth cs = some (v, rest)) : Readable limits depth v := by
  simp only [value?] at h
  split at h
  · cases h
  · obtain ⟨⟨s, rest⟩, -, heq⟩ := Option.map_eq_some_iff.1 h
    cases heq
    exact .str s
  · split at h
    · cases h
      exact .list (fun hne => absurd rfl hne) fun _ hv => absurd hv List.not_mem_nil
    · split at h
      · cases h
      · rename_i hdepth
        obtain ⟨⟨items, rest⟩, hitems, heq⟩ := Option.map_eq_some_iff.1 h
        cases heq
        exact .list (fun _ => Nat.not_le.1 hdepth) (hread.items hitems)
  · split at h
    · cases h
      exact .dict (fun hne => absurd rfl hne) ⟨[], by simp⟩ fun _ he => absurd he List.not_mem_nil
    · split at h
      · cases h
      · rename_i hdepth
        obtain ⟨⟨members, rest⟩, hmembers, heq⟩ := Option.map_eq_some_iff.1 h
        cases heq
        have hgiven := hread.members hmembers
        exact .dict (fun _ => Nat.not_le.1 hdepth)
          (Dict.named_ofEntries fun member hmember => (hgiven member hmember).1)
          (Dict.forall_ofEntries fun member hmember => (hgiven member hmember).2)
  · split at h
    · exact readable_number? h
    · exact readable_namedValue? h

theorem readable_items?_succ (hread : GivesReadable limit fuel) {items : List Value}
    (h : items? limit (fuel + 1) depth cs = some (items, rest)) :
    ∀ v ∈ items, Readable limits depth v := by
  simp only [items?] at h
  split at h
  · cases h
  · rename_i item rest₁ hitem
    have hfirst := hread.value hitem
    split at h
    · cases h
      exact List.forall_mem_singleton.2 hfirst
    · obtain ⟨⟨more, rest₂⟩, hmore, heq⟩ := Option.map_eq_some_iff.1 h
      cases heq
      exact List.forall_mem_cons.2 ⟨hfirst, hread.items hmore⟩
    · cases h

theorem readable_members?_succ (hread : GivesReadable limit fuel) {members : Dict}
    (h : members? limit (fuel + 1) depth cs = some (members, rest)) :
    ∀ member ∈ members, (∃ name, member.1 = .str name) ∧ Readable limits depth member.2 := by
  simp only [members?] at h
  split at h
  · split at h
    · cases h
    · rename_i name rest₁ _
      split at h
      · split at h
        · cases h
        · rename_i v rest₂ hv
          have hfirst := hread.value hv
          split at h
          · cases h
            exact List.forall_mem_singleton.2 ⟨⟨name, rfl⟩, hfirst⟩
          · obtain ⟨⟨more, rest₃⟩, hmore, heq⟩ := Option.map_eq_some_iff.1 h
            cases heq
            exact List.forall_mem_cons.2 ⟨⟨⟨name, rfl⟩, hfirst⟩, hread.members hmore⟩
          · cases h
      · cases h
  · cases h

/-- **The readers of values, of items and of members give readable values only.** -/
theorem givesReadable (limit fuel : Nat) : GivesReadable limit fuel := by
  induction fuel with
  | zero => exact { value := nofun, items := nofun, members := nofun }
  | succ fuel ih =>
    exact
      { value := readable_value?_succ ih
        items := readable_items?_succ ih
        members := readable_members?_succ ih }

theorem readable_document? {text : String} (h : document? text = some v) : Readable limits 0 v := by
  simp only [document?] at h
  split at h
  · rename_i v' rest hread
    split at h
    · cases h
      exact (givesReadable _ _).value hread
    · cases h
  · cases h

end Json

end BlockProgram
