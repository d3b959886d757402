import BlockProgram.Value.Basic
import Mathlib.Data.List.Induction

/-!
# Dictionaries by name

A value is stored in the place of its name, or at the end if the name is new. So the value stored
last under a name counts, whatever else the dictionary holds (`Dict.named?_setNamed`), and it leaves
no trace of an earlier one (`Dict.setNamed_setNamed`).

The order of the names is that of their first coming: names that are there already may be stored in
any order (`Dict.setNamed_comm`), and values for the same names in the same order make it
irrelevant what was stored there before (`Dict.setAll_setAll`).
-/

namespace BlockProgram

/-- Only the text itself is the same key as a text. -/
theorem Value.sameKey_str {v : Value} {s : String} : v.sameKey (.str s) = true ↔ v = .str s := by
  cases v <;> simp [sameKey, number?]

namespace Dict

variable {d : Dict} {a b : String} {v w : Value}

/-! ## One value -/

theorem setNamed_cons_self (rest : Dict) :
    setNamed ((.str a, v) :: rest) a w = (.str a, w) :: rest := by
  rw [setNamed, insert, if_pos (Value.sameKey_str.2 rfl)]

theorem setNamed_cons_of_ne {entry : Value × Value} (rest : Dict) (h : entry.1 ≠ .str a) :
    setNamed (entry :: rest) a w = entry :: setNamed rest a w := by
  rw [setNamed, insert, if_neg (mt Value.sameKey_str.1 h)]
  rfl

theorem named?_cons_self (rest : Dict) : named? ((.str a, v) :: rest) a = some v := by
  rw [named?, get?, List.find?_cons, Value.sameKey_str.2 rfl]
  rfl

theorem named?_cons_of_ne {entry : Value × Value} (rest : Dict) (h : entry.1 ≠ .str a) :
    named? (entry :: rest) a = named? rest a := by
  rw [named?, get?, List.find?_cons, Bool.eq_false_iff.2 (mt Value.sameKey_str.1 h)]
  rfl

/-- A name is in a dictionary exactly if there is an entry with it. -/
theorem contains_iff : contains d (.str a) = true ↔ ∃ v, (Value.str a, v) ∈ d := by
  simp [contains, Value.sameKey_str]

/-- The value under a name is the one stored last. -/
theorem named?_setNamed (d : Dict) (a b : String) (v : Value) :
    named? (setNamed d a v) b = if a = b then some v else named? d b := by
  induction d with
  | nil =>
    by_cases h : a = b
    · rw [if_pos h, ← h]
      exact named?_cons_self []
    · rw [if_neg h]
      exact named?_cons_of_ne [] (by simpa using h)
  | cons entry rest ih =>
    obtain ⟨key, old⟩ := entry
    by_cases hkey : key = .str a
    · subst hkey
      rw [setNamed_cons_self]
      by_cases h : a = b
      · rw [if_pos h, ← h, named?_cons_self]
      · have hne : Value.str a ≠ .str b := by simpa using h
        rw [if_neg h, named?_cons_of_ne _ hne, named?_cons_of_ne _ hne]
    · rw [setNamed_cons_of_ne _ hkey]
      by_cases hb : key = .str b
      · subst hb
        have h : a ≠ b := fun h => hkey (h ▸ rfl)
        rw [if_neg h, named?_cons_self, named?_cons_self]
      · rw [named?_cons_of_ne _ hb, named?_cons_of_ne _ hb, ih]

/-- Changing the values changes what is found under a name in the same way. -/
theorem named?_map (f : Value → Value → Value) (d : Dict) (a : String) :
    named? (d.map fun (key, v) => (key, f key v)) a = (named? d a).map (f (.str a)) := by
  induction d with
  | nil => rfl
  | cons entry rest ih =>
    obtain ⟨key, v⟩ := entry
    rw [List.map_cons]
    by_cases hkey : key = .str a
    · subst hkey
      rw [named?_cons_self, named?_cons_self, Option.map_some]
    · rw [named?_cons_of_ne _ hkey, named?_cons_of_ne _ hkey, ih]

/-- Setting a name adds it and keeps the others. -/
theorem contains_setNamed (d : Dict) (a b : String) (v : Value) :
    contains (setNamed d a v) (.str b) = true ↔ a = b ∨ contains d (.str b) = true := by
  simp only [contains_iff]
  induction d with
  | nil => simp [setNamed, insert, eq_comm]
  | cons entry rest ih =>
    obtain ⟨key, old⟩ := entry
    by_cases hkey : key = .str a
    · subst hkey
      rw [setNamed_cons_self]
      simp only [List.mem_cons, Prod.mk.injEq, Value.str.injEq, exists_or, exists_and_left]
      simp [eq_comm]
    · rw [setNamed_cons_of_ne _ hkey]
      simp only [List.mem_cons, exists_or, ih]
      exact or_left_comm

/-- Storing what is there changes nothing. -/
theorem setNamed_of_named? (h : named? d a = some v) : setNamed d a v = d := by
  induction d with
  | nil => cases h
  | cons entry rest ih =>
    obtain ⟨key, old⟩ := entry
    by_cases hkey : key = .str a
    · subst hkey
      rw [named?_cons_self] at h
      cases h
      exact setNamed_cons_self rest
    · rw [named?_cons_of_ne _ hkey] at h
      rw [setNamed_cons_of_ne _ hkey, ih h]

/-- What was stored before under a name leaves no trace. -/
theorem setNamed_setNamed (d : Dict) (a : String) (v w : Value) :
    setNamed (setNamed d a v) a w = setNamed d a w := by
  induction d with
  | nil => exact setNamed_cons_self []
  | cons entry rest ih =>
    obtain ⟨key, old⟩ := entry
    by_cases hkey : key = .str a
    · subst hkey
      simp only [setNamed_cons_self]
    · rw [setNamed_cons_of_ne _ hkey, setNamed_cons_of_ne _ hkey, setNamed_cons_of_ne _ hkey, ih]

/-- A name that is there already keeps its place, so another one may be stored before it or after
it. -/
theorem setNamed_comm (h : contains d (.str a) = true) (hne : a ≠ b) :
    setNamed (setNamed d b w) a v = setNamed (setNamed d a v) b w := by
  induction d with
  | nil => cases h
  | cons entry rest ih =>
    obtain ⟨key, old⟩ := entry
    have hkeys : Value.str a ≠ .str b := by simpa using hne
    by_cases ha : key = .str a
    · subst ha
      rw [setNamed_cons_of_ne _ hkeys, setNamed_cons_self, setNamed_cons_self,
        setNamed_cons_of_ne _ hkeys]
    · by_cases hb : key = .str b
      · subst hb
        rw [setNamed_cons_self, setNamed_cons_of_ne _ hkeys.symm, setNamed_cons_of_ne _ hkeys.symm,
          setNamed_cons_self]
      · have hrest : contains rest (.str a) = true := by
          rw [contains, List.any_cons, Bool.or_eq_true] at h
          exact h.resolve_left (mt Value.sameKey_str.1 ha)
        rw [setNamed_cons_of_ne _ hb, setNamed_cons_of_ne _ ha, setNamed_cons_of_ne _ ha,
          setNamed_cons_of_ne _ hb, ih hrest]

/-- Values that are worked out one by one, from their keys and from what was there. -/
theorem map_setNamed (f : Value → Value → Value) (d : Dict) (a : String) (v : Value) :
    (setNamed d a v).map (fun (key, value) => (key, f key value)) =
      setNamed (d.map fun (key, value) => (key, f key value)) a (f (.str a) v) := by
  induction d with
  | nil => rfl
  | cons entry rest ih =>
    obtain ⟨key, old⟩ := entry
    by_cases hkey : key = .str a
    · subst hkey
      rw [setNamed_cons_self, List.map_cons, List.map_cons, setNamed_cons_self]
    · rw [setNamed_cons_of_ne _ hkey, List.map_cons, List.map_cons, ih]
      exact (setNamed_cons_of_ne _ hkey).symm

/-! ## Entries with keys of their own -/

/-- A new key comes last. -/
theorem insert_of_new {key : Value} (h : ∀ entry ∈ d, entry.1.sameKey key = false) (v : Value) :
    insert d key v = d ++ [(key, v)] := by
  induction d with
  | nil => rfl
  | cons entry rest ih =>
    rw [insert, h entry List.mem_cons_self, ih fun e he => h e (List.mem_cons_of_mem _ he)]
    rfl

/-- Entries of which no two have the same key are a dictionary as they stand. -/
theorem ofEntries_eq (h : d.Pairwise fun entry entry' => entry.1.sameKey entry'.1 = false) :
    ofEntries d = d := by
  induction d using List.reverseRecOn with
  | nil => rfl
  | append_singleton d entry ih =>
    obtain ⟨hd, -, hnew⟩ := List.pairwise_append.1 h
    have hlast : ofEntries (d ++ [entry]) = insert (ofEntries d) entry.1 entry.2 := by
      rw [ofEntries, List.foldl_append]
      rfl
    rw [hlast, ih hd]
    exact insert_of_new (fun e he => hnew e he entry List.mem_cons_self) entry.2

/-! ## Values in a row -/

/-- Stores values under names, one after the other. -/
def setAll (d : Dict) (entries : List (String × Value)) : Dict :=
  entries.foldl (fun d entry => setNamed d entry.1 entry.2) d

/-- Setting names in two portions is setting them all. -/
theorem setAll_append (d : Dict) (entries entries' : List (String × Value)) :
    setAll d (entries ++ entries') = setAll (setAll d entries) entries' := List.foldl_append

theorem setAll_singleton (d : Dict) (a : String) (v : Value) :
    setAll d [(a, v)] = setNamed d a v := rfl

/-- The names that were set are there, and those that were there before. -/
theorem contains_setAll (d : Dict) (entries : List (String × Value)) (b : String) :
    contains (setAll d entries) (.str b) = true ↔
      b ∈ entries.map (·.1) ∨ contains d (.str b) = true := by
  induction entries generalizing d with
  | nil => simp [setAll]
  | cons entry rest ih =>
    rw [setAll, List.foldl_cons]
    change contains (setAll _ rest) _ = true ↔ _
    rw [ih, contains_setNamed, List.map_cons, List.mem_cons, eq_comm]
    exact or_left_comm.trans or_assoc.symm

/-- Values can be changed before they are set or afterwards. -/
theorem map_setAll (f : Value → Value → Value) (d : Dict) (entries : List (String × Value)) :
    (setAll d entries).map (fun (key, value) => (key, f key value)) =
      setAll (d.map fun (key, value) => (key, f key value))
        (entries.map fun (name, value) => (name, f (.str name) value)) := by
  induction entries generalizing d with
  | nil => rfl
  | cons entry rest ih =>
    refine (ih (setNamed d entry.1 entry.2)).trans ?_
    rw [map_setNamed]
    rfl

/-- A value that is stored again in the end need not be stored before names that are there. -/
theorem setNamed_setAll {entries : List (String × Value)}
    (h : ∀ entry ∈ entries, contains d (.str entry.1) = true) (a : String) (v w : Value) :
    setNamed (setAll (setNamed d a v) entries) a w = setNamed (setAll d entries) a w := by
  induction entries generalizing d with
  | nil => exact setNamed_setNamed d a v w
  | cons entry rest ih =>
    obtain ⟨b, u⟩ := entry
    have hrest : ∀ entry ∈ rest, contains (setNamed d b u) (.str entry.1) = true :=
      fun entry hentry =>
        (contains_setNamed d b _ u).2 (.inr (h entry (List.mem_cons_of_mem _ hentry)))
    simp only [setAll, List.foldl_cons]
    by_cases hab : b = a
    · rw [hab, setNamed_setNamed]
    · rw [setNamed_comm (h (b, u) List.mem_cons_self) hab]
      exact ih hrest

/-- **It makes no difference what was stored before** under the same names in the same order. -/
theorem setAll_setAll (d : Dict) (entries : List (String × Value)) (f : String → Value) :
    setAll (setAll d (entries.map fun entry => (entry.1, f entry.1))) entries =
      setAll d entries := by
  induction entries using List.reverseRecOn with
  | nil => rfl
  | append_singleton entries entry ih =>
    obtain ⟨a, v⟩ := entry
    have hthere : ∀ entry ∈ entries,
        contains (setAll d (entries.map fun entry => (entry.1, f entry.1))) (.str entry.1) =
          true := by
      intro entry hentry
      refine (contains_setAll _ _ _).2 (.inl ?_)
      rw [List.map_map]
      exact List.mem_map_of_mem hentry
    rw [List.map_append, List.map_singleton, setAll_append, setAll_append, setAll_append,
      setAll_singleton, setAll_singleton, setAll_singleton, setNamed_setAll hthere, ih]

/-! ## What holds of every entry -/

section

variable {P : Value → Prop}

/-- What holds of all values still holds after one more is set that it holds of. -/
theorem forall_insert (hd : ∀ entry ∈ d, P entry.2) {key v : Value} (hv : P v) :
    ∀ entry ∈ insert d key v, P entry.2 := by
  induction d with
  | nil => simpa [insert] using hv
  | cons entry rest ih =>
    obtain ⟨hfirst, hrest⟩ := List.forall_mem_cons.1 hd
    simp only [insert]
    split
    · exact List.forall_mem_cons.2 ⟨hv, hrest⟩
    · exact List.forall_mem_cons.2 ⟨hfirst, ih hrest⟩

/-- It holds of a dictionary if it holds of the entries that it is made of. -/
theorem forall_ofEntries {entries : Dict} (h : ∀ entry ∈ entries, P entry.2) :
    ∀ entry ∈ ofEntries entries, P entry.2 := by
  suffices ∀ d : Dict, (∀ entry ∈ d, P entry.2) → ∀ entry ∈
      entries.foldl (fun d entry => Dict.insert d entry.1 entry.2) d, P entry.2 from
    this [] fun _ hentry => absurd hentry List.not_mem_nil
  induction entries with
  | nil => exact fun d hd => hd
  | cons entry rest ih =>
    obtain ⟨hfirst, hrest⟩ := List.forall_mem_cons.1 h
    exact fun d hd => ih hrest _ (forall_insert hd hfirst)

/-- It holds of whatever is found. -/
theorem of_named? (h : ∀ entry ∈ d, P entry.2) {name : String} {v : Value}
    (hv : named? d name = some v) : P v := by
  obtain ⟨entry, hfound, rfl⟩ := Option.map_eq_some_iff.1 hv
  exact h entry (List.mem_of_find?_eq_some hfound)

end

end Dict

end BlockProgram
