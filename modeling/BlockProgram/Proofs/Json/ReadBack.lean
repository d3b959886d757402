import BlockProgram.Proofs.Json.Lawful

/-!
# Documents read back

A readable value that is written in the style of saved programs, on one line or indented, is read
again (`Json.document?_document`). What is read is the value itself, with nothing in the place of
infinities and not-a-number, which have no text in this style (`Json.blanked`).

The proof follows the value. A text ends at its quote, a number at the next character that cannot
belong to one, and between the parts of a container the reader skips what the indentation puts there
(`Json.gap`).
-/

namespace BlockProgram.Json

open Decimal (isAsciiDigit)

variable {limit fuel depth level : Nat} {indent : Option Nat} {cs rest : List Char} {v : Value}

/-! ## Texts -/

/-- A character of a text is written with a short escape, by its number, or as it is. -/
theorem textChar_cases (c : Char) :
    (∃ e, textChar .saved c = ['\\', e] ∧ e ≠ 'u' ∧ shortEscape? e = some c) ∨
      textChar .saved c = '\\' :: 'u' :: Text.hex 4 c.toNat ∧ c.toNat < 0x20 ∨
      textChar .saved c = [c] ∧ 0x20 ≤ c.toNat ∧ c ≠ '"' ∧ c ≠ '\\' := by
  by_cases hshort : c ∈ ['"', '\\', '\x08', '\x0c', '\n', '\r', '\t']
  · left
    simp only [List.mem_cons, List.not_mem_nil, or_false] at hshort
    rcases hshort with rfl | rfl | rfl | rfl | rfl | rfl | rfl
    all_goals exact ⟨_, rfl, by decide, rfl⟩
  · right
    simp only [List.mem_cons, List.not_mem_nil, or_false, not_or] at hshort
    have htext : textChar .saved c = if c.toNat < 0x20 then unitEscape c else [c] := by
      simp [textChar, hshort, Style.saved]
    rw [htext]
    split
    · rename_i hcontrol
      refine .inl ⟨?_, hcontrol⟩
      simp [unitEscape, units16, show c.toNat < 0x10000 by omega]
    · rename_i hplain
      exact .inr ⟨rfl, Nat.not_lt.1 hplain, hshort.1, hshort.2.1⟩

theorem textChar_ne_nil (c : Char) : textChar .saved c ≠ [] := by
  obtain ⟨e, h, -⟩ | ⟨h, -⟩ | ⟨h, -⟩ := textChar_cases c <;> simp [h]

/-- A control character is read from its number. -/
theorem unicodeEscape?_hex {n : Nat} (h : n < 0x20) (rest : List Char) :
    unicodeEscape? (Text.hex 4 n ++ rest) = some (Char.ofNat n, rest) := by
  have hdigits : ∀ n < 0x20,
      Text.hex 4 n = ['0', '0', Nat.digitChar (n / 16), Nat.digitChar (n % 16)] := by decide
  have hvalue : ∀ d < 16, hexValue? (Nat.digitChar d) = some d := by decide
  have hzero : hexValue? '0' = some 0 := rfl
  rw [hdigits n h]
  simp only [unicodeEscape?, List.cons_append, List.nil_append, hexUnit?, hzero,
    hvalue (n / 16) (by omega), hvalue (n % 16) (by omega), Option.bind_eq_bind, Option.bind_some,
    pure]
  have hunit : 4096 * 0 + 256 * 0 + 16 * (n / 16) + n % 16 = n := by omega
  rw [hunit]
  simp [show ¬ 55296 ≤ n by omega, show ¬ 56320 ≤ n by omega]

/-- Each character is read in one step. -/
theorem textBody?_textChar (fuel : Nat) (sofar : List Char) (c : Char) (rest : List Char) :
    textBody? (fuel + 1) sofar (textChar .saved c ++ rest) = textBody? fuel (c :: sofar) rest := by
  obtain ⟨e, h, hu, he⟩ | ⟨h, hcontrol⟩ | ⟨h, hplain, hquote, hbackslash⟩ := textChar_cases c
  · rw [h]
    simp only [List.cons_append, List.nil_append]
    conv => lhs; unfold textBody?
    split
    · rename_i hnil
      cases hnil
    · rename_i hcons
      cases hcons
    · rename_i hcons
      exact absurd (List.cons.inj (List.cons.inj hcons).2).1 hu
    · rename_i hcons
      obtain ⟨rfl, rfl⟩ := List.cons.inj (List.cons.inj hcons).2
      rw [he]
    · rename_i hother hcons
      obtain ⟨rfl, rfl⟩ := List.cons.inj hcons
      exact (hother e rest rfl rfl).elim
  · rw [h]
    simp only [List.cons_append, textBody?, unicodeEscape?_hex hcontrol, Char.ofNat_toNat]
  · rw [h, List.singleton_append]
    conv => lhs; unfold textBody?
    split
    · rename_i hnil
      cases hnil
    · rename_i hcons
      exact absurd (List.cons.inj hcons).1 hquote
    · rename_i hcons
      exact absurd (List.cons.inj hcons).1 hbackslash
    · rename_i hcons
      exact absurd (List.cons.inj hcons).1 hbackslash
    · rename_i hcons
      obtain ⟨rfl, rfl⟩ := List.cons.inj hcons
      rw [if_neg]
      simp [Nat.not_lt.2 hplain, hbackslash]

/-- A text is read up to its quote. -/
theorem textBody?_flatMap {chars : List Char} (sofar : List Char)
    (hfuel : (chars.flatMap (textChar .saved)).length < fuel) :
    textBody? fuel sofar (chars.flatMap (textChar .saved) ++ '"' :: rest) =
      some (String.ofList (sofar.reverse ++ chars), rest) := by
  obtain ⟨fuel, rfl⟩ := Nat.exists_eq_succ_of_ne_zero (Nat.ne_of_gt (Nat.zero_lt_of_lt hfuel))
  induction chars generalizing fuel sofar with
  | nil => simp [textBody?]
  | cons c chars ih =>
    have hsome := List.length_pos_iff.2 (textChar_ne_nil c)
    rw [List.flatMap_cons, List.length_append] at hfuel
    obtain ⟨fuel, rfl⟩ := Nat.exists_eq_succ_of_ne_zero (show fuel ≠ 0 by omega)
    rw [List.flatMap_cons, List.append_assoc, textBody?_textChar, ih _ fuel (by omega)]
    simp

/-- A written text is its characters, each as it is written, between two quotes. -/
theorem text_toList (s : String) :
    (text .saved s).toList = '"' :: (s.toList.flatMap (textChar .saved) ++ ['"']) := by
  rw [text, String.toList_ofList]

/-- **A written text reads back**, with whatever comes behind it. -/
theorem textBody?_text {s : String} (hlimit : (text .saved s).toList.length ≤ limit) :
    textBody? limit [] (s.toList.flatMap (textChar .saved) ++ '"' :: rest) = some (s, rest) := by
  rw [text_toList, List.length_cons, List.length_append, List.length_singleton] at hlimit
  rw [textBody?_flatMap [] (by omega)]
  simp

/-! ## Containers -/

/-- What the indentation puts in front of a part of a container. -/
def gap (indent : Option Nat) (level : Nat) : List Char :=
  match indent with
  | none => []
  | some width => '\n' :: List.replicate (width * level) ' '

theorem isSpace_of_mem_gap {c : Char} (h : c ∈ gap indent level) : isSpace c = true := by
  cases indent with
  | none => cases h
  | some width =>
    rcases List.mem_cons.1 h with rfl | h
    · rfl
    · rw [List.eq_of_mem_replicate h]
      rfl

/-- The reader passes over what is left free between two parts. -/
theorem skipSpace_gap (hcs : ∀ c ∈ cs.head?, isSpace c = false) :
    skipSpace (gap indent level ++ cs) = cs := by
  rw [skipSpace, List.dropWhile_append_of_pos fun _ => isSpace_of_mem_gap]
  cases cs with
  | nil => rfl
  | cons c cs => simp [hcs c rfl]

/-- A gap ends a number. -/
theorem ends_gap (hcs : Ends cs) : Ends (gap indent level ++ cs) := by
  cases indent with
  | none => exact hcs
  | some width =>
    rintro c ⟨⟩
    decide

/-- The parts of a container with what stands between them. -/
def partsText (indent : Option Nat) (level : Nat) (parts : List String) : List Char :=
  (',' :: gap indent level).intercalate (parts.map String.toList)

variable {parts : List String}

theorem partsText_singleton (part : String) : partsText indent level [part] = part.toList :=
  List.intercalate_singleton

/-- The first part is followed by a comma and a gap, if there is another one. -/
theorem partsText_cons (part : String) (hparts : parts ≠ []) :
    partsText indent level (part :: parts) =
      part.toList ++ ',' :: (gap indent level ++ partsText indent level parts) := by
  rw [partsText, List.map_cons, List.intercalate_cons_of_ne_nil (by simpa using hparts)]
  simp [partsText]

/-- A container that is not empty is its parts between two gaps and the brackets. The last gap is
that of the level around it. -/
theorem container_toList {opening closing : String} (hparts : parts ≠ []) :
    (container indent depth opening closing parts).toList =
      opening.toList ++ (gap indent (depth + 1) ++ (partsText indent (depth + 1) parts ++
        (gap indent depth ++ closing.toList))) := by
  obtain ⟨part, parts, rfl⟩ := List.exists_cons_of_ne_nil hparts
  cases indent with
  | none => simp [container, partsText, gap, joined, String.toList_intercalate]
  | some width => simp [container, partsText, gap, joined, String.toList_intercalate]

/-! ## Values -/

/-- The text of a value is read as this value, blanked. -/
def Reads (indent : Option Nat) (depth : Nat) (v : Value) : Prop :=
  ∀ limit fuel rest, (render .saved indent depth v).toList.length ≤ limit →
    (render .saved indent depth v).toList.length ≤ fuel → Ends rest →
      value? limit fuel depth ((render .saved indent depth v).toList ++ rest) =
        some (blanked v, rest)

/-- What reads as a number reads as a value, since no other kind of value begins like one. -/
theorem value?_of_number? {r : Value × List Char} (h : number? cs = some r) :
    value? limit (fuel + 1) depth cs = some r := by
  obtain ⟨c, tail, rfl, hc⟩ := exists_of_number? h
  have hne {d : Char} (hd : (d == '-' || isAsciiDigit d) = false) : c ≠ d := by
    rintro rfl
    rw [hc] at hd
    cases hd
  unfold value?
  split
  · rename_i hcons
    cases hcons
  · rename_i hcons
    exact absurd (List.cons.inj hcons).1 (hne rfl)
  · rename_i hcons
    exact absurd (List.cons.inj hcons).1 (hne rfl)
  · rename_i hcons
    exact absurd (List.cons.inj hcons).1 (hne rfl)
  · rename_i hcons
    obtain ⟨rfl, rfl⟩ := List.cons.inj hcons
    rw [if_pos hc, h]

/-- For the values that are written in one piece it is enough to read that piece with some fuel
left. -/
theorem reads_of_text {text : String} (htext : render .saved indent depth v = text)
    (hsome : 0 < text.toList.length)
    (h : ∀ {limit fuel rest}, text.toList.length ≤ limit → text.toList.length ≤ fuel + 1 →
      Ends rest → value? limit (fuel + 1) depth (text.toList ++ rest) = some (blanked v, rest)) :
    Reads indent depth v := by
  intro limit fuel rest hlimit hfuel hrest
  rw [htext] at hlimit hfuel ⊢
  obtain ⟨fuel, rfl⟩ := Nat.exists_eq_succ_of_ne_zero (show fuel ≠ 0 by omega)
  exact h hlimit hfuel hrest

theorem reads_null : Reads indent depth .null :=
  reads_of_text (render.eq_1 _ _ _) (by decide) fun _ _ _ => rfl

theorem reads_bool (b : Bool) : Reads indent depth (.bool b) := by
  cases b with
  | false => exact reads_of_text (render.eq_3 _ _ _) (by decide) fun _ _ _ => rfl
  | true => exact reads_of_text (render.eq_2 _ _ _) (by decide) fun _ _ _ => rfl

/-- A value whose text is that of a number is read as the number. -/
theorem reads_of_number? {text : String} (htext : render .saved indent depth v = text)
    (h : ∀ {rest}, Ends rest → number? (text.toList ++ rest) = some (blanked v, rest)) :
    Reads indent depth v := by
  obtain ⟨c, tail, hcons, -⟩ := exists_of_number? (@h [] ends_nil)
  rw [List.append_nil] at hcons
  refine reads_of_text htext (by rw [hcons]; exact Nat.zero_lt_succ _) fun _ _ hrest => ?_
  exact value?_of_number? (h hrest)

/-- A whole number reads back if it has no more digits than the reader takes. -/
theorem reads_int {n : Int} (h : (Nat.toDigits 10 n.natAbs).length ≤ Decimal.maxIntDigits) :
    Reads indent depth (.int n) :=
  reads_of_number? (render.eq_4 _ _ _ _) fun hrest => number?_repr h hrest

/-- A finite number reads back as it is, and the word for nothing stands for any other. -/
theorem reads_float (x : Float) : Reads indent depth (.float x) := by
  have hrender : render .saved indent depth (.float x) =
      (Layout.document.write? x).getD "null" := by
    simp only [render, SpecialNames.write, Style.saved]
    cases Layout.document.write? x with
    | some text => rfl
    | none => simp
  cases hwrite : Layout.document.write? x with
  | some text =>
    have hfinite : Binary.isFinite x = true := by
      rw [Layout.write?, Option.map_eq_some_iff] at hwrite
      obtain ⟨p, hp, -⟩ := hwrite
      rw [Binary.isFinite, hp, Option.isSome_some]
    rw [hwrite, Option.getD_some] at hrender
    refine reads_of_number? hrender fun hrest => ?_
    rw [number?_write? hwrite hrest, blanked, if_pos hfinite]
  | none =>
    have hfinite : Binary.isFinite x ≠ true := by
      rw [Layout.write?, Option.map_eq_none_iff] at hwrite
      rw [Binary.isFinite, hwrite]
      decide
    rw [hwrite, Option.getD_none] at hrender
    refine reads_of_text hrender (by decide) fun _ _ _ => ?_
    rw [blanked, if_neg hfinite]
    rfl

/-- Every text reads back, as all characters that have to be escaped are. -/
theorem reads_str (s : String) : Reads indent depth (.str s) := by
  refine reads_of_text (render.eq_6 _ _ _ _) (by rw [text_toList]; exact Nat.zero_lt_succ _)
    fun {limit fuel rest} hlimit _ _ => ?_
  rw [text_toList, List.cons_append, List.append_assoc, List.singleton_append, value?,
    textBody?_text hlimit]
  rfl

/-- What a value begins with is neither blank nor the end of a list. -/
theorem exists_of_value? {r : Value × List Char} (h : value? limit fuel depth cs = some r) :
    ∃ c tail, cs = c :: tail ∧ isSpace c = false ∧ c ≠ ']' := by
  cases fuel with
  | zero => cases h
  | succ fuel =>
    cases cs with
    | nil => cases h
    | cons c tail =>
      refine ⟨c, tail, rfl, ?_, ?_⟩
      · refine Bool.not_eq_true _ |>.mp fun hspace => ?_
        simp only [isSpace, Bool.or_eq_true, beq_iff_eq] at hspace
        rcases hspace with ((rfl | rfl) | rfl) | rfl <;> cases h
      · rintro rfl
        cases h

/-! ## Items -/

theorem ends_cons {c : Char} (hc : isAsciiDigit c = false ∧ c ≠ '.' ∧ c ≠ 'e' ∧ c ≠ 'E') :
    Ends (c :: rest) := by
  rintro c' ⟨⟩
  exact hc

/-- Items begin with neither a space nor the bracket that would end an empty list. -/
theorem exists_of_items? {r : List Value × List Char} (h : items? limit fuel depth cs = some r) :
    ∃ c tail, cs = c :: tail ∧ isSpace c = false ∧ c ≠ ']' := by
  cases fuel with
  | zero => cases h
  | succ fuel =>
    cases hv : value? limit fuel depth cs with
    | none => simp [items?, hv] at h
    | some r => exact exists_of_value? hv

theorem skipSpace_gap_items? {r : List Value × List Char}
    (h : items? limit fuel depth cs = some r) : skipSpace (gap indent level ++ cs) = cs := by
  obtain ⟨c, tail, rfl, hspace, -⟩ := exists_of_items? h
  exact skipSpace_gap fun c' hc' => by
    cases hc'
    exact hspace

/-- The items of a list are read one after the other. -/
theorem items?_renderItems {items : List Value} (hne : items ≠ [])
    (hitems : ∀ v ∈ items, Reads indent depth v)
    (hlimit : (partsText indent depth (renderItems .saved indent depth items)).length ≤ limit)
    (hfuel : (partsText indent depth (renderItems .saved indent depth items)).length < fuel) :
    items? limit fuel depth (partsText indent depth (renderItems .saved indent depth items) ++
      (gap indent level ++ ']' :: rest)) = some (blankedItems items, rest) := by
  induction items generalizing fuel with
  | nil => exact absurd rfl hne
  | cons item items ih =>
    obtain ⟨fuel, rfl⟩ := Nat.exists_eq_succ_of_ne_zero (Nat.ne_of_gt (Nat.zero_lt_of_lt hfuel))
    obtain ⟨hitem, hitems⟩ := List.forall_mem_cons.1 hitems
    rw [renderItems] at hlimit hfuel ⊢
    rcases items with _ | ⟨item', items⟩
    · rw [renderItems, partsText_singleton] at hlimit hfuel ⊢
      have hclosing : skipSpace (gap indent level ++ ']' :: rest) = ']' :: rest :=
        skipSpace_gap fun c hc => by
          cases hc
          rfl
      rw [items?, hitem _ _ _ hlimit (by omega) (ends_gap (ends_cons (by decide)))]
      dsimp only
      rw [hclosing]
      rfl
    · have hparts : renderItems .saved indent depth (item' :: items) ≠ [] := by simp [renderItems]
      rw [partsText_cons _ hparts] at hlimit hfuel ⊢
      simp only [List.length_append, List.length_cons] at hlimit hfuel
      have hrest := @ih fuel (by simp) hitems (by omega) (by omega)
      have hcomma (tail : List Char) : skipSpace (',' :: tail) = ',' :: tail := rfl
      simp only [List.append_assoc, List.cons_append]
      rw [items?, hitem _ _ _ (by omega) (by omega) (ends_cons (by decide))]
      dsimp only
      rw [hcomma]
      simp only [skipSpace_gap_items? hrest, hrest]
      rfl

/-! ## Members -/

/-- What stands between the colon of a member and its value. -/
def afterColon (indent : Option Nat) : List Char := if indent.isSome then [' '] else []

/-- After a colon there may be a space, which the reader passes over. -/
theorem skipSpace_afterColon (hcs : ∀ c ∈ cs.head?, isSpace c = false) :
    skipSpace (afterColon indent ++ cs) = cs := by
  have hstay : skipSpace cs = cs := by
    cases cs with
    | nil => rfl
    | cons c cs => simp [skipSpace, hcs c rfl]
  cases indent with
  | none => exact hstay
  | some width => exact hstay

/-- A member is its name as a text, a colon and its value. -/
theorem member_toList (name value : String) :
    (text .saved name ++ colon indent ++ value).toList =
      '"' :: (name.toList.flatMap (textChar .saved) ++
        '"' :: ':' :: (afterColon indent ++ value.toList)) := by
  have hcolon : (colon indent).toList = ':' :: afterColon indent := by
    cases indent <;> simp [colon, afterColon]
  simp [text_toList, hcolon]

/-- Members begin with the quote of a name. -/
theorem exists_of_members? {r : Dict × List Char} (h : members? limit fuel depth cs = some r) :
    ∃ tail, cs = '"' :: tail := by
  cases fuel with
  | zero => cases h
  | succ fuel =>
    simp only [members?] at h
    split at h
    · exact ⟨_, rfl⟩
    · cases h

theorem skipSpace_gap_members? {r : Dict × List Char}
    (h : members? limit fuel depth cs = some r) : skipSpace (gap indent level ++ cs) = cs := by
  obtain ⟨tail, rfl⟩ := exists_of_members? h
  exact skipSpace_gap fun c hc => by
    cases hc
    rfl

/-- A name and a value are read, and then the dictionary ends or goes on. -/
theorem members?_member {name : String} (hread : Reads indent depth v)
    (hlimit : (text .saved name ++ colon indent ++ render .saved indent depth v).toList.length ≤
      limit)
    (hfuel : (text .saved name ++ colon indent ++ render .saved indent depth v).toList.length ≤
      fuel) (hrest : Ends rest) :
    (∀ tail, skipSpace rest = '\x7d' :: tail → members? limit (fuel + 1) depth
      ((text .saved name ++ colon indent ++ render .saved indent depth v).toList ++ rest) =
        some ([(.str name, blanked v)], tail)) ∧
    (∀ tail, skipSpace rest = ',' :: tail → members? limit (fuel + 1) depth
      ((text .saved name ++ colon indent ++ render .saved indent depth v).toList ++ rest) =
        (members? limit fuel depth (skipSpace tail)).map fun (members, rest) =>
          ((.str name, blanked v) :: members, rest)) := by
  have hname : (text .saved name).toList.length ≤ limit := by
    simp only [String.toList_append, List.length_append] at hlimit
    omega
  have hlength : (render .saved indent depth v).toList.length ≤
      (text .saved name ++ colon indent ++ render .saved indent depth v).toList.length := by
    simp only [String.toList_append, List.length_append]
    omega
  have hvalue := hread limit fuel rest (by omega) (by omega) hrest
  obtain ⟨c, tail, hcs, hspace, -⟩ := exists_of_value? hvalue
  have hskip : skipSpace (afterColon indent ++ ((render .saved indent depth v).toList ++ rest)) =
      (render .saved indent depth v).toList ++ rest := by
    refine skipSpace_afterColon fun c' hc' => ?_
    rw [hcs] at hc'
    cases hc'
    exact hspace
  have hcolon (tail : List Char) : skipSpace (':' :: tail) = ':' :: tail := rfl
  rw [member_toList]
  simp only [List.cons_append, List.append_assoc]
  rw [members?, textBody?_text hname]
  simp only [hcolon, hskip, hvalue]
  constructor
  · intro tail hend
    simp only [hend]
  · intro tail hmore
    simp only [hmore]

/-- The members of a dictionary are read one after the other. -/
theorem members?_renderMembers {entries : Dict} (hne : entries ≠ [])
    (hnames : ∀ entry ∈ entries, ∃ name, entry.1 = .str name)
    (hentries : ∀ entry ∈ entries, Reads indent depth entry.2)
    (hlimit : (partsText indent depth (renderMembers .saved indent depth entries)).length ≤ limit)
    (hfuel : (partsText indent depth (renderMembers .saved indent depth entries)).length < fuel) :
    members? limit fuel depth (partsText indent depth (renderMembers .saved indent depth entries) ++
      (gap indent level ++ '\x7d' :: rest)) = some (blankedEntries entries, rest) := by
  induction entries generalizing fuel with
  | nil => exact absurd rfl hne
  | cons entry entries ih =>
    obtain ⟨fuel, rfl⟩ := Nat.exists_eq_succ_of_ne_zero (Nat.ne_of_gt (Nat.zero_lt_of_lt hfuel))
    obtain ⟨key, v⟩ := entry
    obtain ⟨⟨name, hname⟩, hnames⟩ := List.forall_mem_cons.1 hnames
    obtain ⟨hentry, hentries⟩ := List.forall_mem_cons.1 hentries
    dsimp only at hname hentry
    rw [hname, renderMembers, memberName] at hlimit hfuel ⊢
    rcases entries with _ | ⟨entry', entries⟩
    · rw [renderMembers, partsText_singleton] at hlimit hfuel ⊢
      have hclosing : skipSpace (gap indent level ++ '\x7d' :: rest) = '\x7d' :: rest :=
        skipSpace_gap fun c hc => by
          cases hc
          rfl
      have hends : Ends (gap indent level ++ '\x7d' :: rest) := ends_gap (ends_cons (by decide))
      exact (members?_member hentry hlimit (by omega) hends).1 _ hclosing
    · have hparts : renderMembers .saved indent depth (entry' :: entries) ≠ [] := by
        simp [renderMembers]
      rw [partsText_cons _ hparts] at hlimit hfuel ⊢
      simp only [List.length_append, List.length_cons] at hlimit hfuel
      have hrest := @ih fuel (by simp) hnames hentries (by omega) (by omega)
      have hcomma (tail : List Char) : skipSpace (',' :: tail) = ',' :: tail := rfl
      simp only [List.append_assoc, List.cons_append]
      rw [(members?_member hentry (by omega) (by omega) (ends_cons (by decide))).2 _ (hcomma _),
        skipSpace_gap_members? hrest, hrest]
      rfl

/-! ## Whole values -/

/-- A list is read at its bracket, if it is not nested too deep. -/
theorem value?_list {items : List Value} (hdepth : depth < maxDepth)
    (h : items? limit fuel (depth + 1) cs = some (items, rest)) :
    value? limit (fuel + 1) depth ('[' :: (gap indent level ++ cs)) = some (.list items, rest) := by
  obtain ⟨c, tail, hcs, -, hopen⟩ := exists_of_items? h
  simp only [value?, skipSpace_gap_items? h]
  split
  · exact absurd (List.cons.inj hcs).1.symm hopen
  · rw [if_neg (Nat.not_le.2 hdepth), h]
    rfl

/-- So is a dictionary. Of two members with the same name the reader keeps the later value. -/
theorem value?_dict {members : Dict} (hdepth : depth < maxDepth)
    (h : members? limit fuel (depth + 1) cs = some (members, rest)) :
    value? limit (fuel + 1) depth ('\x7b' :: (gap indent level ++ cs)) =
      some (.dict (Dict.ofEntries members), rest) := by
  obtain ⟨tail, hcs⟩ := exists_of_members? h
  simp only [value?, skipSpace_gap_members? h]
  split
  · cases hcs
  · rw [if_neg (Nat.not_le.2 hdepth), h]
    rfl

/-- **A list reads back if its items do**, one level further in. -/
theorem reads_list {items : List Value} (hdepth : items ≠ [] → depth < maxDepth)
    (hitems : ∀ v ∈ items, Reads indent (depth + 1) v) : Reads indent depth (.list items) := by
  rcases items with _ | ⟨item, items⟩
  · have hrender : render .saved indent depth (.list []) = "[" ++ "]" := by
      cases indent <;> rfl
    exact reads_of_text hrender (by decide) fun _ _ _ => rfl
  · have hparts : renderItems .saved indent (depth + 1) (item :: items) ≠ [] := by
      simp [renderItems]
    have htext := @container_toList depth indent _ "[" "]" hparts
    refine reads_of_text (render.eq_7 _ _ _ _) ?_ fun {limit fuel rest} hlimit hfuel _ => ?_
    · rw [htext]
      exact Nat.zero_lt_succ _
    have hopening : "[".toList = ['['] := rfl
    have hclosing : "]".toList = [']'] := rfl
    rw [htext, hopening, hclosing] at hlimit hfuel ⊢
    simp only [List.length_append, List.length_singleton] at hlimit hfuel
    simp only [List.cons_append, List.append_assoc, List.nil_append]
    rw [value?_list (hdepth (by simp)) (items?_renderItems (by simp) hitems (by omega) (by omega)),
      blanked]

/-- **A dictionary reads back if its values do** and its keys are different names, so that the
reader merges none of them. -/
theorem reads_dict {entries : Dict} (hdepth : entries ≠ [] → depth < maxDepth)
    (hnamed : entries.Named) (hentries : ∀ entry ∈ entries, Reads indent (depth + 1) entry.2) :
    Reads indent depth (.dict entries) := by
  have hblanked : Dict.ofEntries (blankedEntries entries) = blankedEntries entries := by
    refine Dict.Named.ofEntries_eq ?_
    rwa [Dict.Named, blankedEntries_eq, List.map_map]
  rcases entries with _ | ⟨entry, entries⟩
  · have hrender : render .saved indent depth (.dict []) = "\x7b" ++ "\x7d" := by
      cases indent <;> rfl
    exact reads_of_text hrender (by decide) fun _ _ _ => rfl
  · have hparts : renderMembers .saved indent (depth + 1) (entry :: entries) ≠ [] := by
      simp [renderMembers]
    have htext := @container_toList depth indent _ "\x7b" "\x7d" hparts
    refine reads_of_text (render.eq_8 _ _ _ _) ?_ fun {limit fuel rest} hlimit hfuel _ => ?_
    · rw [htext]
      exact Nat.zero_lt_succ _
    have hopening : "\x7b".toList = ['\x7b'] := rfl
    have hclosing : "\x7d".toList = ['\x7d'] := rfl
    rw [htext, hopening, hclosing] at hlimit hfuel ⊢
    simp only [List.length_append, List.length_singleton] at hlimit hfuel
    simp only [List.cons_append, List.append_assoc, List.nil_append]
    rw [value?_dict (hdepth (by simp))
      (members?_renderMembers (by simp) hnamed.exists_name hentries (by omega) (by omega)), blanked,
      hblanked]

/-- **A readable value is read from its text**, with nothing in the place of infinities and
not-a-number. -/
theorem reads_of_readable (h : Readable limits depth v) : Reads indent depth v := by
  induction h with
  | null => exact reads_null
  | bool b => exact reads_bool b
  | int h => exact reads_int h
  | float x => exact reads_float x
  | str s => exact reads_str s
  | list hdepth _ ih => exact reads_list hdepth ih
  | dict hdepth hnamed _ ih => exact reads_dict hdepth hnamed ih

/-- **A readable value that is saved is read back.** -/
theorem document?_document (indent : Option Nat) (h : Readable limits 0 v) :
    document? (document .saved indent v) = some (blanked v) := by
  have hread := @reads_of_readable 0 indent v h (document .saved indent v).toList.length
    ((document .saved indent v).toList.length + 1) [] (Nat.le_refl _) (Nat.le_succ _) ends_nil
  rw [List.append_nil] at hread
  obtain ⟨c, tail, hcs, hspace, -⟩ := exists_of_value? hread
  have hskip : skipSpace (document .saved indent v).toList = (document .saved indent v).toList := by
    rw [document, hcs]
    simp [skipSpace, hspace]
  simp only [document?, hskip]
  rw [document] at hread ⊢
  rw [hread]
  rfl

/-! ## The library of the commands -/

/-- Every width of 64 bits is accepted. -/
theorem width?_of_isWidth {indent : Option Int} (h : IsWidth indent) :
    ∃ width, width? indent = .ok width := by
  rcases indent with _ | n
  · exact ⟨none, rfl⟩
  · obtain ⟨hnonneg, hlt⟩ := h n rfl
    refine ⟨some n.toNat, if_neg ?_⟩
    simp only [Bool.or_eq_true, decide_eq_true_eq]
    omega

/-- A readable value comes back from the library of the commands, blanked. -/
theorem standard_returns {indent : Option Int} (hwidth : IsWidth indent)
    (h : Readable limits 0 v) : standard.Returns indent v (blanked v) := by
  obtain ⟨width, hw⟩ := width?_of_isWidth hwidth
  refine ⟨document .saved width v, ?_, document?_document width h⟩
  simp only [standard, hw]
  rfl

/-- What comes back of a readable value is the value blanked. -/
theorem eq_of_standard_returns {indent : Option Int} {v' : Value} (hwidth : IsWidth indent)
    (h : Readable limits 0 v) (hreturns : standard.Returns indent v v') : v' = blanked v := by
  obtain ⟨text, hwrite, hread⟩ := standard_returns hwidth h
  obtain ⟨text', hwrite', hread'⟩ := hreturns
  obtain rfl : text = text' := Except.ok.inj (hwrite.symm.trans hwrite')
  exact Option.some.inj (hread'.symm.trans hread)

/-- What the items of a list come back as is determined, item by item. -/
theorem items_of_standard_returns {indent : Option Int} {items items' : List Value}
    (hwidth : IsWidth indent) (hreadable : ∀ v ∈ items, Readable limits 0 v)
    (h : List.Forall₂ (standard.Returns indent) items items') : items' = blankedItems items := by
  induction h with
  | nil => rfl
  | cons hitem _ ih =>
    obtain ⟨hfirst, hrest⟩ := List.forall_mem_cons.1 hreadable
    rw [blankedItems, eq_of_standard_returns hwidth hfirst hitem, ih hrest]

/-- So is what the values of a dictionary come back as. -/
theorem entries_of_standard_returns {indent : Option Int} {entries entries' : Dict}
    (hwidth : IsWidth indent) (hreadable : ∀ entry ∈ entries, Readable limits 0 entry.2)
    (h : List.Forall₂ (fun entry entry' =>
      entry.1 = entry'.1 ∧ standard.Returns indent entry.2 entry'.2) entries entries') :
    entries' = blankedEntries entries := by
  induction h with
  | nil => rfl
  | cons hentry _ ih =>
    obtain ⟨hfirst, hrest⟩ := List.forall_mem_cons.1 hreadable
    rw [blankedEntries, hentry.1, ← eq_of_standard_returns hwidth hfirst hentry.2, ih hrest]

/-- **The library of the commands keeps the laws.** -/
theorem lawful_standard : standard.Lawful limits where
  room := by decide
  readable := readable_document?
  width {n v text} hwrite := by
    simp only [standard, width?] at hwrite
    split at hwrite
    · cases hwrite
    · rename_i hin
      simp only [Bool.or_eq_true, decide_eq_true_eq] at hin
      omega
  null hwidth := standard_returns hwidth .null
  bool hwidth b := standard_returns hwidth (.bool b)
  int hwidth _ hdigits := standard_returns hwidth (.int hdigits)
  float hwidth x hfinite := by
    have h := standard_returns hwidth (.float x)
    rwa [blanked, hfinite] at h
  special hwidth x hfinite := by
    have h := standard_returns hwidth (.float x)
    rwa [blanked, hfinite] at h
  str hwidth s := standard_returns hwidth (.str s)
  list hwidth _ _ hreadable hitems := by
    have hread := standard_returns hwidth hreadable
    cases hreadable with
    | list _ hparts =>
      have hfirst := fun v hv => (hparts v hv).mono (Nat.zero_le _)
      rwa [blanked, ← items_of_standard_returns hwidth hfirst hitems] at hread
  dict hwidth _ _ hreadable hentries := by
    have hread := standard_returns hwidth hreadable
    cases hreadable with
    | dict _ _ hparts =>
      have hfirst := fun entry hentry => (hparts entry hentry).mono (Nat.zero_le _)
      rwa [blanked, ← entries_of_standard_returns hwidth hfirst hentries] at hread
  coordinate _ := rfl
  nothing := rfl

end BlockProgram.Json
