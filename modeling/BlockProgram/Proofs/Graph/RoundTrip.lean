import Mathlib
import BlockProgram.Proofs.Graph.Document
import BlockProgram.Proofs.Json.ReadBack

/-!
# Saved programs load back

A graph that was loaded from a document, saved again and loaded again is the same graph in every
field if and only if all its numbers are finite (`ProgramGraph.load_save_iff`). A saved document
cannot express infinities and not-a-number, though a document may hold numbers that are read as
such: they are saved as nothing. The indentation makes no difference, as long as it is a width.

All of this holds of any library for documents that keeps the laws (`Json.Library.Lawful`). The saved
record is readable, as a graph that was loaded has readable parts only
(`ProgramGraph.readable_record`); so it comes back with nothing in the place of these numbers
(`ProgramGraph.exists_load_save`), and field by field it is seen that a block comes back as it was if
and only if there were none (`Record.block_blanked`).
-/

namespace BlockProgram

/-- A value without infinities and not-a-number in it. -/
inductive Value.Finite : Value → Prop
  | null : Finite .null
  | bool (b : Bool) : Finite (.bool b)
  | int (n : Int) : Finite (.int n)
  | float {x : Float} (h : Binary.isFinite x = true) : Finite (.float x)
  | str (s : String) : Finite (.str s)
  | list {items : List Value} (h : ∀ v ∈ items, Finite v) : Finite (.list items)
  | dict {entries : Dict} (h : ∀ entry ∈ entries, Finite entry.2) : Finite (.dict entries)
  | ref (block : String) : Finite (.ref block)

namespace Value

variable {x : Float} {items : List Value} {entries : Dict}

theorem finite_float : (Value.float x).Finite ↔ Binary.isFinite x = true := by
  refine ⟨fun h => ?_, .float⟩
  cases h with
  | float hfinite => exact hfinite

theorem finite_list : (Value.list items).Finite ↔ ∀ v ∈ items, v.Finite := by
  refine ⟨fun h => ?_, .list⟩
  cases h with
  | list hitems => exact hitems

theorem finite_dict : (Value.dict entries).Finite ↔ ∀ entry ∈ entries, entry.2.Finite := by
  refine ⟨fun h => ?_, .dict⟩
  cases h with
  | dict hentries => exact hentries

end Value

/-- A block without infinities and not-a-number in its fields. -/
structure Block.Finite (b : Block) : Prop where
  inputs : b.inputs.Finite
  x : b.x.Finite
  y : b.y.Finite
  w : b.w.Finite
  h : b.h.Finite
  data : b.data.Finite

/-- A graph without infinities and not-a-number in its blocks. -/
def ProgramGraph.Finite (g : ProgramGraph) : Prop := ∀ b ∈ g.blocks, b.Finite

namespace Json

/-- A value reads back as it is if and only if it has no infinities and not-a-number in it. -/
theorem Readable.blanked_eq_iff {most : Limits} {depth : Nat} {v : Value}
    (h : Readable most depth v) :
    blanked v = v ↔ v.Finite := by
  induction h with
  | null => exact ⟨fun _ => .null, fun _ => rfl⟩
  | bool b => exact ⟨fun _ => .bool b, fun _ => rfl⟩
  | int => exact ⟨fun _ => .int _, fun _ => rfl⟩
  | str s => exact ⟨fun _ => .str s, fun _ => rfl⟩
  | float x =>
    rw [blanked, Value.finite_float]
    cases Binary.isFinite x <;> simp
  | list _ _ ih =>
    rename_i items _ _
    have hmap := @List.map_inj_left _ _ items blanked id
    rw [List.map_id, ← blankedItems_eq] at hmap
    rw [blanked, Value.list.injEq, hmap, Value.finite_list]
    exact forall₂_congr ih
  | dict _ _ _ ih =>
    rename_i entries _ _ _
    have hmap := @List.map_inj_left _ _ entries (fun entry => (entry.1, blanked entry.2)) id
    rw [List.map_id, ← blankedEntries_eq] at hmap
    rw [blanked, Value.dict.injEq, hmap, Value.finite_dict]
    refine forall₂_congr fun entry hentry => ?_
    rw [← ih entry hentry, id, Prod.ext_iff]
    exact and_iff_right rfl

end Json

namespace Record

variable {library : Json.Library} {most : Json.Limits}

/-! ## Fields -/

theorem coordinateValue_blanked (hlaws : library.Lawful most) (x : Float) :
    coordinateValue library.origin (Json.blanked (.float x)) = .ok (.float x) ↔
      (Value.float x).Finite := by
  rw [Json.blanked, Value.finite_float]
  cases Binary.isFinite x with
  | false =>
    rw [if_neg Bool.false_ne_true, coordinateValue, hlaws.nothing]
    exact ⟨fun h => (by cases h), fun h => (by cases h)⟩
  | true =>
    rw [if_pos rfl, coordinateValue, hlaws.coordinate]
    exact ⟨fun _ => rfl, fun _ => rfl⟩

theorem sizeValue_blanked (hlaws : library.Lawful most) {v : Value}
    (hv : v = .null ∨ ∃ x, v = .float x) :
    sizeValue library.origin (Json.blanked v) = .ok v ↔ v.Finite := by
  rcases hv with rfl | ⟨x, rfl⟩
  · exact ⟨fun _ => .null, fun _ => rfl⟩
  · rw [Json.blanked, Value.finite_float]
    cases Binary.isFinite x with
    | false => exact ⟨fun h => (by cases h), fun h => (by cases h)⟩
    | true =>
      rw [if_pos rfl, sizeValue, coordinateValue, hlaws.coordinate]
      · exact ⟨fun _ => rfl, fun _ => rfl⟩
      · rintro ⟨⟩

theorem namedValues_of_named {entries : Dict} (h : entries.Named) :
    namedValues (.dict entries) = .ok (.dict entries) := by
  have hnone : keyIssues entries = [] := by
    refine List.filterMap_eq_nil_iff.2 fun entry hentry => ?_
    obtain ⟨name, hname⟩ := h.exists_name entry hentry
    simp only [hname]
  rw [namedValues, hnone]

theorem namedValues_blanked {v : Value} {depth : Nat}
    (hv : ∃ entries, v = .dict entries ∧ Json.Readable most depth (.dict entries)) :
    namedValues (Json.blanked v) = .ok v ↔ v.Finite := by
  obtain ⟨entries, rfl, hreadable⟩ := hv
  rw [← hreadable.blanked_eq_iff]
  cases hreadable with
  | dict _ hnamed _ =>
    have hblanked : (Json.blankedEntries entries).Named := by
      rwa [Dict.Named, Json.blankedEntries_eq, List.map_map]
    rw [Json.blanked, namedValues_of_named hblanked, Except.ok.injEq]

theorem savedCoordinate_eq {v : Value} (hv : v = .null ∨ ∃ x, v = .float x) :
    savedCoordinate v = v := by
  rcases hv with rfl | ⟨x, rfl⟩ <;> rfl

/-- A block is loaded from its saved record if and only if all its numbers are finite. -/
theorem block_blanked (hlaws : library.Lawful most) {b : Block} (hb : b.Loaded most) :
    block library.origin (Json.blanked b.record) = .ok b ↔ b.Finite := by
  obtain ⟨⟨t, htype⟩, hinputs, ⟨x, hx⟩, ⟨y, hy⟩, hwidth, hheight, hdata⟩ := hb
  obtain ⟨id, type, inputs, x', y', w, h, data⟩ := b
  dsimp only at *
  subst htype hx hy
  rw [Block.record, savedCoordinate_eq hwidth, savedCoordinate_eq hheight]
  rw [Json.blanked, block, blockOfFields_iff, optional_iff rfl, optional_iff rfl, optional_iff rfl,
    optional_iff rfl, optional_iff rfl, optional_iff rfl]
  constructor
  · rintro ⟨-, -, hinputs', hx, hy, hwidth', hheight', hdata'⟩
    exact
      { inputs := (namedValues_blanked hinputs).1 hinputs'
        x := (coordinateValue_blanked hlaws x).1 hx
        y := (coordinateValue_blanked hlaws y).1 hy
        w := (sizeValue_blanked hlaws hwidth).1 hwidth'
        h := (sizeValue_blanked hlaws hheight).1 hheight'
        data := (namedValues_blanked hdata).1 hdata' }
  · rintro ⟨hinputs', hx, hy, hwidth', hheight', hdata'⟩
    exact ⟨rfl, rfl, (namedValues_blanked hinputs).2 hinputs', (coordinateValue_blanked hlaws x).2 hx,
      (coordinateValue_blanked hlaws y).2 hy, (sizeValue_blanked hlaws hwidth).2 hwidth',
      (sizeValue_blanked hlaws hheight).2 hheight', (namedValues_blanked hdata).2 hdata'⟩

/-- An edge is loaded from its saved record. -/
theorem edge_blanked (e : Edge) : edge (Json.blanked e.record) = .ok e := by
  obtain ⟨kind, source, target, branch, socket⟩ := e
  cases kind <;> cases branch <;> cases socket <;> rfl

/-! ## Lists of records -/

/-- A graph is loaded from its saved record if and only if all its numbers are finite. -/
theorem graph_blanked (hlaws : library.Lawful most) {g : ProgramGraph}
    (hg : ∀ b ∈ g.blocks, b.Loaded most) :
    graph library.origin (Json.blanked g.record) = .ok g ↔ g.Finite := by
  have hblocks :
      Checked.items (block library.origin) 0 (Json.blankedItems (g.blocks.map Block.record)) =
        .ok g.blocks ↔ g.Finite := by
    rw [Json.blankedItems_eq, List.map_map, items_map_iff]
    exact forall₂_congr fun b hb => block_blanked hlaws (hg b hb)
  have hedges :
      Checked.items edge 0 (Json.blankedItems (g.edges.map Edge.record)) = .ok g.edges := by
    rw [Json.blankedItems_eq, List.map_map, items_map_iff]
    exact fun e _ => edge_blanked e
  rw [ProgramGraph.record, Json.blanked, graph_iff, optional_iff rfl, optional_iff rfl]
  exact ⟨fun h => hblocks.1 h.1, fun h => ⟨hblocks.2 h, hedges⟩⟩

end Record

/-! ## Records of loaded graphs -/

section

variable {most : Json.Limits} (hroom : 3 ≤ most.depth)
include hroom

theorem Block.Loaded.readable_record {b : Block} (hb : b.Loaded most) :
    Json.Readable most 2 b.record := by
  obtain ⟨⟨t, htype⟩, ⟨inputs, hinputs, hreadable⟩, ⟨x, hx⟩, ⟨y, hy⟩, hwidth, hheight,
    ⟨data, hdata, hreadable'⟩⟩ := hb
  have hsize {v : Value} (hv : v = .null ∨ ∃ x, v = .float x) : Json.Readable most 3 v := by
    rcases hv with rfl | ⟨x, rfl⟩
    · exact .null
    · exact .float x
  rw [record, htype, hinputs, hx, hy, hdata, Record.savedCoordinate_eq hwidth,
    Record.savedCoordinate_eq hheight]
  refine .dict (fun _ => hroom)
    ⟨["id", "type", "inputs", "x", "y", "w", "h", "data"], by decide, rfl⟩ ?_
  simp only [List.forall_mem_cons]
  exact ⟨.str _, .str _, hreadable, .float x, .float y, hsize hwidth, hsize hheight, hreadable',
    List.forall_mem_nil _⟩

theorem Edge.readable_record (e : Edge) : Json.Readable most 2 e.record := by
  have htext (s : Option String) : Json.Readable most 3 (Value.ofText? s) := by
    cases s with
    | none => exact .null
    | some s => exact .str s
  refine .dict (fun _ => hroom) ⟨["kind", "from", "to", "branch", "port"], by decide, rfl⟩ ?_
  simp only [List.forall_mem_cons]
  exact ⟨.str _, .str _, .str _, htext _, htext _, List.forall_mem_nil _⟩

theorem ProgramGraph.readable_record {g : ProgramGraph} (hg : ∀ b ∈ g.blocks, b.Loaded most) :
    Json.Readable most 0 g.record := by
  refine .dict (fun _ => by omega) ⟨["blocks", "edges"], by decide, rfl⟩ ?_
  simp only [List.forall_mem_cons]
  refine ⟨.list (fun _ => by omega) ?_, .list (fun _ => by omega) ?_, List.forall_mem_nil _⟩
  · exact List.forall_mem_map.2 fun b hb => (hg b hb).readable_record hroom
  · exact List.forall_mem_map.2 fun e _ => e.readable_record hroom

end

namespace ProgramGraph

variable {library : Json.Library} {most : Json.Limits}

/-- Loading a saved graph is reading its record with nothing in the place of infinities and
not-a-number. -/
theorem exists_load_save (hlaws : library.Lawful most) {g : ProgramGraph}
    (hg : ∀ b ∈ g.blocks, b.Loaded most) {indent : Option Int} (hwidth : Json.IsWidth indent) :
    ∃ saved, g.save library indent = .ok saved ∧
      load library saved = Record.graph library.origin (Json.blanked g.record) := by
  obtain ⟨saved, hwrite, hread⟩ := hlaws.returns hwidth (readable_record hlaws.room hg)
  exact ⟨saved, hwrite, by rw [load, hread]⟩

/-- **A loaded graph that is saved loads back as it is** if and only if its numbers are finite and
the indentation is nothing or a width, whatever library for documents is used. -/
theorem load_save_iff (hlaws : library.Lawful most) {text : String} {g : ProgramGraph}
    (h : load library text = .ok g) (indent : Option Int) :
    (∃ saved, g.save library indent = .ok saved ∧ load library saved = .ok g) ↔
      (∀ n, indent = some n → 0 ≤ n ∧ n < 2 ^ 64) ∧ g.Finite := by
  have hg := loaded_of_load hlaws h
  constructor
  · rintro ⟨saved, hsave, hload⟩
    have hwidth : Json.IsWidth indent := by
      rintro n rfl
      exact hlaws.width hsave
    obtain ⟨saved', hsave', hback⟩ := exists_load_save hlaws hg hwidth
    obtain rfl : saved = saved' := Except.ok.inj (hsave.symm.trans hsave')
    exact ⟨hwidth, (Record.graph_blanked hlaws hg).1 (hback.symm.trans hload)⟩
  · rintro ⟨hwidth, hfinite⟩
    obtain ⟨saved, hsave, hback⟩ := exists_load_save hlaws hg hwidth
    exact ⟨saved, hsave, hback.trans ((Record.graph_blanked hlaws hg).2 hfinite)⟩

/-- A document with a number in a text, an escape and a long name for an end of an edge. -/
def sampleText : String :=
  "\x7b\"blocks\":[\x7b\"id\":\"a\",\"type\":\"say\",\"x\":\"2.5\"," ++
    "\"inputs\":\x7b\"text\":[1,null,\"\\u00e9\"]\x7d\x7d]," ++
    "\"edges\":[\x7b\"kind\":\"stack\",\"from_id\":\"a\",\"to\":\"a\"\x7d]\x7d"

/-- The graph in it. -/
def sample : ProgramGraph where
  blocks := [{ id := "a", type := .str "say", x := .float 2.5,
               inputs := .dict [(.str "text", .list [.int 1, .null, .str "é"])] }]
  edges := [.stack "a" "a"]

/-- It is saved with two blanks for a level by the library of the commands, and loaded again. -/
theorem load_save_sample : Json.standard.Lawful Json.limits ∧
    load Json.standard sampleText = .ok sample ∧
    ∃ saved, sample.save Json.standard (some 2) = .ok saved ∧
      load Json.standard saved = .ok sample := by
  have hread : Json.standard.read? sampleText = some (.dict
      [(.str "blocks", .list [.dict [(.str "id", .str "a"), (.str "type", .str "say"),
          (.str "x", .str "2.5"),
          (.str "inputs", .dict [(.str "text", .list [.int 1, .null, .str "é"])])]]),
        (.str "edges", .list [.dict [(.str "kind", .str "stack"), (.str "from_id", .str "a"),
          (.str "to", .str "a")]])]) := by cbv
  have hload : load Json.standard sampleText = .ok sample := by
    rw [load, hread]
    rfl
  have hitems : (Value.list [.int 1, .null, .str "é"]).Finite := by
    refine .list ?_
    simp only [List.forall_mem_cons]
    exact ⟨.int 1, .null, .str "é", List.forall_mem_nil _⟩
  have hfinite : sample.Finite := List.forall_mem_singleton.2
    { inputs := .dict (List.forall_mem_singleton.2 hitems)
      x := .float (by decide +kernel)
      y := .float (by decide +kernel)
      w := .null
      h := .null
      data := .dict (List.forall_mem_nil _) }
  refine ⟨Json.lawful_standard, hload, (load_save_iff Json.lawful_standard hload (some 2)).2 ?_⟩
  exact ⟨fun _ h => by cases h; decide, hfinite⟩

/-- A document with a number beyond the range of floats, which is read as infinity. -/
def beyondText : String :=
  "\x7b\"blocks\":[\x7b\"id\":\"a\",\"type\":\"say\",\"x\":1e999\x7d]\x7d"

/-- The graph in it. -/
def beyond : ProgramGraph where
  blocks := [{ id := "a", type := .str "say", x := .float (Binary.infinity false) }]

/-- It is saved with nothing as position, which is refused when it is loaded again. -/
theorem load_save_beyond : Json.standard.Lawful Json.limits ∧
    load Json.standard beyondText = .ok beyond ∧
    ∃ saved, beyond.save Json.standard none = .ok saved ∧
      load Json.standard saved =
        .error [⟨[.field "blocks", .index 0, .field "x"], .numberExpected⟩] := by
  have hload : load Json.standard beyondText = .ok beyond := by cbv
  have hloaded := loaded_of_load Json.lawful_standard hload
  obtain ⟨saved, hsave, hback⟩ := exists_load_save Json.lawful_standard hloaded Json.isWidth_none
  exact ⟨Json.lawful_standard, hload, saved, hsave, hback.trans rfl⟩

end ProgramGraph

end BlockProgram
