import BlockProgram.Graph.Document
import BlockProgram.Proofs.Json.Lawful
import BlockProgram.Proofs.Program.Evaluate

/-!
# What a document can hold

A document has no way to write a reference to a block. So nowhere in a value read from one is a
reference (`Json.Readable.refFree`), and a graph loaded from a document has only literals at the
sockets of its blocks (`ProgramGraph.literal_of_load`): references come from edges alone.
-/

namespace BlockProgram

/-- A value without a reference anywhere in it. -/
inductive Value.RefFree : Value → Prop
  | null : RefFree .null
  | bool (b : Bool) : RefFree (.bool b)
  | int (n : Int) : RefFree (.int n)
  | float (x : Float) : RefFree (.float x)
  | str (s : String) : RefFree (.str s)
  | list {items : List Value} : (∀ v ∈ items, RefFree v) → RefFree (.list items)
  | dict {entries : Dict} : (∀ entry ∈ entries, RefFree entry.2) → RefFree (.dict entries)

/-- What can be read has no reference in it. -/
theorem Json.Readable.refFree {most : Limits} {depth : Nat} {v : Value}
    (h : Readable most depth v) : v.RefFree := by
  induction h with
  | null => exact .null
  | bool b => exact .bool b
  | int => exact .int _
  | float x => exact .float x
  | str s => exact .str s
  | list _ _ ih => exact .list ih
  | dict _ _ _ ih => exact .dict ih

/-- No reference is typed in at a socket of a block. -/
def Block.Literal (b : Block) : Prop :=
  ∀ entries, b.inputs = .dict entries → ∀ socket id, Dict.named? entries socket ≠ some (.ref id)

theorem Block.literal_of_refFree {b : Block} (h : b.inputs.RefFree) : b.Literal := by
  intro entries hentries socket id hsocket
  rw [hentries] at h
  cases h with
  | dict h => cases Dict.of_named? h hsocket

/-- A block as it is read from a document: a text as type, dictionaries with readable values as
inputs and data, and floats as position and size. -/
structure Block.Loaded (most : Json.Limits) (b : Block) : Prop where
  type : ∃ name, b.type = .str name
  inputs : ∃ entries, b.inputs = .dict entries ∧ Json.Readable most 3 (.dict entries)
  x : ∃ x, b.x = .float x
  y : ∃ y, b.y = .float y
  w : b.w = .null ∨ ∃ w, b.w = .float w
  h : b.h = .null ∨ ∃ h, b.h = .float h
  data : ∃ entries, b.data = .dict entries ∧ Json.Readable most 3 (.dict entries)

theorem Block.Loaded.literal {most : Json.Limits} {b : Block} (h : b.Loaded most) : b.Literal := by
  obtain ⟨entries, hentries, hreadable⟩ := h.inputs
  exact literal_of_refFree (hentries ▸ hreadable.refFree)

namespace Record

variable {origin : Origin} {most : Json.Limits} {r : Dict}

theorem readable_of_optional {name : String} {named : Value} {depth : Nat}
    (hr : ∀ entry ∈ r, Json.Readable most depth entry.2)
    (h : optional r name (.dict []) namedValues = .ok named) :
    ∃ entries, named = .dict entries ∧ Json.Readable most depth (.dict entries) := by
  rcases optional_ok h with rfl | ⟨v, hv, hcheck⟩
  · exact ⟨[], rfl, .dict (fun hne => absurd rfl hne) ⟨[], by simp⟩ (List.forall_mem_nil _)⟩
  · obtain ⟨rfl, entries, rfl⟩ := namedValues_eq hcheck
    exact ⟨entries, rfl, Dict.of_named? hr hv⟩

theorem float_of_optional {name : String} {c : Value}
    (h : optional r name (.float 0) (coordinateValue origin) = .ok c) : ∃ x, c = .float x := by
  rcases optional_ok h with rfl | ⟨v, -, hcheck⟩
  · exact ⟨0, rfl⟩
  · obtain ⟨x, -, rfl⟩ := map_ok hcheck
    exact ⟨x, rfl⟩

theorem size_of_optional {name : String} {c : Value}
    (h : optional r name .null (sizeValue origin) = .ok c) : c = .null ∨ ∃ x, c = .float x := by
  rcases optional_ok h with rfl | ⟨v, -, hcheck⟩
  · exact .inl rfl
  · unfold sizeValue at hcheck
    split at hcheck
    · cases hcheck
      exact .inl rfl
    · obtain ⟨x, -, rfl⟩ := map_ok hcheck
      exact .inr ⟨x, rfl⟩

theorem loaded_block {v : Value} {b : Block} (hv : Json.Readable most 2 v)
    (h : block origin v = .ok b) : b.Loaded most := by
  simp only [block] at h
  split at h
  · rename_i fields
    obtain ⟨-, htype, hinputs, hx, hy, hwidth, hheight, hdata⟩ := blockOfFields_iff.1 h
    obtain ⟨name, -, hname⟩ := map_ok htype
    cases hv with
    | dict _ _ hfields =>
      exact
        { type := ⟨name, hname⟩
          inputs := readable_of_optional hfields hinputs
          x := float_of_optional hx
          y := float_of_optional hy
          w := size_of_optional hwidth
          h := size_of_optional hheight
          data := readable_of_optional hfields hdata }
  · cases h

theorem loaded_graph {v : Value} {g : ProgramGraph} (hv : Json.Readable most 0 v)
    (h : graph origin v = .ok g) : ∀ b ∈ g.blocks, b.Loaded most := by
  cases v with
  | dict r =>
    obtain ⟨hblocks, -⟩ := graph_iff.1 h
    rcases optional_ok hblocks with hnone | ⟨listed, hlisted, hcheck⟩
    · rw [hnone]
      exact fun _ hb => absurd hb List.not_mem_nil
    · intro b hb
      cases hv with
      | dict _ _ hr =>
        have hreadable := Dict.of_named? hr hlisted
        simp only [records] at hcheck
        split at hcheck
        · cases hreadable with
          | list _ hvalues =>
            obtain ⟨a, ha, hblock⟩ := items_ok hcheck b hb
            exact loaded_block (hvalues a ha) hblock
        · cases hcheck
  | _ => cases h

end Record

namespace ProgramGraph

variable {library : Json.Library} {most : Json.Limits} {text : String} {g : ProgramGraph}

theorem loaded_of_load (hlaws : library.Lawful most) (h : load library text = .ok g) :
    ∀ b ∈ g.blocks, b.Loaded most := by
  simp only [load] at h
  split at h
  · rename_i v hv
    exact Record.loaded_graph (hlaws.readable hv) h
  · cases h

/-- **A document holds literals only**, so the references of a program come from its edges. -/
theorem literal_of_load (hlaws : library.Lawful most) (h : load library text = .ok g) :
    ∀ b ∈ g.blocks, b.Literal :=
  fun b hb => (loaded_of_load hlaws h b hb).literal

end ProgramGraph

end BlockProgram
