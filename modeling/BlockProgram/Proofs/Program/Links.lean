import BlockProgram.Machine.Statement
import BlockProgram.Proofs.Program.Compile

/-!
# Links only lead forward

A node is linked to the node after it and to the heads of its branches (`Program.Links`). A program
is **forward** (`Program.Forward`) if its links lead to nodes and no way along them leads back to
where it began. Every program that is compiled from what an editor draws is
(`Program.forward_of_compile`), as each of its links is an edge, and the edges close no cycle.

A program has finitely many nodes, so a fact about a node can be proved from the same fact about the
nodes that it is linked to (`Program.Forward.induction`).
-/

namespace BlockProgram

open Relation

/-! ## What a node is -/

/-- Whether a node is of the block type of a statement. -/
def Node.is (n : Node) (s : Statement) : Bool := n.type.isStr s.typeName

/-- A statement other than the ender of a loop, which comes in variants, has one block type. -/
theorem Statement.named?_eq_some {s : Statement} (hs : s ≠ .repeatEnder) {type : String} :
    named? type = some s ↔ s.typeName = type := by
  constructor
  · intro h
    rw [named?] at h
    split at h
    · rename_i t hfound
      cases h
      have hname := List.find?_some hfound
      exact beq_iff_eq.1 hname
    · split at h
      · cases h
        exact absurd rfl hs
      · cases h
  · rintro rfl
    cases s <;> decide +kernel

theorem Node.ofType?_eq_some {n : Node} {s : Statement} (hs : s ≠ .repeatEnder) :
    Statement.ofType? n.type = .ok (some s) ↔ n.is s = true := by
  rw [Node.is]
  cases n.type with
  | str type =>
    rw [Statement.ofType?, Except.ok.injEq, Statement.named?_eq_some hs, Value.isStr, beq_iff_eq]
    exact eq_comm
  | list | dict => constructor <;> (intro h; cases h)
  | _ => constructor <;> (intro h; cases h)

/-! ## Links -/

/-- A source as an editor makes it: any graph, as it is drawn anew, or a workspace that requests have
led to. -/
def Source.Drawn : Source → Prop
  | .graph _ => True
  | .workspace ws => ws.Reachable

namespace Program

variable {p : Program} {blocks : List Block} {edges : List Edge} {a b : String}

/-- One node is linked to the other, which comes after it or is the head of a branch of it. -/
def Links (p : Program) (a b : String) : Prop :=
  ∃ n, p.node? a = some n ∧ (n.next = some b ∨ ∃ key, n.branch? key = some b)

theorem links_next {n : Node} (hn : p.node? a = some n) (h : n.next = some b) : p.Links a b :=
  ⟨n, hn, .inl h⟩

theorem links_branch {n : Node} (hn : p.node? a = some n) {key : String}
    (h : n.branch? key = some b) : p.Links a b :=
  ⟨n, hn, .inr ⟨key, h⟩⟩

/-- A program whose links lead to nodes and never back. -/
structure Forward (p : Program) : Prop extends p.Closed where
  acyclic : ∀ id, ¬ TransGen p.Links id id

/-- The links of a built program are edges. -/
theorem joins_of_links (hp : build blocks edges = .ok p) (h : p.Links a b) : Joins edges a b := by
  obtain ⟨unlinked, hu, hnodes, -⟩ := build_ok hp
  have hjoins {keep : Edge → Bool}
      (hlink : ((outEdges unlinked edges a).filter keep).getLast?.map (·.target) = some b) :
      Joins edges a b := by
    obtain ⟨e, he, htarget⟩ := Option.map_eq_some_iff.1 hlink
    obtain ⟨hedge, hsource, -⟩ :=
      mem_outEdges.1 (List.mem_filter.1 (List.mem_of_getLast? he)).1
    exact ⟨e, hedge, hsource, htarget⟩
  obtain ⟨n, hn, hnext | ⟨key, hbranch⟩⟩ := h
  · exact hjoins ((next_linked hu hnodes hn).symm.trans hnext)
  · exact hjoins ((branch?_linked hu hnodes hn key).symm.trans hbranch)

theorem forward_of_build (hacyclic : Acyclic edges) (hp : build blocks edges = .ok p) :
    p.Forward :=
  ⟨closed_build hp, fun id hcycle =>
    hacyclic id (.mono (fun _ _ => joins_of_links hp) _ _ hcycle)⟩

/-- **Compiled programs are forward.** -/
theorem forward_of_compile {source : Source} (hsource : source.Drawn)
    (hp : source.compile = .ok p) : p.Forward := by
  cases source with
  | graph g =>
    simp only [Source.compile, Source.snapshot, ProgramGraph.repaired] at hp
    rcases hdrawn : Workspace.ofGraph g with fault | ws <;> rw [hdrawn] at hp
    · cases hp
    have hreachable : ws.Reachable := .drawn ws.issued hdrawn
    exact forward_of_build hreachable.wellFormed.acyclic hp
  | workspace ws =>
    have hreachable : ws.Reachable := hsource
    exact forward_of_build hreachable.wellFormed.acyclic hp

namespace Forward

/-- Both ends of a link are nodes. -/
theorem ends_of_links (hp : p.Forward) (h : p.Links a b) :
    a ∈ p.nodes.map (·.id) ∧ b ∈ p.nodes.map (·.id) := by
  have hmem {id : String} {n : Node} (hn : p.node? id = some n) : id ∈ p.nodes.map (·.id) :=
    List.mem_map.2 ⟨n, mem_of_findNode? hn, findNode?_id hn⟩
  obtain ⟨n, hn, hlink⟩ := h
  refine ⟨hmem hn, ?_⟩
  rcases hlink with hnext | ⟨key, hbranch⟩
  · obtain ⟨m, hm⟩ := hp.next a n hn b hnext
    exact hmem hm
  · obtain ⟨m, hm⟩ := hp.branch a n hn key b hbranch
    exact hmem hm

/-- Following links comes to an end. -/
theorem wellFounded (hp : p.Forward) : WellFounded fun b a => p.Links a b := by
  refine wellFounded_of_acyclic (fun hlink => (hp.ends_of_links hlink).symm) fun id hcycle => ?_
  exact hp.acyclic id (transGen_swap.1 hcycle)

/-- Following links backward comes to an end as well. -/
theorem wellFounded_back (hp : p.Forward) : WellFounded p.Links :=
  wellFounded_of_acyclic hp.ends_of_links hp.acyclic

/-- What holds of a node as soon as it holds of all nodes that it is linked to, holds of every
node. -/
theorem induction (hp : p.Forward) {P : String → Prop}
    (h : ∀ id, (∀ b, p.Links id b → P b) → P id) (id : String) : P id :=
  hp.wellFounded.induction id h

end Forward

end Program

end BlockProgram
