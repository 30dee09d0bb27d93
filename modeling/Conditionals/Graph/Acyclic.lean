/-
Conditionals.Graph.Acyclic — graphs without cycles, by the children of
each node.

A node may be the child of several nodes and several times the child of
one. `unfoldedSize` counts the nodes of the tree that such a graph
unfolds to from a node; it bounds every walk that goes down from there.
-/
namespace Conditionals.Graph

/-- The zero that sums of sizes start from, whatever algebra of numbers is imported elsewhere. -/
scoped instance (priority := 2000) sizeZero : Zero Nat := Zero.ofOfNat0

variable {ι : Type}

/-- A node `c` is a child of `n`. -/
def IsChild (children : ι → List ι) (c n : ι) : Prop :=
  c ∈ children n

/-- No way down from a node goes on for ever. -/
abbrev Acyclic (children : ι → List ι) : Prop :=
  WellFounded (IsChild children)

/-- A graph is acyclic if some number gets smaller from each node to its children. -/
theorem Acyclic.of_rank {children : ι → List ι} (rank : ι → Nat)
    (h : ∀ n, ∀ c ∈ children n, rank c < rank n) : Acyclic children :=
  Subrelation.wf (fun {c n} hc => h n c hc) (InvImage.wf rank Nat.lt_wfRel.wf)

/-- How many nodes the tree has that the graph unfolds to below a node, itself included. -/
noncomputable def unfoldedSize (children : ι → List ι) (acyclic : Acyclic children) : ι → Nat :=
  acyclic.fix fun n size => 1 + ((children n).attach.map fun c => size c.1 c.2).sum

theorem unfoldedSize_eq (children : ι → List ι) (acyclic : Acyclic children) (n : ι) :
    unfoldedSize children acyclic n =
      1 + ((children n).map (unfoldedSize children acyclic)).sum := by
  have h := acyclic.fix_eq
    (fun n size => 1 + ((children n).attach.map fun c => size c.1 c.2).sum) n
  rw [unfoldedSize, h]
  exact congrArg (fun sizes : List Nat => 1 + sizes.sum)
    List.attach_map_val

end Conditionals.Graph
