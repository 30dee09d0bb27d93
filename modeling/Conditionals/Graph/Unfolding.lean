/-
Conditionals.Graph.Unfolding — folding the tree that a graph unfolds to.

The places below a node form an acyclic graph of their own: a place is the
way down to it, the indices of the children to take, the innermost first.
`Dag.foldUnfolded` folds the graph of places, so a node that is reached
in several ways is folded once for each of them.
-/
import Conditionals.Graph.Fold

namespace Conditionals.Dag

variable {τ ε ρ : Type}

/-! ## Places -/

/-- The node at a place below another one. -/
def nodeAt? (g : Dag τ ε) (top : τ) : List Nat → Option τ
  | [] => some top
  | i :: above => (g.nodeAt? top above).bind fun n => (childrenOrNil g.children n)[i]?

/-- A place below a node, with the node that is found there. -/
structure Place (g : Dag τ ε) (top : τ) where
  path : List Nat
  node : τ
  nodeAt?_path : g.nodeAt? top path = some node

namespace Place

variable {g : Dag τ ε} {top : τ}

/-- One place holds one node. -/
theorem eq_of_path_eq {p q : g.Place top} (h : p.path = q.path) : p = q := by
  obtain ⟨path, n, hn⟩ := p
  obtain ⟨path', m, hm⟩ := q
  cases h
  cases hn.symm.trans hm
  rfl

instance : DecidableEq (g.Place top) := fun p q =>
  decidable_of_iff (p.path = q.path) ⟨eq_of_path_eq, congrArg path⟩

instance : Hashable (g.Place top) := ⟨fun p => hash p.path⟩

/-- The place of the node itself. -/
def start : g.Place top :=
  ⟨[], top, rfl⟩

/-- The place of one child of the node at a place. -/
def child (p : g.Place top) {ns : List τ} (h : g.children p.node = .ok ns)
    (i : Fin ns.length) : g.Place top :=
  ⟨i.val :: p.path, ns[i], by simp [nodeAt?, p.nodeAt?_path, childrenOrNil, h]⟩

/-- The places of the children of the node at a place. -/
def children (p : g.Place top) : Except ε (List (g.Place top)) :=
  match h : g.children p.node with
  | .error e => .error e
  | .ok ns => .ok ((List.finRange ns.length).map (p.child h))

theorem node_mem_children {p q : g.Place top} (hq : q ∈ childrenOrNil children p) :
    q.node ∈ childrenOrNil g.children p.node := by
  unfold childrenOrNil children at hq
  split at hq
  next places h =>
    split at h
    · cases h
    next ns hns =>
      cases h
      obtain ⟨i, _, rfl⟩ := List.mem_map.1 hq
      simp [childrenOrNil, hns, child]
  · cases hq

end Place

/-! ## Folding -/

/-- The graph of the places below a node. -/
def unfold (g : Dag τ ε) (top : τ) : Dag (g.Place top) ε where
  children := Place.children
  acyclic := Subrelation.wf Place.node_mem_children (InvImage.wf Place.node g.acyclic)

/-- Combines the tree that the graph unfolds to below a node. -/
def foldUnfolded (g : Dag τ ε) (combine : τ → List ρ → Except ε ρ) (top : τ) : Except ε ρ :=
  ((g.unfold top).fold (fun p => combine p.node) .start).map (·.value)

end Conditionals.Dag
