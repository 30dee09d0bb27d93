/-
Conditionals.Graph.Adjacency — graphs given by a table of children.

The nodes are the indices of the table. A graph is acyclic just if its
nodes have heights, each greater than the heights of its children;
`Adjacency.toDag?` looks for them.
-/
import Conditionals.Graph.Fold

namespace Conditionals

open scoped Conditionals.Graph

/-- The children of each node, by the index of the node. -/
structure Adjacency where
  children : Array (List Nat)

namespace Adjacency

/-- The children of a node; an index beyond the table has none. -/
def childrenOf (a : Adjacency) (n : Nat) : List Nat :=
  a.children.getD n []

/-- Heights that are greater for each node than for its children. -/
def Graded (a : Adjacency) (heights : Array Nat) : Prop :=
  ∀ n < a.children.size, ∀ c ∈ a.childrenOf n, heights.getD c 0 < heights.getD n 0

instance (a : Adjacency) (heights : Array Nat) : Decidable (a.Graded heights) :=
  inferInstanceAs (Decidable (∀ n < a.children.size, ∀ c ∈ a.childrenOf n, _))

theorem Graded.acyclic {a : Adjacency} {heights : Array Nat} (h : a.Graded heights) :
    Graph.Acyclic a.childrenOf := by
  refine .of_rank (heights.getD · 0) fun n c hc => ?_
  by_cases hn : n < a.children.size
  · exact h n hn c hc
  · simp [childrenOf, hn] at hc

/-- Raises each node above the present heights of its children. -/
def raise (a : Adjacency) (heights : Array Nat) : Array Nat :=
  a.children.map fun cs => cs.foldl (fun height c => max height (heights.getD c 0 + 1)) 0

/-- Raises the nodes until their heights are graded, `rounds` times at most. -/
def settle (a : Adjacency) : (rounds : Nat) → Array Nat → Array Nat
  | 0, heights => heights
  | rounds + 1, heights =>
    if a.Graded heights then heights else a.settle rounds (a.raise heights)

/-- The graph of a table, if it is acyclic. -/
def toDag? (ε : Type) (a : Adjacency) : Option (Dag Nat ε) :=
  let heights := a.settle a.children.size (a.children.map fun _ => 0)
  if h : a.Graded heights then some ⟨fun n => .ok (a.childrenOf n), h.acyclic⟩ else none

/-- Counts the ways down from each node: one more than the counts of its children together. -/
def countPaths (_ : Nat) (counts : List Nat) : Except Empty Nat :=
  .ok (1 + counts.sum)

end Adjacency

end Conditionals
