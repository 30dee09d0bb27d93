/-
Conditionals.Graph.Fold — combining an acyclic graph bottom up.

`Dag.fold` gives a value to every node below a root, each from the values
of its children in order. It keeps a list of tasks and a table of the
values found so far, so no node is combined twice and the depth of the
graph does not matter. The children of a node are asked for when it is
first visited and visited from last to first; a node is combined after
all of them. The first fault met on this way ends the fold.
-/
import Conditionals.Graph.Acyclic
import Std.Data.HashMap

namespace Conditionals

open scoped Conditionals.Graph

/-! ## Graphs -/

/-- The children of a node, or none if asking for them fails. -/
def childrenOrNil {ι ε : Type} (children : ι → Except ε (List ι)) (n : ι) : List ι :=
  match children n with
  | .ok cs => cs
  | .error _ => []

/-- An acyclic graph; asking a node for its children may fail. -/
structure Dag (ι ε : Type) where
  children : ι → Except ε (List ι)
  acyclic : Graph.Acyclic (childrenOrNil children)

namespace Dag

variable {ι ε ρ : Type} [BEq ι] [Hashable ι]

/-! ## The walk -/

/-- A step of the walk that is still to be done. -/
inductive Task (ι : Type) where
  /-- Ask a node for its children and visit them. -/
  | visit (n : ι)
  /-- Combine a node whose children all have values. -/
  | combine (n : ι) (children : List ι)

/-- What the walk has found. -/
structure Progress (ι ρ : Type) [BEq ι] [Hashable ι] where
  /-- The value of each node combined. -/
  values : Std.HashMap ι ρ
  /-- The nodes combined, the last first. -/
  combined : List ι

namespace Progress

/-- Nothing has been found. -/
def start : Progress ι ρ :=
  ⟨∅, []⟩

/-- The values of some nodes, in order. -/
def valuesOf (p : Progress ι ρ) (ns : List ι) : List ρ :=
  ns.filterMap fun n => p.values[n]?

/-- Gives a value to a node. -/
def record (p : Progress ι ρ) (n : ι) (value : ρ) : Progress ι ρ :=
  ⟨p.values.insert n value, n :: p.combined⟩

end Progress

/-- The visits to the children of a node, the last one first. -/
def visits (children : List ι) : List (Task ι) :=
  children.reverse.map .visit

/-- How much work a task brings at most. -/
noncomputable def Task.weight (g : Dag ι ε) : Task ι → Nat
  | .visit n => 2 * Graph.unfoldedSize _ g.acyclic n
  | .combine _ _ => 1

omit [BEq ι] [Hashable ι] in
/-- Visiting a node replaces its task by less work. -/
theorem weight_visits_lt (g : Dag ι ε) {n : ι} {children : List ι}
    (h : g.children n = .ok children) :
    ((visits children).map (Task.weight g)).sum + 1 < (Task.visit n).weight g := by
  have hn : childrenOrNil g.children n = children := by simp [childrenOrNil, h]
  have key : ∀ cs : List ι, ((visits cs).map (Task.weight g)).sum =
      2 * (cs.map (Graph.unfoldedSize _ g.acyclic)).sum := by
    intro cs
    simp only [visits, List.map_map, List.map_reverse, List.sum_reverse]
    induction cs with
    | nil => rfl
    | cons c cs ih => simp only [List.map_cons, List.sum_cons, ih, Function.comp, Task.weight]; omega
  rw [Task.weight, Graph.unfoldedSize_eq, hn, key]
  omega

/-- Does all tasks, the first one first. -/
def work (g : Dag ι ε) (combine : ι → List ρ → Except ε ρ) (p : Progress ι ρ) :
    List (Task ι) → Except ε (Progress ι ρ)
  | [] => .ok p
  | .visit n :: tasks =>
    if p.values.contains n then work g combine p tasks
    else
      match h : g.children n with
      | .error e => .error e
      | .ok children =>
        have := weight_visits_lt g h
        work g combine p (visits children ++ .combine n children :: tasks)
  | .combine n children :: tasks =>
    match combine n (p.valuesOf children) with
    | .error e => .error e
    | .ok value => work g combine (p.record n value) tasks
  termination_by tasks => (tasks.map (Task.weight g)).sum
  decreasing_by
    · simp only [List.map_cons, List.sum_cons, Task.weight, Graph.unfoldedSize_eq]
      omega
    · simp only [List.map_append, List.map_cons, List.sum_append, List.sum_cons, Task.weight] at *
      omega
    · simp only [List.map_cons, List.sum_cons, Task.weight]
      omega

/-- The outcome of a fold. -/
structure Folded (ι ρ : Type) where
  /-- The value of the root. -/
  value : ρ
  /-- The nodes in the order in which they were combined. -/
  order : List ι

/-- Combines all nodes below a root, the root last. -/
def fold (g : Dag ι ε) (combine : ι → List ρ → Except ε ρ) (root : ι) :
    Except ε (Folded ι ρ) := do
  let children ← g.children root
  let p ← g.work combine .start (visits children)
  let value ← combine root (p.valuesOf children)
  return ⟨value, (root :: p.combined).reverse⟩

end Dag

end Conditionals
