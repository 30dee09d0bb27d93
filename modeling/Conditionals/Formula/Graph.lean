/-
Conditionals.Formula.Graph — formulas whose parts may be shared.

* `Layer` — the outermost constructor of a formula, with references to its
  operands;
* `FormulaGraph` — a formula for each reference, with a digest of each.
  The digests come from any function on layers; formulas that differ may
  have one digest;
* `FormulaGraph.equal` — whether two references stand for one formula.

Comparing keeps a list of pairs to compare and a set of all pairs that
were ever on the list. A pair in the set is never put on the list again,
so shared parts are compared once. The set can be handed on from one
comparison to the next.
-/
import Conditionals.Formula.Basic
import Conditionals.Graph.Acyclic
import Std.Data.HashSet

namespace Conditionals

open scoped Conditionals.Graph

/-! ## Layers -/

/-- The outermost constructor of a formula and what stands for its operands. -/
inductive Layer (ι : Type) where
  | const (value : Bool)
  | atom (a : Atom)
  | neg (operand : ι)
  | join (op : Connective) (left right : ι)
  deriving DecidableEq, Hashable, Repr

namespace Layer

variable {ι κ : Type}

/-- What stands for the operands, in order. -/
def operands : Layer ι → List ι
  | const _ => []
  | atom _ => []
  | neg i => [i]
  | join _ i j => [i, j]

/-- The layer with other things in the place of the operands. -/
def map (f : ι → κ) : Layer ι → Layer κ
  | const value => const value
  | atom a => atom a
  | neg i => neg (f i)
  | join op i j => join op (f i) (f j)

/-- The pairs of operands that two layers have at the same places, if the layers are alike apart
from them. -/
def pairs? : Layer ι → Layer ι → Option (List (ι × ι))
  | const v, const w => if v = w then some [] else none
  | atom a, atom b => if a = b then some [] else none
  | neg i, neg j => some [(i, j)]
  | join op i j, join op' i' j' => if op = op' then some [(i, i'), (j, j')] else none
  | _, _ => none

theorem map_congr {f g : ι → κ} {l : Layer ι} (h : ∀ i ∈ l.operands, f i = g i) :
    l.map f = l.map g := by
  cases l <;> simp_all [map, operands]

theorem map_fst_of_pairs? {l m : Layer ι} {pairs : List (ι × ι)} (h : l.pairs? m = some pairs) :
    pairs.map Prod.fst = l.operands := by
  cases l <;> cases m <;> simp [pairs?, operands] at h ⊢ <;> grind

end Layer

/-! ## Graphs -/

/-- A formula for each reference of a kind, with its digest. -/
structure FormulaGraph (ι δ : Type) (digest : Layer δ → δ) where
  layer : ι → Layer ι
  stamp : ι → δ
  /-- A formula is no part of itself. -/
  acyclic : Graph.Acyclic fun i => (layer i).operands
  /-- The digest of a formula comes from its layer and the digests of its operands. -/
  stamp_eq (i : ι) : stamp i = digest ((layer i).map stamp)

namespace FormulaGraph

variable {ι δ : Type} {digest : Layer δ → δ}

/-- How many layers the formula of a reference has when nothing is shared. -/
noncomputable def size (g : FormulaGraph ι δ digest) : ι → Nat :=
  Graph.unfoldedSize _ g.acyclic

/-! ## Comparing -/

/-- The pairs that have been on the list of a comparison. -/
abbrev Seen (ι : Type) [BEq ι] [Hashable ι] : Type :=
  Std.HashSet (ι × ι)

/-- Puts pairs on the list that have never been there; the last of them comes first. -/
def schedule [BEq ι] [Hashable ι] (seen : Seen ι) (pending : List (ι × ι)) :
    List (ι × ι) → Seen ι × List (ι × ι)
  | [] => (seen, pending)
  | pair :: pairs =>
    if seen.contains pair then schedule seen pending pairs
    else schedule (seen.insert pair) (pair :: pending) pairs

theorem sum_schedule_le [BEq ι] [Hashable ι] (weight : ι × ι → Nat) (seen : Seen ι)
    (pending pairs : List (ι × ι)) :
    ((schedule seen pending pairs).2.map weight).sum ≤
      (pairs.map weight).sum + (pending.map weight).sum := by
  fun_induction schedule seen pending pairs with
  | case1 => simp
  | case2 => simp only [List.map_cons, List.sum_cons]; omega
  | case3 => simp only [List.map_cons, List.sum_cons] at *; omega

/-- The layers of a formula are one more than those of its operands. -/
theorem sum_pairs_lt (g : FormulaGraph ι δ digest) {i j : ι} {pairs : List (ι × ι)}
    (h : (g.layer i).pairs? (g.layer j) = some pairs) :
    (pairs.map fun p => g.size p.1).sum < g.size i := by
  have := congrArg (fun is => (is.map g.size).sum) (Layer.map_fst_of_pairs? h)
  simp only [List.map_map, Function.comp_def] at this
  rw [this, size, Graph.unfoldedSize_eq]
  omega

/-- Compares all pairs on a list. Gives the pairs that have been on the list, or nothing if some
pair differs. -/
def equalFrom [DecidableEq ι] [Hashable ι] [DecidableEq δ] (g : FormulaGraph ι δ digest)
    (seen : Seen ι) : List (ι × ι) → Option (Seen ι)
  | [] => some seen
  | (i, j) :: pending =>
    if i = j then g.equalFrom seen pending
    else if g.stamp i ≠ g.stamp j then none
    else
      match h : (g.layer i).pairs? (g.layer j) with
      | none => none
      | some pairs =>
        have := g.sum_pairs_lt h
        g.equalFrom (schedule seen pending pairs).1 (schedule seen pending pairs).2
  termination_by pending => (pending.map fun p => g.size p.1).sum
  decreasing_by
    · rw [List.map_cons, List.sum_cons, size, Graph.unfoldedSize_eq]
      omega
    · have := sum_schedule_le (fun p => g.size p.1) seen pending pairs
      simp only [List.map_cons, List.sum_cons]
      omega

/-- Whether two references stand for one formula, given pairs that need no comparing. Gives the
pairs that need none from then on, or nothing if the formulas differ. -/
def equal [DecidableEq ι] [Hashable ι] [DecidableEq δ] (g : FormulaGraph ι δ digest)
    (seen : Seen ι) (i j : ι) : Option (Seen ι) :=
  g.equalFrom seen [(i, j)]

/-- Whether two references stand for one formula. -/
def same [DecidableEq ι] [Hashable ι] [DecidableEq δ] (g : FormulaGraph ι δ digest)
    (i j : ι) : Bool :=
  (g.equal ∅ i j).isSome

end FormulaGraph

end Conditionals
