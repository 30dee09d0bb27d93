/-
Conditionals.Block.Graph — blocks whose parts may be shared.

* `BlockLayer` — a block with references to its conditions and children;
* `BlockGraph` — a block for each reference, with a digest of each, over
  a graph of formulas;
* `BlockGraph.same` — whether two references stand for one block, with all
  blocks inside;
* `BlockGraph.sameAll` — the same for two rows of blocks.

The blocks are compared pair by pair, parents before their children. All
formulas of one comparison share one set of pairs that need no comparing.
-/
import Conditionals.Block.Basic
import Conditionals.Formula.Graph

namespace Conditionals

open scoped Conditionals.Graph

/-! ## Layers -/

/-- A block and what stands for its conditions and for the blocks inside it. -/
structure BlockLayer (ι κ : Type) where
  startLine : Int
  endLine : Int
  path : Option String
  condition : ι
  presence : ι
  children : List κ
  deriving DecidableEq, Hashable, Repr

namespace BlockLayer

variable {ι ι' κ κ' : Type}

/-- The layer with other things in the place of the conditions and the children. -/
def map (f : ι → ι') (g : κ → κ') (b : BlockLayer ι κ) : BlockLayer ι' κ' :=
  ⟨b.startLine, b.endLine, b.path, f b.condition, f b.presence, b.children.map g⟩

/-- Whether two layers are alike apart from what conditions and children they have: the lines, the
path and the number of children. -/
def alike (a b : BlockLayer ι κ) : Bool :=
  a.startLine = b.startLine && a.endLine = b.endLine && a.path = b.path &&
    a.children.length = b.children.length

theorem map_congr {f f' : ι → ι'} {g g' : κ → κ'} {b : BlockLayer ι κ}
    (hc : f b.condition = f' b.condition) (hp : f b.presence = f' b.presence)
    (hk : ∀ k ∈ b.children, g k = g' k) : b.map f g = b.map f' g' := by
  simp only [map, hc, hp, List.map_congr_left hk]

end BlockLayer

/-! ## Graphs -/

/-- A block for each reference of a kind, with its digest. -/
structure BlockGraph (ι κ δ : Type) (digest : Layer δ → δ) (digestBlock : BlockLayer δ δ → δ) where
  formulas : FormulaGraph ι δ digest
  layer : κ → BlockLayer ι κ
  stamp : κ → δ
  /-- A block is not inside itself. -/
  acyclic : Graph.Acyclic fun k => (layer k).children
  /-- The digest of a block comes from its layer and the digests of its parts. -/
  stamp_eq (k : κ) : stamp k = digestBlock ((layer k).map formulas.stamp stamp)

namespace BlockGraph

variable {ι κ δ : Type} {digest : Layer δ → δ} {digestBlock : BlockLayer δ δ → δ}

/-- How many blocks the block of a reference has when nothing is shared. -/
noncomputable def size (g : BlockGraph ι κ δ digest digestBlock) : κ → Nat :=
  Graph.unfoldedSize _ g.acyclic

/-! ## Comparing -/

/-- The pairs of two rows, put in front of a list; the last of them comes first. -/
def pairUp (pending : List (κ × κ)) (ks ls : List κ) : List (κ × κ) :=
  (ks.zip ls).reverse ++ pending

theorem sum_pairUp_le (g : BlockGraph ι κ δ digest digestBlock) (pending : List (κ × κ))
    (ks ls : List κ) :
    ((pairUp pending ks ls).map fun p => g.size p.1).sum ≤
      (ks.map g.size).sum + (pending.map fun p => g.size p.1).sum := by
  simp only [pairUp, List.map_append, List.map_reverse, List.sum_append, List.sum_reverse,
    Nat.add_le_add_iff_right]
  induction ks generalizing ls with
  | nil => simp
  | cons k ks ih =>
    cases ls with
    | nil => simp
    | cons l ls =>
      simp only [List.zip_cons_cons, List.map_cons, List.sum_cons]
      exact Nat.add_le_add_left (ih ls) _

/-- Whether two blocks agree apart from their children, given pairs of formulas that need no
comparing. Gives the pairs that need none from then on, or nothing if the blocks differ. -/
def equalLayers [DecidableEq ι] [Hashable ι] [DecidableEq δ]
    (g : BlockGraph ι κ δ digest digestBlock) (seen : FormulaGraph.Seen ι) (k l : κ) :
    Option (FormulaGraph.Seen ι) :=
  if g.stamp k ≠ g.stamp l then none
  else if (g.layer k).alike (g.layer l) then
    (g.formulas.equal seen (g.layer k).condition (g.layer l).condition).bind fun seen =>
      g.formulas.equal seen (g.layer k).presence (g.layer l).presence
  else none

/-- Compares all pairs on a list. -/
def sameFrom [DecidableEq ι] [Hashable ι] [DecidableEq κ] [DecidableEq δ]
    (g : BlockGraph ι κ δ digest digestBlock) (seen : FormulaGraph.Seen ι) : List (κ × κ) → Bool
  | [] => true
  | (k, l) :: pending =>
    if k = l then g.sameFrom seen pending
    else
      match g.equalLayers seen k l with
      | none => false
      | some seen =>
        g.sameFrom seen (pairUp pending (g.layer k).children (g.layer l).children)
  termination_by pending => (pending.map fun p => g.size p.1).sum
  decreasing_by
    · rw [List.map_cons, List.sum_cons, size, Graph.unfoldedSize_eq]
      omega
    · have := g.sum_pairUp_le pending (g.layer k).children (g.layer l).children
      have hk : g.size k = 1 + ((g.layer k).children.map g.size).sum :=
        Graph.unfoldedSize_eq _ _ _
      simp only [List.map_cons, List.sum_cons]
      omega

/-- Whether two references stand for one block. -/
def same [DecidableEq ι] [Hashable ι] [DecidableEq κ] [DecidableEq δ]
    (g : BlockGraph ι κ δ digest digestBlock) (k l : κ) : Bool :=
  g.sameFrom ∅ [(k, l)]

/-- Whether the references of two rows stand for the same blocks, in order. -/
def sameAll [DecidableEq ι] [Hashable ι] [DecidableEq κ] [DecidableEq δ]
    (g : BlockGraph ι κ δ digest digestBlock) : List κ → List κ → Bool
  | [], [] => true
  | k :: ks, l :: ls => g.same k l && g.sameAll ks ls
  | _, _ => false

end BlockGraph

end Conditionals
