/-
Conditionals.Comparison — which formulas, blocks and files are the same.

Things to be compared are laid down in a store and compared by reference.
`firstAlike` tells for each item of a row which earlier item it is the same
as; it compares only items of one digest, as a hash table does.
-/
import Conditionals.Block.Store
import Conditionals.SourceFile

namespace Conditionals

/-! ## Classes of a row -/

namespace Comparison

variable {κ δ : Type} [DecidableEq δ]

/-- For each item the index of the first item that it is the same as. `kept` holds the items that
differ from all before them, and `index` is the index of the first item. -/
def firstAlikeFrom (stamp : κ → δ) (same : κ → κ → Bool) (kept : List (Nat × κ)) (index : Nat) :
    List κ → List Nat
  | [] => []
  | k :: ks =>
    match kept.find? fun r => stamp r.2 = stamp k && same r.2 k with
    | some r => r.1 :: firstAlikeFrom stamp same kept (index + 1) ks
    | none => index :: firstAlikeFrom stamp same (kept ++ [(index, k)]) (index + 1) ks

/-- For each item of a row the index of the first item that it is the same as. -/
def firstAlike (stamp : κ → δ) (same : κ → κ → Bool) (ks : List κ) : List Nat :=
  firstAlikeFrom stamp same [] 0 ks

/-- How many different items a row has, by its classes: the items that are the first of theirs. -/
def countDistinct (classes : List Nat) : Nat :=
  classes.zipIdx.countP fun p => p.1 = p.2

end Comparison

/-- How the items of a row compare. -/
structure Comparison where
  /-- For each item, with which items it is the same. -/
  table : List (List Bool)
  /-- For each item, the index of the first item that it is the same as. -/
  classes : List Nat

namespace Comparison

/-- How many different items the row has. -/
def distinct (c : Comparison) : Nat :=
  countDistinct c.classes

/-- Compares the items of a row, given how to compare two and a digest of each. -/
def ofRow {κ δ : Type} [DecidableEq δ] (stamp : κ → δ) (same : κ → κ → Bool) (ks : List κ) :
    Comparison :=
  ⟨ks.map fun k => ks.map (same k), firstAlike stamp same ks⟩

end Comparison

/-! ## Formulas -/

/-- The digest of a formula by that of its outermost layer. -/
def Layer.digest (l : Layer UInt64) : UInt64 :=
  hash l

namespace Formula

/-- Lays down several formulas. -/
def layDown (s : FormulaStore UInt64 Layer.digest) :
    List Condition → FormulaStore UInt64 Layer.digest × List Nat
  | [] => (s, [])
  | f :: fs =>
    let x := s.add f
    let (s, refs) := layDown x.store fs
    (s, x.ref :: refs)

/-- Compares several formulas. -/
def compare (fs : List Condition) : Comparison :=
  let (s, refs) := layDown .empty fs
  .ofRow s.graph.stamp s.graph.same refs

/-- Whether two formulas are the same. -/
def same (f g : Condition) : Bool :=
  let x := FormulaStore.add (.empty : FormulaStore UInt64 Layer.digest) f
  let y := x.store.add g
  y.store.graph.same x.ref y.ref

end Formula

/-! ## Blocks -/

/-- The digest of a block by that of its outermost layer. -/
def BlockLayer.digest (b : BlockLayer UInt64 UInt64) : UInt64 :=
  hash b

namespace Block

/-- A store of blocks with their digests. -/
abbrev Store : Type :=
  BlockStore UInt64 Layer.digest BlockLayer.digest

/-- Compares several blocks, each with all blocks inside. -/
def compare (bs : List Block) : Comparison :=
  let x := BlockStore.addAll (.empty : Store) bs
  .ofRow x.store.graph.stamp x.store.graph.same x.refs

/-- Whether two rows hold the same blocks in the same order. -/
def sameAll (bs cs : List Block) : Bool :=
  let x := BlockStore.addAll (.empty : Store) bs
  let y := x.store.addAll cs
  y.store.graph.sameAll x.refs y.refs

/-- Whether the blocks of two rows have the same digests in the same order. -/
def sameDigests (bs cs : List Block) : Bool :=
  let x := BlockStore.addAll (.empty : Store) bs
  let y := x.store.addAll cs
  x.refs.map y.store.graph.stamp = y.refs.map y.store.graph.stamp

end Block

/-! ## Files -/

namespace SourceFile

/-- Lays down the blocks of several files. -/
def layDown (s : Block.Store) : List SourceFile → Block.Store × List (Option String × List Nat)
  | [] => (s, [])
  | f :: fs =>
    let x := s.addAll f.blocks
    let (s, rows) := layDown x.store fs
    (s, (f.path, x.refs) :: rows)

/-- Compares several files by their paths and their outermost blocks. -/
def compare (fs : List SourceFile) : Comparison :=
  let (s, rows) := layDown .empty fs
  .ofRow (fun (path, refs) => hash (path, refs.map s.graph.stamp))
    (fun (path, refs) (path', refs') => path = path' && s.graph.sameAll refs refs') rows

/-- Whether two files are the same. -/
def same (f g : SourceFile) : Bool :=
  f.path = g.path && Block.sameAll f.blocks g.blocks

end SourceFile

end Conditionals
