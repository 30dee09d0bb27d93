/-
Conditionals.Proofs.Block.Renumbering — blocks on other lines and under
other conditions.

* `Block.renumber` — a block with all its line numbers replaced;
* `Block.rebase` — a block with the presence conditions that it has inside
  blocks with given conditions.

Renumbering leaves a composed forest composed, and what `Block.rebase` makes
is composed over the chain of the given conditions. The listing of a
renumbered forest is that of the forest, renumbered.
-/
import Conditionals.Proofs.Block.Presence

namespace Conditionals

/-- The event on another line. -/
def Event.renumber (r : Int → Int) : Event → Event
  | opening line c => opening (r line) c
  | closing line => closing (r line)

namespace Block

open Formula (chain chain?)

variable {path : Option String} {above : Option Condition} {bs : List Block} {r : Int → Int}

/-! ## Other line numbers -/

mutual

/-- A block with its line numbers replaced, and those of all blocks inside. -/
def renumber (r : Int → Int) : Block → Block
  | ⟨startLine, endLine, path, condition, presence, children⟩ =>
    ⟨r startLine, r endLine, path, condition, presence, renumberAll r children⟩

/-- Several blocks with their line numbers replaced. -/
def renumberAll (r : Int → Int) : List Block → List Block
  | [] => []
  | b :: bs => b.renumber r :: renumberAll r bs

end

theorem renumber_eq (r : Int → Int) (b : Block) :
    b.renumber r = ⟨r b.startLine, r b.endLine, b.path, b.condition, b.presence,
      renumberAll r b.children⟩ := by
  cases b
  rfl

@[simp] theorem renumberAll_append (r : Int → Int) (bs cs : List Block) :
    renumberAll r (bs ++ cs) = renumberAll r bs ++ renumberAll r cs := by
  induction bs with
  | nil => rfl
  | cons b bs ih => simp [renumberAll, ih]

@[simp] theorem renumberAll_id (bs : List Block) : renumberAll id bs = bs := by
  induction bs using forest_induction with
  | nil => rfl
  | cons b bs ihc ih =>
    rw [renumberAll, renumber_eq, ihc, ih]
    cases b
    rfl

theorem Composed.renumberAll (h : Composed path above bs) (r : Int → Int) :
    Composed path above (renumberAll r bs) := by
  induction h with
  | nil => exact .nil
  | cons hpath hpresence _ _ ihc ih =>
    rw [Block.renumberAll, renumber_eq]
    exact .cons hpath hpresence ihc ih

theorem listingAll_renumberAll (r : Int → Int) (bs : List Block) :
    listingAll (renumberAll r bs) = (listingAll bs).map (Event.renumber r) := by
  induction bs using forest_induction with
  | nil => rfl
  | cons b bs ihc ih =>
    rw [renumberAll, renumber_eq, listingAll_cons, listingAll_cons, ihc, ih]
    simp [Event.renumber]

/-! ## Other blocks around -/

mutual

/-- A block with the presence conditions of a block inside blocks with the given conditions, the
outermost first. -/
def rebase (conditions : List Condition) : Block → Block
  | ⟨startLine, endLine, path, condition, _, children⟩ =>
    ⟨startLine, endLine, path, condition, chain (conditions ++ [condition]),
      rebaseAll (conditions ++ [condition]) children⟩

/-- Several blocks inside blocks with the given conditions. -/
def rebaseAll (conditions : List Condition) : List Block → List Block
  | [] => []
  | b :: bs => b.rebase conditions :: rebaseAll conditions bs

end

theorem rebase_eq (conditions : List Condition) (b : Block) :
    b.rebase conditions = ⟨b.startLine, b.endLine, b.path, b.condition,
      chain (conditions ++ [b.condition]), rebaseAll (conditions ++ [b.condition]) b.children⟩ := by
  cases b
  rfl

/-- Whatever presence conditions the blocks had, they are composed over the given conditions. -/
theorem Composed.rebaseAll (h : Composed path above bs) (conditions : List Condition) :
    Composed path (chain? conditions) (rebaseAll conditions bs) := by
  induction h generalizing conditions with
  | nil => exact .nil
  | @cons _ b bs hpath _ _ _ ihc ih =>
    rw [Block.rebaseAll, rebase_eq]
    refine .cons hpath (Formula.chain_concat conditions b.condition) ?_ (ih conditions)
    rw [← Formula.chain?_concat]
    exact ihc _

theorem listingAll_rebaseAll (conditions : List Condition) (bs : List Block) :
    listingAll (rebaseAll conditions bs) = listingAll bs := by
  induction bs using forest_induction generalizing conditions with
  | nil => rfl
  | cons b bs ihc ih =>
    rw [rebaseAll, rebase_eq, listingAll_cons, listingAll_cons, ihc, ih]

end Block

end Conditionals
