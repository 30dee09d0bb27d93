/-
Conditionals.Block.Basic — the conditional regions of a source file.

A block reaches from the line that opens it to the line that closes it.
It carries the condition on its first line, and its presence condition,
which takes in the blocks around it; the blocks inside it are its
children, in the order of the file. Lines are integers and a path is a text
or missing where blocks are read from a file; blocks from elsewhere may have
other things in their place.

* `Block.map` — a block with other lines and paths;
* `Block.walk` — a block and all blocks inside it, each before the ones
  inside it;
* `Block.describe` — a block in one line.
-/
import Conditionals.Formula.Render

namespace Conditionals

/-- A conditional region of a source file. -/
structure Block (Line : Type := Int) (Path : Type := Option String) where
  /-- The line that opens the block. -/
  startLine : Line
  /-- The line that closes it. -/
  endLine : Line
  /-- The file the block was read from. -/
  path : Path
  /-- The condition on the opening line. -/
  condition : Condition
  /-- When the region is part of the program: its condition and those of the blocks around it. -/
  presence : Condition
  /-- The blocks inside, in the order of the file. -/
  children : List (Block Line Path)

namespace Block

variable {Line Path : Type}

/-! ## Counting -/

mutual

/-- How many blocks a tree has, its root included. -/
def count : Block Line Path → Nat
  | ⟨_, _, _, _, _, children⟩ => 1 + countAll children

/-- How many blocks several trees have. -/
def countAll : List (Block Line Path) → Nat
  | [] => 0
  | b :: bs => b.count + countAll bs

end

theorem count_eq (b : Block Line Path) : b.count = 1 + countAll b.children := by
  cases b; rfl

theorem countAll_append (bs cs : List (Block Line Path)) :
    countAll (bs ++ cs) = countAll bs + countAll cs := by
  induction bs with
  | nil => simp [countAll]
  | cons b bs ih => simp [countAll, ih, Nat.add_assoc]

/-! ## Other lines and paths -/

mutual

/-- The block with other lines and another path, and so for all blocks inside it. -/
def map {Line' Path' : Type} (f : Line → Line') (g : Path → Path') :
    Block Line Path → Block Line' Path'
  | ⟨startLine, endLine, path, condition, presence, children⟩ =>
    ⟨f startLine, f endLine, g path, condition, presence, mapAll f g children⟩

/-- Several blocks with other lines and paths. -/
def mapAll {Line' Path' : Type} (f : Line → Line') (g : Path → Path') :
    List (Block Line Path) → List (Block Line' Path')
  | [] => []
  | b :: bs => b.map f g :: mapAll f g bs

end

theorem map_eq {Line' Path' : Type} (f : Line → Line') (g : Path → Path') (b : Block Line Path) :
    b.map f g = ⟨f b.startLine, f b.endLine, g b.path, b.condition, b.presence,
      mapAll f g b.children⟩ := by
  cases b
  rfl

/-! ## Walking -/

/-- The blocks of several trees: takes the first tree, and puts its children in front of the
others. -/
def walkAll : List (Block Line Path) → List (Block Line Path)
  | [] => []
  | b :: others => b :: walkAll (b.children ++ others)
  termination_by trees => countAll trees
  decreasing_by
    rw [countAll, countAll_append, count_eq]
    omega

/-- A block and all blocks inside it, in the order of their first lines. -/
def walk (b : Block Line Path) : List (Block Line Path) :=
  walkAll [b]

/-! ## Describing -/

/-- A block in one line, with its lines shown in some way: its lines, its two conditions and the
number of its children. -/
def describeBy (shown : Line → String) (b : Block Line Path) : String :=
  "Block(lines " ++ shown b.startLine ++ "-" ++ shown b.endLine ++ ", condition " ++
    b.condition.render ++ ", pc " ++ b.presence.render ++ ", " ++
    toString b.children.length ++ " children)"

/-- A block in one line. -/
def describe (b : Block) : String :=
  b.describeBy toString

end Block

end Conditionals
