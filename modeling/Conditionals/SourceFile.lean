/-
Conditionals.SourceFile — the blocks of one source file.

`SourceFile` is the path of a file and its outermost blocks in order, and
`SourceFile.select` gives some of them by their places. As with blocks,
a file from elsewhere may have other things in the place of paths.
-/
import Conditionals.Block.Basic
import Conditionals.Sequence

namespace Conditionals

/-- The blocks of one source file. -/
structure SourceFile (Path : Type := Option String) (Item : Type := Block) where
  path : Path
  /-- The outermost blocks, in the order of the file. -/
  blocks : List Item

namespace SourceFile

variable {Path Item : Type}

/-- How many outermost blocks a file has. -/
def size (f : SourceFile Path Item) : Nat :=
  f.blocks.length

/-- A file in one line, with its path shown in some way. -/
def describeBy (shown : Path → String) (f : SourceFile Path Item) : String :=
  "SourceFile(" ++ shown f.path ++ ", " ++ toString f.size ++ " blocks)"

/-- A file in one line. -/
def describe (f : SourceFile) : String :=
  f.describeBy fun
    | some path => Text.quote path
    | none => "None"

/-- The chosen outermost blocks. -/
def select (f : SourceFile Path Item) (choice : Selection) :
    Except SelectionError (Sequence.Selected Item) :=
  Sequence.select f.blocks choice

end SourceFile

end Conditionals
