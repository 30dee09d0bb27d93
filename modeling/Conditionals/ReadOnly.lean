/-
Conditionals.ReadOnly — formulas and blocks cannot be changed.
-/
import Conditionals.Block.Basic

namespace Conditionals

/-- The attempt to change a value of a kind whose values never change. -/
structure ReadOnly where
  kind : String
  deriving DecidableEq, Repr

/-- The fault in words. -/
def ReadOnly.message (e : ReadOnly) : String :=
  e.kind ++ " is immutable"

/-- Changing a part of a formula fails, whatever the part. -/
def Formula.assign (f : Condition) (_part : String) : Except ReadOnly Condition :=
  .error ⟨f.constructorName⟩

/-- Changing a part of a block fails, whatever the part. -/
def Block.assign {Line Path : Type} (_b : Block Line Path) (_part : String) :
    Except ReadOnly (Block Line Path) :=
  .error ⟨"Block"⟩

end Conditionals
