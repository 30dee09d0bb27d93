/-
Conditionals.Reader.Log — what reading a file reports on its way.
-/
import Conditionals.Formula.Render

namespace Conditionals

/-- A report of the reader. -/
inductive LogEntry where
  | opening (line : Int) (condition : Condition)
  | closing (line startLine : Int)
  | found (count : Nat) (path : Option String)
  deriving DecidableEq, Repr

namespace LogEntry

/-- A report in words. -/
def message : LogEntry → String
  | opening line condition =>
    "Line " ++ toString line ++ ": opening block with " ++ condition.render
  | closing line startLine =>
    "Line " ++ toString line ++ ": closing block opened at " ++ toString startLine
  | found count path =>
    "Found " ++ toString count ++ " top-level blocks in " ++ path.getD "None"

end LogEntry

end Conditionals
