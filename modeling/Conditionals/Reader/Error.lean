/-
Conditionals.Reader.Error — why a file cannot be read into blocks.
-/
import Conditionals.Condition.Error
import Conditionals.Directive

namespace Conditionals

/-- Why the lines of a source end too early. -/
inductive SourceFault where
  /-- The source cannot be read on. -/
  | unreadable
  /-- The bytes of the source are no text. -/
  | undecodable
  deriving DecidableEq, Repr

/-- Why a file cannot be read into blocks. -/
inductive ReadError where
  /-- The text behind an opening directive is no condition. -/
  | malformed (cause : SyntaxError) (line : Int)
  /-- A directive that blocks cannot be made of. -/
  | unsupported (directive : Directive) (line : Int)
  /-- A closing directive with no block open. -/
  | unbalanced (line : Int)
  /-- The file ends inside the block that was opened on this line. -/
  | unclosed (startLine : Int)
  /-- The lines of the file end too early. -/
  | source (fault : SourceFault)
  deriving DecidableEq, Repr

namespace ReadError

/-- The error in words. A fault of the source has none. -/
def message? : ReadError → Option String
  | malformed cause line => some (cause.message ++ " (line " ++ toString line ++ ")")
  | unsupported directive line =>
    some (directive.keyword ++ " is currently not supported (line " ++ toString line ++ ")")
  | unbalanced line =>
    some ("Found #endif with no corresponding opening in line " ++ toString line)
  | unclosed startLine =>
    some ("Found opening at line " ++ toString startLine ++ " but no closing #endif")
  | source _ => none

end ReadError

end Conditionals
