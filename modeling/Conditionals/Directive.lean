/-
Conditionals.Directive — the lines that open and close conditional regions.

A line is looked at without the white space at its ends. It is a
conditional directive if it begins with one of six keywords, whatever
follows; what follows, again without white space at its ends, is the
payload. Where one keyword begins with another one, the longer one counts.
-/
import Conditionals.Text.Blank

namespace Conditionals

/-- The conditional directives. -/
inductive Directive where
  | ifDefined
  | ifNotDefined
  | ifTrue
  | elseIf
  | otherwise
  | endIf
  deriving DecidableEq, Repr

namespace Directive

/-- How a directive is written. -/
def keyword : Directive → String
  | ifDefined => "#ifdef"
  | ifNotDefined => "#ifndef"
  | ifTrue => "#if"
  | elseIf => "#elif"
  | otherwise => "#else"
  | endIf => "#endif"

/-- All directives, each before those whose keywords begin its own. -/
def all : List Directive :=
  [ifDefined, ifNotDefined, ifTrue, elseIf, otherwise, endIf]

/-- The payload of a stripped line, if it begins with a directive's keyword. -/
def payload? (d : Directive) (line : List Char) : Option String :=
  if d.keyword.toList.isPrefixOf line then
    some (String.ofList (Text.strip (line.drop d.keyword.length)))
  else none

/-- The directive on a line and its payload. -/
def classify (line : String) : Option (Directive × String) :=
  let stripped := Text.strip line.toList
  all.findSome? fun d => (d.payload? stripped).map (d, ·)

end Directive

end Conditionals
