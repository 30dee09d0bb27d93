/-
Conditionals.Formula.Render — the two written forms of a condition.

* `Formula.render` — as in a source file, with a pair of parentheses only
  where the reader would group the operands in another way: around a left
  operand that binds less tightly than its connective, and around a right
  operand that does not bind more tightly;
* `Formula.describe` — as nested constructors with quoted names. It
  depends on which characters count as printable, a parameter of
  `Formula.describeWith`.
-/
import Conditionals.Formula.Basic
import Conditionals.Text.Quoted

namespace Conditionals

/-! ## As in a source file -/

/-- How a connective is written between its operands. -/
def Connective.spelling : Connective → String
  | conj => "&&"
  | disj => "||"

/-- How an atom is written. -/
def Atom.render : Atom → String
  | bare name => name
  | defined name => "defined(" ++ name ++ ")"

namespace Formula

/-- The text of an operand, in parentheses if it binds less tightly than `least`. -/
def group (least : Nat) (operand : Condition) (text : String) : String :=
  if operand.level < least then "(" ++ text ++ ")" else text

/-- A condition as it is written in a source file. -/
def render : Condition → String
  | const true => "1"
  | const false => "0"
  | atom a => a.render
  | neg f => "!" ++ group negLevel f (render f)
  | join op f g =>
    group op.level f (render f) ++ " " ++ op.spelling ++ " " ++
      group (op.level + 1) g (render g)

/-! ## As nested constructors -/

/-- The name of a condition's outermost constructor. -/
def constructorName : Condition → String
  | const true => "TrueFormula"
  | const false => "FalseFormula"
  | atom (.bare _) => "Variable"
  | atom (.defined _) => "Defined"
  | neg _ => "Not"
  | join .conj _ _ => "And"
  | join .disj _ _ => "Or"

/-- A condition as nested constructors, for a choice of the printable characters. -/
def describeWith (printable : Char → Bool) : Condition → String
  | const true => "TRUE"
  | const false => "FALSE"
  | atom a => constructorName (atom a) ++ "(" ++ Text.quoteWith printable a.name ++ ")"
  | neg f => "Not(" ++ describeWith printable f ++ ")"
  | join op f g =>
    constructorName (join op f g) ++ "(" ++ describeWith printable f ++ ", " ++
      describeWith printable g ++ ")"

/-- A condition as nested constructors. -/
def describe (f : Condition) : String :=
  describeWith Text.isPrintable f

end Formula

end Conditionals
