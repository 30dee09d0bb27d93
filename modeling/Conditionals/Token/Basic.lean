/-
Conditionals.Token.Basic — the tokens of a condition.

A condition is written with identifiers, integer numerals, the symbols
of negation, conjunction, disjunction and grouping, and layout between
them. The characters of words and of layout are ASCII: any other
character belongs to no token.

* `Lexeme` — a piece of the text and its class, with `Lexeme.spelling`;
* `Token` — a lexeme and where it stands, with `Token.describe`.
-/
import Conditionals.Text.Quoted

namespace Conditionals

/-! ## Classes of characters -/

/-- An ASCII letter or the low line, with which an identifier begins. -/
def isWordStart (c : Char) : Bool :=
  c.isAlpha || c = '_'

/-- A character of identifiers and numerals. -/
def isWord (c : Char) : Bool :=
  c.isAlphanum || c = '_'

/-- A character of layout: the space and the characters U+0009 to U+000D. -/
def isLayout (c : Char) : Bool :=
  c = ' ' || (0x09 ≤ c.toNat && c.toNat ≤ 0x0D)

/-! ## Lexemes -/

/-- The symbols of a condition. -/
inductive Symbol where
  | conjunction
  | disjunction
  | negation
  | opening
  | closing
  deriving DecidableEq, Repr

/-- How a symbol is written. -/
def Symbol.spelling : Symbol → String
  | conjunction => "&&"
  | disjunction => "||"
  | negation => "!"
  | opening => "("
  | closing => ")"

/-- A piece of the text of a condition. -/
inductive Lexeme where
  | identifier (name : String)
  | number (numeral : String)
  | symbol (which : Symbol)
  | layout (gap : String)
  deriving DecidableEq, Repr

namespace Lexeme

/-- The characters of a lexeme. -/
def spelling : Lexeme → String
  | identifier name => name
  | number numeral => numeral
  | symbol which => which.spelling
  | layout gap => gap

/-- How many characters a lexeme has. -/
def length (l : Lexeme) : Nat :=
  l.spelling.length

/-- Whether a lexeme only keeps others apart. -/
def isLayout : Lexeme → Bool
  | layout _ => true
  | _ => false

/-- The name of a lexeme's class. -/
def className : Lexeme → String
  | identifier _ => "IDENTIFIER"
  | number _ => "NUMBER"
  | symbol _ => "OPERATOR"
  | layout _ => "WHITESPACE"

end Lexeme

/-! ## Tokens -/

/-- A lexeme in a text. -/
structure Token where
  /-- How many characters stand before the lexeme. -/
  position : Nat
  lexeme : Lexeme
  deriving DecidableEq, Repr

namespace Token

/-- A line that names the place, the class and the characters of a token. -/
def describe (t : Token) : String :=
  "Offset " ++ toString t.position ++ ", " ++ t.lexeme.className ++ ", value " ++
    Text.quote t.lexeme.spelling

/-- The tokens that are not layout. -/
def significant (ts : List Token) : List Token :=
  ts.filter fun t => !t.lexeme.isLayout

end Token

end Conditionals
