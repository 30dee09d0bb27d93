/-
Conditionals.Token.Cursor — a place in a list of tokens.

A cursor moves on with every token taken, also past the last one.
-/
import Conditionals.Token.Basic

namespace Conditionals

/-- A place in a list of tokens. -/
structure Cursor where
  tokens : List Token
  /-- How many tokens have been taken. -/
  index : Nat
  deriving DecidableEq, Repr

namespace Cursor

/-- The place before the first of several tokens. -/
def start (tokens : List Token) : Cursor :=
  ⟨tokens, 0⟩

/-- The next token, if there is one. -/
def peek? (c : Cursor) : Option Token :=
  c.tokens[c.index]?

/-- The place behind the next token. -/
def advance (c : Cursor) : Cursor :=
  { c with index := c.index + 1 }

/-- Whether no token is left. -/
def atEnd (c : Cursor) : Bool :=
  c.tokens.length ≤ c.index

/-- No token is left just if there is no next one. -/
theorem atEnd_iff (c : Cursor) : c.atEnd = true ↔ c.peek? = none := by
  simp [atEnd, peek?]

end Cursor

end Conditionals
