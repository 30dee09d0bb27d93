/-
Conditionals.Condition.Error — why a text is no condition.

A fault has a cause and, if a token or a character is to blame, the place
where that stands. Without a place the text ended too early.
-/
import Conditionals.Text.Quoted

namespace Conditionals

/-- What is wrong with a text that is no condition. -/
inductive SyntaxError.Cause where
  /-- No token begins with these characters. -/
  | unrecognized (rest : String)
  /-- There is no token at all. -/
  | empty
  /-- An operand is missing at the end. -/
  | unfinished
  /-- A token stands where it cannot stand. -/
  | unexpected (spelling : String)
  /-- The text ends inside parentheses. -/
  | unclosedGroup
  /-- The text ends behind the word that asks for a definition. -/
  | missingName
  /-- The text ends behind that word and an opening parenthesis. -/
  | missingNameInGroup
  /-- That word is followed by something other than a name. -/
  | notAName (spelling : String)
  /-- The parenthesis before the name is not closed behind it. -/
  | unclosedDefined
  deriving DecidableEq, Repr

/-- The fault that makes a text no condition. -/
structure SyntaxError where
  cause : SyntaxError.Cause
  /-- The whole text. -/
  text : String
  /-- How many characters stand before the offence; nothing if it is the end of the text. -/
  position : Option Nat
  deriving DecidableEq, Repr

namespace SyntaxError

/-- What is wrong, in words. -/
def Cause.message : Cause → String
  | unrecognized rest => "Unrecognized input " ++ Text.quote rest
  | empty => "Empty expression"
  | unfinished => "Unexpected end of expression"
  | unexpected spelling => "Unexpected token " ++ Text.quote spelling
  | unclosedGroup => "Missing closing parenthesis"
  | missingName => "Expected identifier after 'defined'"
  | missingNameInGroup => "Expected identifier in defined()"
  | notAName spelling => "Expected identifier in defined(), got " ++ Text.quote spelling
  | unclosedDefined => "Missing closing paren in defined()"

/-- Where the offence stands, in words. -/
def place (e : SyntaxError) : String :=
  match e.position with
  | some position => "at offset " ++ toString position
  | none => "at end of input"

/-- The fault in words. -/
def message (e : SyntaxError) : String :=
  e.cause.message ++ " " ++ e.place ++ " in expression " ++ Text.quote e.text

end SyntaxError

end Conditionals
