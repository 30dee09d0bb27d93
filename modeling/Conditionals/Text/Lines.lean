/-
Conditionals.Text.Lines — the lines of a text.

A line ends at a line feed, at a carriage return, or at a carriage
return with the line feed after it; no other character ends a line.
`lines` keeps the line ends.
-/
namespace Conditionals.Text

/-- Puts a character in front of the first of several lines. -/
def consLine (c : Char) : List (List Char) → List (List Char)
  | [] => [[c]]
  | line :: rest => (c :: line) :: rest

/-- Cuts a text behind each line end. -/
def lines : List Char → List (List Char)
  | [] => []
  | '\r' :: '\n' :: rest => ['\r', '\n'] :: lines rest
  | c :: rest => if c = '\n' ∨ c = '\r' then [c] :: lines rest else consLine c (lines rest)

@[simp] theorem lines_nil : lines [] = [] := by simp [lines]

end Conditionals.Text
