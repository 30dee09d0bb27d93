/-
Conditionals.Token.Lexer — cutting a condition into tokens.

* `Lexeme.front?` — the lexeme a text begins with, and the rest;
* `Token.scan` — the tokens of a text up to the first place where no
  lexeme begins.

An identifier and a run of layout are as long as they can be. A numeral
that a word character touches is no lexeme, and neither is half of a
two-character symbol. `Lexeme.front?_append` says that a lexeme and the
rest are the text, and `Lexeme.spelling_ne_nil` that it is no empty
one; so scanning ends.
-/
import Conditionals.Token.Numeral

namespace Conditionals

/-! ## The lexeme at the front -/

namespace Lexeme

/-- The lexeme at the front of a text and what follows it, if a lexeme begins there. -/
def front? : List Char → Option (Lexeme × List Char)
  | [] => none
  | '&' :: '&' :: rest => some (symbol .conjunction, rest)
  | '|' :: '|' :: rest => some (symbol .disjunction, rest)
  | '!' :: rest => some (symbol .negation, rest)
  | '(' :: rest => some (symbol .opening, rest)
  | ')' :: rest => some (symbol .closing, rest)
  | c :: rest =>
    if c.isDigit then
      (Numeral.front? (c :: rest)).map fun (numeral, rest) =>
        (number (String.ofList numeral), rest)
    else if isWordStart c then
      some (identifier (String.ofList (c :: rest.takeWhile isWord)), rest.dropWhile isWord)
    else if Conditionals.isLayout c then
      some (layout (String.ofList (c :: rest.takeWhile Conditionals.isLayout)),
        rest.dropWhile Conditionals.isLayout)
    else none

/-- A lexeme and what follows it are the text. -/
theorem front?_append {cs rest : List Char} {l : Lexeme} (h : front? cs = some (l, rest)) :
    l.spelling.toList ++ rest = cs := by
  unfold front? at h
  split at h
  case h_7 c tail _ _ _ _ _ =>
    split at h
    · obtain ⟨⟨numeral, rest'⟩, hn, hl⟩ := Option.map_eq_some_iff.1 h
      cases hl
      simpa [spelling] using Numeral.front?_append hn
    · split at h
      · cases h
        simp [spelling]
      · split at h
        · cases h
          simp [spelling]
        · cases h
  case h_1 => cases h
  all_goals cases h; rfl

/-- A lexeme has characters. -/
theorem spelling_ne_nil {cs rest : List Char} {l : Lexeme} (h : front? cs = some (l, rest)) :
    l.spelling.toList ≠ [] := by
  unfold front? at h
  split at h
  case h_7 c tail _ _ _ _ _ =>
    split at h
    · obtain ⟨⟨numeral, rest'⟩, hn, hl⟩ := Option.map_eq_some_iff.1 h
      cases hl
      simpa [spelling] using Numeral.ne_nil_of_front? hn
    · split at h
      · cases h
        simp [spelling]
      · split at h
        · cases h
          simp [spelling]
        · cases h
  case h_1 => cases h
  all_goals cases h; simp [spelling, Symbol.spelling]

/-- What follows a lexeme is shorter than the text. -/
theorem length_lt_of_front? {cs rest : List Char} {l : Lexeme} (h : front? cs = some (l, rest)) :
    rest.length < cs.length := by
  have := List.length_pos_iff.2 (spelling_ne_nil h)
  rw [← front?_append h, List.length_append]
  omega

end Lexeme

/-! ## Scanning -/

/-- What scanning a text finds. -/
structure Scan where
  /-- The tokens, layout included. -/
  tokens : List Token
  /-- Where the tokens end. -/
  stop : Nat
  /-- What stands there, with no lexeme at its front. -/
  rest : List Char
  deriving DecidableEq, Repr

namespace Token

/-- Scans a text that stands at `position`. -/
def scanFrom (position : Nat) (cs : List Char) : Scan :=
  match h : Lexeme.front? cs with
  | none => ⟨[], position, cs⟩
  | some (lexeme, rest) =>
    have := Lexeme.length_lt_of_front? h
    let behind := scanFrom (position + lexeme.length) rest
    { behind with tokens := ⟨position, lexeme⟩ :: behind.tokens }
  termination_by cs.length

/-- Scans a text up to the first place where no lexeme begins. -/
def scan (text : String) : Scan :=
  scanFrom 0 text.toList

end Token

end Conditionals
