/-
Conditionals.Text.Quoted — texts between quotes.

A quoted text stands between apostrophes, or between double quotes if it
holds an apostrophe and no double quote. Inside, the backslash and the
quote in use get a backslash, line feed, carriage return and tab have
letters, and any other character that is not printable is written by its
code point in two, four or eight hexadecimal digits.

Which characters count as printable is a parameter of `quoteWith`;
`quote` takes those of Unicode.
-/
import Conditionals.Text.Printable

namespace Conditionals.Text

/-! ## Code points -/

/-- The lower case hexadecimal digit of a number below sixteen. -/
def hexDigit (n : Nat) : Char :=
  if n < 10 then Char.ofNat (0x30 + n) else Char.ofNat (0x57 + n)

/-- The last `width` hexadecimal digits of a number, the highest first. -/
def hexDigits : (width : Nat) → Nat → List Char
  | 0, _ => []
  | width + 1, n => hexDigits width (n / 16) ++ [hexDigit (n % 16)]

/-- The escape that names a character by its code point. -/
def codePointEscape (c : Char) : List Char :=
  let n := c.toNat
  if n < 0x100 then '\\' :: 'x' :: hexDigits 2 n
  else if n < 0x10000 then '\\' :: 'u' :: hexDigits 4 n
  else '\\' :: 'U' :: hexDigits 8 n

/-! ## Quoting -/

/-- The apostrophe, the usual quote. -/
def apostrophe : Char := '\x27'

/-- The double quote, for texts that hold an apostrophe and no double quote. -/
def doubleQuote : Char := '\x22'

/-- The quote that a text is written between. -/
def quoteMark (cs : List Char) : Char :=
  if cs.contains apostrophe && !cs.contains doubleQuote then doubleQuote else apostrophe

/-- How one character is written between two quotes `mark`. -/
def escape (printable : Char → Bool) (mark c : Char) : List Char :=
  if c = '\\' || c = mark then ['\\', c]
  else if c = '\n' then ['\\', 'n']
  else if c = '\r' then ['\\', 'r']
  else if c = '\t' then ['\\', 't']
  else if printable c then [c]
  else codePointEscape c

/-- A text between quotes, for a choice of the printable characters. -/
def quoteWith (printable : Char → Bool) (s : String) : String :=
  let mark := quoteMark s.toList
  String.ofList (mark :: s.toList.flatMap (escape printable mark) ++ [mark])

/-- A text between quotes. -/
def quote (s : String) : String :=
  quoteWith isPrintable s

end Conditionals.Text
