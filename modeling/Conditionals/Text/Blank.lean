/-
Conditionals.Text.Blank — white space at the edges of a text.

* `isBlank` — the Unicode characters of white space;
* `strip` — a text without the white space at both ends.

A character of white space is blank also where it is no line end or no
ASCII character; the zero width characters are not white space.
-/
namespace Conditionals.Text

/-! ## The characters of white space -/

/-- White space in the sense of Unicode, the four information
separators U+001C to U+001F included. -/
def isBlank (c : Char) : Bool :=
  let n := c.toNat
  (0x09 ≤ n && n ≤ 0x0D) || (0x1C ≤ n && n ≤ 0x20) || n == 0x85 || n == 0xA0 || n == 0x1680 ||
    (0x2000 ≤ n && n ≤ 0x200A) || n == 0x2028 || n == 0x2029 || n == 0x202F || n == 0x205F ||
    n == 0x3000

/-! ## Stripping -/

/-- A text without the white space at its end. -/
def stripEnd (cs : List Char) : List Char :=
  (cs.reverse.dropWhile isBlank).reverse

/-- A text without the white space at its two ends. -/
def strip (cs : List Char) : List Char :=
  stripEnd (cs.dropWhile isBlank)

@[simp] theorem strip_nil : strip [] = [] := rfl

end Conditionals.Text
