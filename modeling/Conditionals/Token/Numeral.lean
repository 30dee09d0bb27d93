/-
Conditionals.Token.Numeral — integer numerals.

A numeral is a run of decimal digits, or a run of hexadecimal digits
behind the mark of base sixteen, followed by any number of the letters
that say how wide and whether signed the integer is. No word character
may follow it.

* `Numeral.front?` — the numeral a text begins with, and the rest;
* `Numeral.isNonzero` — whether the integer differs from zero. The value
  is never computed: it is zero just if all digits are.
-/
import Conditionals.Token.Basic

namespace Conditionals.Numeral

/-! ## Parts of a numeral -/

/-- A digit of base sixteen. -/
def isHexDigit (c : Char) : Bool :=
  c.isDigit || ('a' ≤ c && c ≤ 'f') || ('A' ≤ c && c ≤ 'F')

/-- A letter that says how wide and whether signed the integer is. -/
def isSuffix (c : Char) : Bool :=
  c = 'u' || c = 'U' || c = 'l' || c = 'L'

/-- The letter of the mark of base sixteen. -/
def isHexMark (c : Char) : Bool :=
  c = 'x' || c = 'X'

/-- The digits at the front of a text, behind the mark of base sixteen if digits of that base
follow it. -/
def frontDigits : List Char → List Char
  | '0' :: x :: rest =>
    let digits := rest.takeWhile isHexDigit
    if isHexMark x && !digits.isEmpty then '0' :: x :: digits
    else ('0' :: x :: rest).takeWhile Char.isDigit
  | cs => cs.takeWhile Char.isDigit

/-- The numeral at the front of a text and what follows it; nothing if no numeral is there or a
word character touches its end. -/
def front? (cs : List Char) : Option (List Char × List Char) :=
  let digits := frontDigits cs
  let behind := cs.drop digits.length
  let rest := behind.dropWhile isSuffix
  if digits.isEmpty || rest.head?.any isWord then none
  else some (digits ++ behind.takeWhile isSuffix, rest)

/-! ## The value -/

/-- A numeral without the letters at its end. -/
def dropSuffix (cs : List Char) : List Char :=
  (cs.reverse.dropWhile isSuffix).reverse

/-- A numeral without the mark of base sixteen. -/
def dropMark : List Char → List Char
  | '0' :: x :: rest => if isHexMark x then rest else '0' :: x :: rest
  | cs => cs

/-- Whether the integer of a numeral differs from zero. -/
def isNonzero (numeral : String) : Bool :=
  (dropMark (dropSuffix numeral.toList)).any (· ≠ '0')

/-! ## Nothing is lost -/

/-- The digits at the front of a text and what follows them are the text. -/
theorem frontDigits_append_drop (cs : List Char) :
    frontDigits cs ++ cs.drop (frontDigits cs).length = cs := by
  rw [← List.prefix_iff_eq_append]
  unfold frontDigits
  split
  · dsimp only
    split
    · simp [List.cons_prefix_cons, List.takeWhile_prefix]
    · exact List.takeWhile_prefix _
  · exact List.takeWhile_prefix _

/-- A numeral and what follows it are the text. -/
theorem front?_append {cs numeral rest : List Char} (h : front? cs = some (numeral, rest)) :
    numeral ++ rest = cs := by
  simp only [front?] at h
  split at h
  · cases h
  · cases h
    rw [List.append_assoc, List.takeWhile_append_dropWhile]
    exact frontDigits_append_drop cs

/-- A numeral has digits. -/
theorem ne_nil_of_front? {cs numeral rest : List Char} (h : front? cs = some (numeral, rest)) :
    numeral ≠ [] := by
  simp only [front?, Bool.or_eq_true, List.isEmpty_iff] at h
  split at h
  · cases h
  · cases h
    simp_all

end Conditionals.Numeral
