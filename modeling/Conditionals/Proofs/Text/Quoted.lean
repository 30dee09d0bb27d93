/-
Conditionals.Proofs.Text.Quoted — quoted texts can be read back.

* `Text.frontChar?` — the character that the text between two quotes begins
  with, and what follows it there;
* `Text.frontChar?_escape` — an escaped character is read back, whatever
  follows it. So escapes of one width need no mark at their end, and no
  escape begins like another one;
* `Text.quoteWith_append_inj` — a quoted text and what follows it determine
  both. No escape begins with the quote in use, so the text ends where that
  quote stands next.

Nothing is assumed of the characters that count as printable.
-/
import Mathlib.Algebra.Ring.Nat
import Conditionals.Proofs.Token.Numeral

namespace Conditionals.Text

open Numeral (digitValue placeValue)

/-! ## Code points -/

theorem digitValue_hexDigit : ∀ n < 16, digitValue (hexDigit n) = n := by
  decide

theorem length_hexDigits (width n : Nat) : (hexDigits width n).length = width := by
  induction width generalizing n with
  | zero => rfl
  | succ width ih => rw [hexDigits, List.length_append, ih, List.length_singleton]

theorem placeValue_hexDigits (width n : Nat) :
    placeValue 16 (hexDigits width n) = n % 16 ^ width := by
  induction width generalizing n with
  | zero => rw [hexDigits, Nat.pow_zero, Nat.mod_one]; rfl
  | succ width ih =>
    have hlast : digitValue (hexDigit (n % 16)) = n % 16 :=
      digitValue_hexDigit _ (Nat.mod_lt _ (by decide))
    calc placeValue 16 (hexDigits (width + 1) n)
        = 16 * placeValue 16 (hexDigits width (n / 16)) + digitValue (hexDigit (n % 16)) := by
          rw [hexDigits, placeValue, List.foldl_append]
          rfl
      _ = 16 * (n / 16 % 16 ^ width) + n % 16 := by rw [ih, hlast]
      _ = n % 16 ^ (width + 1) := by
          rw [Nat.pow_succ, Nat.mul_comm _ 16, Nat.mod_mul, Nat.add_comm]

/-! ## Reading back one character -/

/-- How many hexadecimal digits follow a backslash and this letter. -/
def escapeWidth? : Char → Option Nat
  | 'x' => some 2
  | 'u' => some 4
  | 'U' => some 8
  | _ => none

/-- The character that is meant by a backslash and this one. -/
def unescape : Char → Char
  | 'n' => '\n'
  | 'r' => '\r'
  | 't' => '\t'
  | c => c

/-- The character at the front of a text between quotes, and what follows it. -/
def frontChar? : List Char → Option (Char × List Char)
  | [] => none
  | ['\\'] => none
  | '\\' :: c :: rest =>
    match escapeWidth? c with
    | some width => some (Char.ofNat (placeValue 16 (rest.take width)), rest.drop width)
    | none => some (unescape c, rest)
  | c :: rest => some (c, rest)

theorem frontChar?_of_ne {c : Char} (h : c ≠ '\\') (rest : List Char) :
    frontChar? (c :: rest) = some (c, rest) := by
  unfold frontChar?
  split <;> simp_all

theorem frontChar?_hexDigits {c letter : Char} {width : Nat} (hw : escapeWidth? letter = some width)
    (hc : c.toNat < 16 ^ width) (rest : List Char) :
    frontChar? ('\\' :: letter :: hexDigits width c.toNat ++ rest) = some (c, rest) := by
  have hlength := length_hexDigits width c.toNat
  have htake : (hexDigits width c.toNat ++ rest).take width = hexDigits width c.toNat :=
    List.take_left' hlength
  have hdrop : (hexDigits width c.toNat ++ rest).drop width = rest := List.drop_left' hlength
  have hread : frontChar? ('\\' :: letter :: (hexDigits width c.toNat ++ rest)) =
      some (Char.ofNat (placeValue 16 ((hexDigits width c.toNat ++ rest).take width)),
        (hexDigits width c.toNat ++ rest).drop width) := by
    simp only [frontChar?, hw]
  rw [List.cons_append, List.cons_append, hread, htake, hdrop, placeValue_hexDigits,
    Nat.mod_eq_of_lt hc, Char.ofNat_toNat]

theorem frontChar?_codePointEscape (c : Char) (rest : List Char) :
    frontChar? (codePointEscape c ++ rest) = some (c, rest) := by
  have hc : c.toNat < 0x110000 := by
    have hvalid := c.valid
    simp only [UInt32.isValidChar, Nat.isValidChar] at hvalid
    have hdef : c.toNat = c.val.toNat := rfl
    omega
  unfold codePointEscape
  dsimp only
  split
  case isTrue hlt => exact @frontChar?_hexDigits c 'x' 2 rfl hlt rest
  case isFalse =>
    split
    case isTrue hlt => exact @frontChar?_hexDigits c 'u' 4 rfl hlt rest
    case isFalse => exact @frontChar?_hexDigits c 'U' 8 rfl (by omega) rest

/-! ## Quotes -/

/-- One of the two characters that texts are written between. -/
def IsMark (mark : Char) : Prop :=
  mark = apostrophe ∨ mark = doubleQuote

theorem isMark_quoteMark (cs : List Char) : IsMark (quoteMark cs) := by
  unfold quoteMark
  split
  · exact .inr rfl
  · exact .inl rfl

variable {printable : Char → Bool} {mark c d : Char} {cs ds xs ys : List Char}

/-- An escaped character is read back, whatever follows it. -/
theorem frontChar?_escape (hm : IsMark mark) (c : Char) (rest : List Char) :
    frontChar? (escape printable mark c ++ rest) = some (c, rest) := by
  unfold escape
  split
  case isTrue h =>
    rw [Bool.or_eq_true, decide_eq_true_eq, decide_eq_true_eq] at h
    rcases h with rfl | rfl
    · rfl
    · rcases hm with rfl | rfl <;> rfl
  case isFalse h =>
    rw [Bool.or_eq_true, decide_eq_true_eq, decide_eq_true_eq, not_or] at h
    split
    case isTrue hfeed => rw [hfeed]; rfl
    split
    case isTrue hreturn => rw [hreturn]; rfl
    split
    case isTrue htab => rw [htab]; rfl
    split
    case isTrue => exact frontChar?_of_ne h.1 rest
    case isFalse => exact frontChar?_codePointEscape c rest

theorem escape_append_inj (hm : IsMark mark)
    (h : escape printable mark c ++ xs = escape printable mark d ++ ys) : c = d ∧ xs = ys := by
  have hread := congrArg frontChar? h
  rw [frontChar?_escape hm, frontChar?_escape hm, Option.some.injEq, Prod.mk.injEq] at hread
  exact hread

theorem exists_codePointEscape (c : Char) : ∃ tail, codePointEscape c = '\\' :: tail := by
  unfold codePointEscape
  dsimp only
  split
  case isTrue => exact ⟨_, rfl⟩
  case isFalse => split <;> exact ⟨_, rfl⟩

/-- A character stands for itself, or a backslash begins its escape. -/
theorem escape_cases (printable : Char → Bool) (mark c : Char) :
    (c ≠ mark ∧ escape printable mark c = [c]) ∨ ∃ tail, escape printable mark c = '\\' :: tail := by
  unfold escape
  split
  case isTrue => exact .inr ⟨_, rfl⟩
  case isFalse h =>
    rw [Bool.or_eq_true, decide_eq_true_eq, decide_eq_true_eq, not_or] at h
    split
    case isTrue => exact .inr ⟨_, rfl⟩
    split
    case isTrue => exact .inr ⟨_, rfl⟩
    split
    case isTrue => exact .inr ⟨_, rfl⟩
    split
    case isTrue => exact .inl ⟨h.2, rfl⟩
    case isFalse => exact .inr (exists_codePointEscape c)

/-- No escape begins with the quote in use. -/
theorem escape_append_ne (hm : IsMark mark) : escape printable mark c ++ xs ≠ mark :: ys := by
  intro h
  rcases escape_cases printable mark c with ⟨hc, he⟩ | ⟨tail, he⟩
  · rw [he] at h
    exact hc (List.cons.inj h).1
  · rw [he] at h
    have hmark : '\\' = mark := (List.cons.inj h).1
    rcases hm with rfl | rfl <;> cases hmark

/-- Characters written up to a quote determine where that is. -/
theorem flatMap_escape_append_inj (hm : IsMark mark)
    (h : cs.flatMap (escape printable mark) ++ mark :: xs =
      ds.flatMap (escape printable mark) ++ mark :: ys) : cs = ds ∧ xs = ys := by
  induction cs generalizing ds with
  | nil =>
    cases ds with
    | nil => exact ⟨rfl, (List.cons.inj h).2⟩
    | cons d ds =>
      rw [List.flatMap_cons, List.append_assoc] at h
      exact absurd h.symm (escape_append_ne hm)
  | cons c cs ih =>
    cases ds with
    | nil =>
      rw [List.flatMap_cons, List.append_assoc] at h
      exact absurd h (escape_append_ne hm)
    | cons d ds =>
      rw [List.flatMap_cons, List.flatMap_cons, List.append_assoc, List.append_assoc] at h
      obtain ⟨rfl, hrest⟩ := escape_append_inj hm h
      obtain ⟨rfl, hxs⟩ := ih hrest
      exact ⟨rfl, hxs⟩

theorem toList_quoteWith (printable : Char → Bool) (s : String) :
    (quoteWith printable s).toList =
      quoteMark s.toList :: (s.toList.flatMap (escape printable (quoteMark s.toList)) ++
        [quoteMark s.toList]) := by
  rw [quoteWith, String.toList_ofList, List.cons_append]

/-- A quoted text and what follows it determine both. -/
theorem quoteWith_append_inj {s t : String}
    (h : (quoteWith printable s).toList ++ xs = (quoteWith printable t).toList ++ ys) :
    s = t ∧ xs = ys := by
  rw [toList_quoteWith, toList_quoteWith, List.cons_append, List.cons_append, List.cons.injEq] at h
  obtain ⟨hmark, hrest⟩ := h
  rw [← hmark, List.append_assoc, List.append_assoc] at hrest
  obtain ⟨hst, hxs⟩ := flatMap_escape_append_inj (isMark_quoteMark _) hrest
  exact ⟨String.toList_inj.1 hst, hxs⟩

end Conditionals.Text
