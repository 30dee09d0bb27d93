/-
Conditionals.Proofs.Token.Classes — the classes of characters by code
point.

Every class that the lexer asks about is a union of ranges of code
points. With each class in that form, that one contains another one, or
that two have nothing in common, is linear arithmetic.
-/
import Conditionals.Token.Numeral

namespace Conditionals

/-! ## Code points -/

theorem char_eq_iff_toNat (c d : Char) : c = d ↔ c.toNat = d.toNat :=
  Char.toNat_inj.symm

theorem char_le_iff_toNat (c d : Char) : c ≤ d ↔ c.toNat ≤ d.toNat := by
  rw [Char.le_def, UInt32.le_iff_toNat_le]
  rfl

theorem isDigit_iff (c : Char) : c.isDigit = true ↔ 48 ≤ c.toNat ∧ c.toNat ≤ 57 :=
  Char.isDigit_iff_toNat

theorem isUpper_iff (c : Char) : c.isUpper = true ↔ 65 ≤ c.toNat ∧ c.toNat ≤ 90 := by
  have hdef : c.isUpper = decide ('A' ≤ c ∧ c ≤ 'Z') := rfl
  rw [hdef, decide_eq_true_iff, char_le_iff_toNat, char_le_iff_toNat]
  rfl

theorem isLower_iff (c : Char) : c.isLower = true ↔ 97 ≤ c.toNat ∧ c.toNat ≤ 122 := by
  have hdef : c.isLower = (decide ('a' ≤ c) && decide (c ≤ 'z')) := rfl
  rw [hdef, Bool.and_eq_true, decide_eq_true_iff, decide_eq_true_iff, char_le_iff_toNat,
    char_le_iff_toNat]
  rfl

theorem isAlpha_iff (c : Char) :
    c.isAlpha = true ↔ (65 ≤ c.toNat ∧ c.toNat ≤ 90) ∨ (97 ≤ c.toNat ∧ c.toNat ≤ 122) := by
  have hdef : c.isAlpha = (c.isUpper || c.isLower) := rfl
  rw [hdef, Bool.or_eq_true, isUpper_iff, isLower_iff]

theorem isWordStart_iff (c : Char) :
    isWordStart c = true ↔
      (65 ≤ c.toNat ∧ c.toNat ≤ 90) ∨ (97 ≤ c.toNat ∧ c.toNat ≤ 122) ∨ c.toNat = 95 := by
  simp only [isWordStart, Bool.or_eq_true, isAlpha_iff, decide_eq_true_eq, char_eq_iff_toNat]
  exact or_assoc

theorem isWord_iff (c : Char) :
    isWord c = true ↔ (48 ≤ c.toNat ∧ c.toNat ≤ 57) ∨ (65 ≤ c.toNat ∧ c.toNat ≤ 90) ∨
      (97 ≤ c.toNat ∧ c.toNat ≤ 122) ∨ c.toNat = 95 := by
  simp only [isWord, Char.isAlphanum, Bool.or_eq_true, isAlpha_iff, isDigit_iff,
    decide_eq_true_eq, char_eq_iff_toNat]
  have : '_'.toNat = 95 := rfl
  omega

theorem isLayout_iff (c : Char) :
    isLayout c = true ↔ c.toNat = 32 ∨ (9 ≤ c.toNat ∧ c.toNat ≤ 13) := by
  simp [isLayout, char_eq_iff_toNat]

namespace Numeral

theorem isHexDigit_iff (c : Char) :
    isHexDigit c = true ↔ (48 ≤ c.toNat ∧ c.toNat ≤ 57) ∨ (97 ≤ c.toNat ∧ c.toNat ≤ 102) ∨
      (65 ≤ c.toNat ∧ c.toNat ≤ 70) := by
  simp only [isHexDigit, Bool.or_eq_true, Bool.and_eq_true, isDigit_iff, decide_eq_true_eq,
    char_le_iff_toNat]
  exact or_assoc

theorem isSuffix_iff (c : Char) :
    isSuffix c = true ↔ c.toNat = 117 ∨ c.toNat = 85 ∨ c.toNat = 108 ∨ c.toNat = 76 := by
  simp only [isSuffix, Bool.or_eq_true, decide_eq_true_eq, char_eq_iff_toNat, or_assoc]
  rfl

theorem isHexMark_iff (c : Char) : isHexMark c = true ↔ c.toNat = 120 ∨ c.toNat = 88 := by
  simp only [isHexMark, Bool.or_eq_true, decide_eq_true_eq, char_eq_iff_toNat]
  rfl

end Numeral

/-! ## Runs of a class -/

section

variable {α : Type} {p : α → Bool} {run rest : List α}

/-- A run ends where the next element is outside its class. -/
theorem dropWhile_of_head (h : rest.head?.any p = false) : rest.dropWhile p = rest := by
  cases rest with
  | nil => rfl
  | cons a rest => simp_all

theorem takeWhile_of_head (h : rest.head?.any p = false) : rest.takeWhile p = [] := by
  cases rest with
  | nil => rfl
  | cons a rest => simp_all

theorem takeWhile_run (h : ∀ a ∈ run, p a = true) (hr : rest.head?.any p = false) :
    (run ++ rest).takeWhile p = run := by
  rw [List.takeWhile_append_of_pos h, takeWhile_of_head hr, List.append_nil]

theorem dropWhile_run (h : ∀ a ∈ run, p a = true) (hr : rest.head?.any p = false) :
    (run ++ rest).dropWhile p = rest := by
  rw [List.dropWhile_append_of_pos h, dropWhile_of_head hr]

/-- What begins outside a class begins outside every smaller one. -/
theorem head_any_mono {q : α → Bool} (h : ∀ {a}, p a = true → q a = true)
    (hr : rest.head?.any q = false) : rest.head?.any p = false := by
  cases rest with
  | nil => rfl
  | cons a rest =>
    rw [List.head?_cons, Option.any_some, ← Bool.not_eq_true] at hr ⊢
    exact fun hp => hr (h hp)

theorem head_dropWhile (p : α → Bool) (xs : List α) : (xs.dropWhile p).head?.any p = false := by
  cases h : xs.dropWhile p with
  | nil => rfl
  | cons a rest => simpa [h] using List.head?_dropWhile_not p xs

end

/-! ## How the classes lie -/

theorem isWord_of_isWordStart {c : Char} (h : isWordStart c = true) : isWord c = true := by
  rw [isWordStart_iff] at h
  rw [isWord_iff]
  omega

theorem isWord_of_isDigit {c : Char} (h : c.isDigit = true) : isWord c = true := by
  rw [isDigit_iff] at h
  rw [isWord_iff]
  omega

theorem isDigit_eq_false_of_isWordStart {c : Char} (h : isWordStart c = true) :
    c.isDigit = false := by
  rw [isWordStart_iff] at h
  rw [← Bool.not_eq_true, isDigit_iff]
  omega

theorem isDigit_eq_false_of_isLayout {c : Char} (h : isLayout c = true) : c.isDigit = false := by
  rw [isLayout_iff] at h
  rw [← Bool.not_eq_true, isDigit_iff]
  omega

theorem isWordStart_eq_false_of_isLayout {c : Char} (h : isLayout c = true) :
    isWordStart c = false := by
  rw [isLayout_iff] at h
  rw [← Bool.not_eq_true, isWordStart_iff]
  omega

theorem isWord_eq_false_of_isLayout {c : Char} (h : isLayout c = true) : isWord c = false := by
  rw [isLayout_iff] at h
  rw [← Bool.not_eq_true, isWord_iff]
  omega

namespace Numeral

theorem isHexDigit_of_isDigit {c : Char} (h : c.isDigit = true) : isHexDigit c = true := by
  rw [isDigit_iff] at h
  rw [isHexDigit_iff]
  omega

theorem isWord_of_isHexDigit {c : Char} (h : isHexDigit c = true) : isWord c = true := by
  rw [isHexDigit_iff] at h
  rw [isWord_iff]
  omega

theorem isWord_of_isSuffix {c : Char} (h : isSuffix c = true) : isWord c = true := by
  rw [isSuffix_iff] at h
  rw [isWord_iff]
  omega

theorem isWord_of_isHexMark {c : Char} (h : isHexMark c = true) : isWord c = true := by
  rw [isHexMark_iff] at h
  rw [isWord_iff]
  omega

theorem isSuffix_eq_false_of_isHexDigit {c : Char} (h : isHexDigit c = true) :
    isSuffix c = false := by
  rw [isHexDigit_iff] at h
  rw [← Bool.not_eq_true, isSuffix_iff]
  omega

theorem isDigit_eq_false_of_isHexMark {c : Char} (h : isHexMark c = true) :
    c.isDigit = false := by
  rw [isHexMark_iff] at h
  rw [← Bool.not_eq_true, isDigit_iff]
  omega

theorem isSuffix_eq_false_of_isHexMark {c : Char} (h : isHexMark c = true) :
    isSuffix c = false := by
  rw [isHexMark_iff] at h
  rw [← Bool.not_eq_true, isSuffix_iff]
  omega

end Numeral

end Conditionals
