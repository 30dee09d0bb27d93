/-
Conditionals.Proofs.Token.Numeral — what a numeral denotes.

* `Numeral.Denotes` — the written forms of integers, and the integer
  that each form stands for: its digits by place value;
* `Numeral.Denotes.unique` — no form stands for two integers;
* `Numeral.isNonzero_of_denotes` — looking for a digit other than zero
  tells whether that integer is zero;
* `Numeral.front?_eq_some_iff` — the lexer finds a numeral just where one
  of these forms stands and no word character touches its end.

The width and sign letters are no digits of either base, and the mark of
base sixteen is no decimal digit; so a numeral can be cut into its parts
in one way only.
-/
import Mathlib.Data.List.TakeWhile
import Conditionals.Proofs.Token.Classes

namespace Conditionals.Numeral

/-! ## Place value -/

/-- The value of a digit of base ten or sixteen. -/
def digitValue (c : Char) : Nat :=
  if c.isDigit then c.toNat - 48
  else if 97 ≤ c.toNat then c.toNat - 97 + 10
  else c.toNat - 65 + 10

/-- The integer that digits denote in a base, the first one at the highest place. -/
def placeValue (base : Nat) (digits : List Char) : Nat :=
  digits.foldl (fun value c => base * value + digitValue c) 0

/-- A numeral and the integer it denotes. -/
inductive Denotes : List Char → Nat → Prop where
  | decimal {digits suffix : List Char} :
      digits ≠ [] → (∀ c ∈ digits, c.isDigit = true) → (∀ c ∈ suffix, isSuffix c = true) →
      Denotes (digits ++ suffix) (placeValue 10 digits)
  | hexadecimal {x : Char} {digits suffix : List Char} :
      isHexMark x = true → digits ≠ [] → (∀ c ∈ digits, isHexDigit c = true) →
      (∀ c ∈ suffix, isSuffix c = true) →
      Denotes ('0' :: x :: digits ++ suffix) (placeValue 16 digits)

/-- A numeral begins with a decimal digit. -/
theorem cons_of_denotes {numeral : List Char} (h : ∃ value, Denotes numeral value) :
    ∃ c cs, numeral = c :: cs ∧ c.isDigit = true := by
  obtain ⟨value, h⟩ := h
  cases h with
  | @decimal digits suffix hne hd _ =>
    obtain ⟨c, cs, rfl⟩ := List.exists_cons_of_ne_nil hne
    exact ⟨c, cs ++ suffix, rfl, hd c List.mem_cons_self⟩
  | hexadecimal => exact ⟨'0', _, rfl, rfl⟩

theorem denotes_digit {c : Char} (h : c.isDigit = true) : Denotes [c] (placeValue 10 [c]) :=
  .decimal (List.cons_ne_nil c []) (by simpa using h) (List.forall_mem_nil _)

theorem digitValue_eq_zero_iff (c : Char) : digitValue c = 0 ↔ c = '0' := by
  rw [show c = '0' ↔ c.toNat = 48 from char_eq_iff_toNat c '0']
  unfold digitValue
  split
  case isTrue hd =>
    rw [isDigit_iff] at hd
    omega
  case isFalse hd =>
    rw [isDigit_iff] at hd
    split <;> omega

/-- Only zeros have the value zero, whatever the base. -/
theorem placeValue_eq_zero_iff {base : Nat} (hb : 0 < base) (digits : List Char) :
    placeValue base digits = 0 ↔ ∀ c ∈ digits, c = '0' := by
  -- The fold goes on with the value of the digits before.
  have aux : ∀ (cs : List Char) (value : Nat),
      cs.foldl (fun value c => base * value + digitValue c) value = 0 ↔
        value = 0 ∧ ∀ c ∈ cs, c = '0' := by
    intro cs
    induction cs with
    | nil => simp
    | cons c cs ih =>
      intro value
      rw [List.foldl_cons, ih, Nat.add_eq_zero_iff, Nat.mul_eq_zero, digitValue_eq_zero_iff,
        List.forall_mem_cons, and_assoc]
      have : base ≠ 0 := by omega
      simp only [this, false_or]
  simpa [placeValue] using aux digits 0

/-! ## Zero or not -/

/-- Dropping the letters at the end leaves what is none of them. -/
theorem dropSuffix_append {cs suffix : List Char} (hc : ∀ c ∈ cs, isSuffix c = false)
    (hs : ∀ c ∈ suffix, isSuffix c = true) : dropSuffix (cs ++ suffix) = cs := by
  have hr : cs.reverse.head?.any isSuffix = false := by
    cases h : cs.reverse with
    | nil => rfl
    | cons c _ => exact hc c (List.mem_reverse.1 (by simp [h]))
  unfold dropSuffix
  rw [List.reverse_append, List.dropWhile_append_of_pos (by simpa using hs), dropWhile_of_head hr,
    List.reverse_reverse]

theorem dropMark_of_isDigit {digits : List Char} (h : ∀ c ∈ digits, c.isDigit = true) :
    dropMark digits = digits := by
  unfold dropMark
  split
  · rename_i x rest
    have hx : ¬ isHexMark x = true := fun hm => by
      simp [isDigit_eq_false_of_isHexMark hm] at h
    rw [if_neg hx]
  · rfl

/-- Without the letters at its end, a numeral is its digits, behind the mark of base sixteen if it
has that. -/
theorem dropSuffix_of_denotes {numeral : List Char} {value : Nat} (h : Denotes numeral value) :
    (∃ digits, dropSuffix numeral = digits ∧ (∀ c ∈ digits, c.isDigit = true) ∧
      value = placeValue 10 digits) ∨
    ∃ x digits, dropSuffix numeral = '0' :: x :: digits ∧ isHexMark x = true ∧
      value = placeValue 16 digits := by
  cases h with
  | @decimal digits suffix _ hd hs =>
    have hn : ∀ c ∈ digits, isSuffix c = false := fun c hc =>
      isSuffix_eq_false_of_isHexDigit (isHexDigit_of_isDigit (hd c hc))
    exact .inl ⟨digits, dropSuffix_append hn hs, hd, rfl⟩
  | @hexadecimal x digits suffix hx _ hh hs =>
    have hn : ∀ c ∈ '0' :: x :: digits, isSuffix c = false :=
      List.forall_mem_cons.2 ⟨rfl, List.forall_mem_cons.2
        ⟨isSuffix_eq_false_of_isHexMark hx, fun c hc => isSuffix_eq_false_of_isHexDigit (hh c hc)⟩⟩
    exact .inr ⟨x, digits, dropSuffix_append hn hs, hx, rfl⟩

/-- A numeral denotes one integer only. -/
theorem Denotes.unique {numeral : List Char} {m n : Nat} (hm : Denotes numeral m)
    (hn : Denotes numeral n) : m = n := by
  -- The mark of base sixteen is no decimal digit, so a numeral has one base.
  have hbase : ∀ {x : Char} {digits : List Char}, isHexMark x = true →
      ¬ ∀ c ∈ '0' :: x :: digits, c.isDigit = true := by
    intro x digits hx hd
    have hdigit := hd x (by simp)
    rw [isDigit_eq_false_of_isHexMark hx] at hdigit
    cases hdigit
  rcases dropSuffix_of_denotes hm with ⟨ds, hds, hd, rfl⟩ | ⟨x, ds, hds, hx, rfl⟩
  · rcases dropSuffix_of_denotes hn with ⟨es, hes, -, rfl⟩ | ⟨y, es, hes, hy, -⟩
    · rw [← hds, ← hes]
    · rw [← hds, hes] at hd
      exact absurd hd (hbase hy)
  · rcases dropSuffix_of_denotes hn with ⟨es, hes, he, -⟩ | ⟨y, es, hes, -, rfl⟩
    · rw [← hes, hds] at he
      exact absurd he (hbase hx)
    · cases hds.symm.trans hes
      rfl

/-- A numeral is found to differ from zero just if the integer it denotes does. -/
theorem isNonzero_of_denotes {numeral : String} {value : Nat}
    (h : Denotes numeral.toList value) : isNonzero numeral = decide (value ≠ 0) := by
  rw [isNonzero, Bool.eq_iff_iff, decide_eq_true_eq]
  rcases dropSuffix_of_denotes h with ⟨digits, hdigits, hd, rfl⟩ | ⟨x, digits, hdigits, hx, rfl⟩
  · rw [hdigits, dropMark_of_isDigit hd, ne_eq, placeValue_eq_zero_iff (by decide)]
    simp
  · rw [hdigits, ne_eq, placeValue_eq_zero_iff (by decide)]
    simp [dropMark, hx]

/-! ## At the front of a text -/

/-- The digits of a hexadecimal numeral at the front of a text. -/
theorem frontDigits_hexadecimal {x : Char} {digits rest : List Char} (hx : isHexMark x = true)
    (hne : digits ≠ []) (hd : ∀ c ∈ digits, isHexDigit c = true)
    (hr : rest.head?.any isHexDigit = false) :
    frontDigits ('0' :: x :: digits ++ rest) = '0' :: x :: digits := by
  have ht : (digits ++ rest).takeWhile isHexDigit = digits := takeWhile_run hd hr
  simp [frontDigits, ht, hx, hne]

/-- The digits of a decimal numeral at the front of a text. -/
theorem frontDigits_decimal {digits rest : List Char} (hd : ∀ c ∈ digits, c.isDigit = true)
    (hr : rest.head?.any Char.isDigit = false) (hx : rest.head?.any isHexMark = false) :
    frontDigits (digits ++ rest) = digits := by
  have ht : (digits ++ rest).takeWhile Char.isDigit = digits := takeWhile_run hd hr
  unfold frontDigits
  split
  case h_1 x tail heq =>
    -- The second character is a digit, or the first of the rest: no mark either way.
    have hm : isHexMark x = false := by
      rcases digits with _ | ⟨d, _ | ⟨d', digits⟩⟩
      · simp_all
      · rcases rest with _ | ⟨c, rest⟩ <;> simp_all
      · have hd' := hd d' (by simp)
        simp only [List.cons_append, List.cons.injEq] at heq
        rw [← heq.2.1, ← Bool.not_eq_true]
        intro hm
        rw [isDigit_eq_false_of_isHexMark hm] at hd'
        cases hd'
    simpa [hm, ← heq] using ht
  case h_2 => exact ht

/-- The digits at the front of a text are those of a numeral. -/
theorem denotes_frontDigits {cs suffix : List Char} (hne : frontDigits cs ≠ [])
    (hs : ∀ c ∈ suffix, isSuffix c = true) : ∃ value, Denotes (frontDigits cs ++ suffix) value := by
  have hdec : ∀ {cs : List Char}, cs.takeWhile Char.isDigit ≠ [] →
      ∃ value, Denotes (cs.takeWhile Char.isDigit ++ suffix) value := fun hne =>
    ⟨_, .decimal hne (fun _ => List.mem_takeWhile_imp) hs⟩
  unfold frontDigits at hne ⊢
  split at hne
  case h_1 x rest =>
    dsimp only at hne ⊢
    split
    case isTrue h =>
      simp only [Bool.and_eq_true, Bool.not_eq_true', List.isEmpty_eq_false_iff] at h
      exact ⟨_, .hexadecimal h.1 h.2 (fun _ => List.mem_takeWhile_imp) hs⟩
    case isFalse h =>
      rw [if_neg h] at hne
      exact hdec hne
  case h_2 => exact hdec hne

/-- Behind the digits of a numeral stands nothing of a class of word characters without the
letters for the end. -/
theorem head_suffix_append {p : Char → Bool} {suffix rest : List Char}
    (hw : ∀ {c}, p c = true → isWord c = true) (hn : ∀ {c}, p c = true → isSuffix c = false)
    (hs : ∀ c ∈ suffix, isSuffix c = true) (hr : rest.head?.any isWord = false) :
    (suffix ++ rest).head?.any p = false := by
  rcases suffix with _ | ⟨c, suffix⟩
  · exact head_any_mono hw hr
  · rw [List.cons_append, List.head?_cons, Option.any_some, ← Bool.not_eq_true]
    intro hp
    have := hs c List.mem_cons_self
    rw [hn hp] at this
    cases this

/-- A numeral whose digits are found is found as a whole. -/
theorem front?_append_of_frontDigits {digits suffix rest : List Char} (hne : digits ≠ [])
    (hd : frontDigits (digits ++ (suffix ++ rest)) = digits)
    (hs : ∀ c ∈ suffix, isSuffix c = true) (hr : rest.head?.any isWord = false) :
    front? (digits ++ suffix ++ rest) = some (digits ++ suffix, rest) := by
  have hsuffix : rest.head?.any isSuffix = false := head_any_mono isWord_of_isSuffix hr
  rw [List.append_assoc]
  simp only [front?, hd, List.drop_left, List.takeWhile_append_of_pos hs,
    List.dropWhile_append_of_pos hs, dropWhile_of_head hsuffix, takeWhile_of_head hsuffix,
    List.append_nil, hr, List.isEmpty_eq_false_iff.2 hne]
  rfl

/-- The lexer takes a numeral from the front of a text just if it is one and no word character
touches its end. -/
theorem front?_eq_some_iff {cs numeral rest : List Char} :
    front? cs = some (numeral, rest) ↔
      (∃ value, Denotes numeral value) ∧ rest.head?.any isWord = false ∧ numeral ++ rest = cs := by
  constructor
  · intro h
    have happ := front?_append h
    simp only [front?, Bool.or_eq_true, List.isEmpty_iff] at h
    split at h
    · cases h
    · rename_i hn
      cases h
      simp only [not_or, Bool.not_eq_true] at hn
      exact ⟨denotes_frontDigits hn.1 fun _ => List.mem_takeWhile_imp, hn.2, happ⟩
  · rintro ⟨⟨value, hv⟩, hr, rfl⟩
    cases hv with
    | @decimal digits suffix hne hd hs =>
      refine front?_append_of_frontDigits hne (frontDigits_decimal hd ?_ ?_) hs hr
      · exact head_suffix_append isWord_of_isDigit
          (fun h => isSuffix_eq_false_of_isHexDigit (isHexDigit_of_isDigit h)) hs hr
      · exact head_suffix_append isWord_of_isHexMark isSuffix_eq_false_of_isHexMark hs hr
    | @hexadecimal x digits suffix hx hne hd hs =>
      refine front?_append_of_frontDigits (by simp) (frontDigits_hexadecimal hx hne hd ?_) hs hr
      exact head_suffix_append isWord_of_isHexDigit isSuffix_eq_false_of_isHexDigit hs hr

end Conditionals.Numeral
