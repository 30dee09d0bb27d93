/-
Conditionals.Proofs.Formula.Parentheses — the text of a condition has the
fewest parentheses.

* `Lexeme.groupings` — the opening parentheses that group operands, those
  that ask whether a macro is defined left out;
* `Formula.pairsIn` — how many pairs a formula needs where operands have to
  bind at least so tightly;
* `Derives.pairsIn_le` — no derivation of a formula in a stratum has fewer;
* `Formula.groupings_lexemes` — its text has just as many;
* `Condition.render_fewest_groupings` — so no text that says a condition has
  fewer than the text it is printed as.

The lower bound is an induction on the derivation. A phrase of a stratum is
one of the next stratum as well, or it is joined by the stratum's own
connective, or it stands in parentheses: there is no other way from a loose
stratum to a tight one.
-/
import Conditionals.Proofs.Formula.Printing

namespace Conditionals

/-! ## Parentheses that group -/

namespace Lexeme

/-- How many opening parentheses do not stand behind the word that asks for a definition; `asked`
says whether that word stands in front of all. -/
def groupingsFrom (asked : Bool) : List Lexeme → Nat
  | [] => 0
  | l :: ls =>
    (if l = symbol .opening ∧ asked = false then 1 else 0) +
      groupingsFrom (l = identifier "defined") ls

/-- How many opening parentheses group operands. -/
def groupings (ls : List Lexeme) : Nat :=
  groupingsFrom false ls

theorem groupings_symbol {which : Symbol} (h : which ≠ .opening) (ls : List Lexeme) :
    groupings (symbol which :: ls) = groupings ls := by
  simp [groupings, groupingsFrom, h]

/-- Another symbol than an opening parenthesis cuts the count in two. -/
theorem groupingsFrom_append {which : Symbol} (h : which ≠ .opening) (asked : Bool)
    (ls ms : List Lexeme) :
    groupingsFrom asked (ls ++ symbol which :: ms) = groupingsFrom asked ls + groupings ms := by
  induction ls generalizing asked with
  | nil => simp [groupings, groupingsFrom, h]
  | cons l ls ih =>
    rw [List.cons_append, groupingsFrom, groupingsFrom, ih]
    omega

theorem groupings_append {which : Symbol} (h : which ≠ .opening) (ls ms : List Lexeme) :
    groupings (ls ++ symbol which :: ms) = groupings ls + groupings ms :=
  groupingsFrom_append h false ls ms

theorem groupings_group (ls : List Lexeme) :
    groupings (symbol .opening :: ls ++ [symbol .closing]) = groupings ls + 1 := by
  have hinside := groupings_append (by decide : Symbol.closing ≠ .opening) ls []
  have hopening : ∀ ms, groupings (symbol .opening :: ms) = 1 + groupings ms := fun _ => rfl
  rw [List.cons_append, hopening, hinside]
  simp [groupings, groupingsFrom, Nat.add_comm]

end Lexeme

/-! ## Parentheses that a formula needs -/

namespace Formula

/-- How many pairs of parentheses a formula needs around its operands and theirs. -/
def pairs : Condition → Nat
  | const _ => 0
  | atom _ => 0
  | neg f => pairs f + if f.level < negLevel then 1 else 0
  | join op f g =>
    (pairs f + if f.level < op.level then 1 else 0) +
      (pairs g + if g.level < op.level + 1 then 1 else 0)

/-- How many pairs of parentheses a formula needs where operands have to bind at least so tightly. -/
def pairsIn (least : Nat) (f : Condition) : Nat :=
  pairs f + if f.level < least then 1 else 0

theorem pairsIn_mono {least most : Nat} (h : least ≤ most) (f : Condition) :
    pairsIn least f ≤ pairsIn most f := by
  unfold pairsIn
  split
  case isTrue hlt => rw [if_pos (Nat.lt_of_lt_of_le hlt h)]
  case isFalse => omega

theorem pairsIn_le_succ (least most : Nat) (f : Condition) :
    pairsIn most f ≤ pairsIn least f + 1 := by
  unfold pairsIn
  split <;> omega

theorem pairsIn_join (op : Connective) (f g : Condition) :
    pairsIn op.level (join op f g) = pairsIn op.level f + pairsIn (op.level + 1) g := by
  simp [pairsIn, pairs, level]

theorem pairsIn_neg (f : Condition) : pairsIn negLevel (neg f) = pairsIn negLevel f := by
  simp [pairsIn, pairs, level]

end Formula

open Formula Lexeme

/-- No derivation of a formula has fewer parentheses than the formula needs in the stratum. -/
theorem Derives.pairsIn_le {s : Stratum} {ls : List Lexeme} {f : Condition} (h : Derives s ls f) :
    pairsIn s.level f ≤ groupings ls := by
  induction h with
  | @disjunction ls ms f g _ _ ihf ihg =>
    rw [groupings_append (by decide), Stratum.level, pairsIn_join]
    exact Nat.add_le_add ihf ihg
  | @ofConjunction ls f _ ih => exact (pairsIn_mono (by decide) f).trans ih
  | @conjunction ls ms f g _ _ ihf ihg =>
    rw [groupings_append (by decide), Stratum.level, pairsIn_join]
    exact Nat.add_le_add ihf ihg
  | @ofNegation ls f _ ih => exact (pairsIn_mono (by decide) f).trans ih
  | @negation ls f _ ih =>
    rw [groupings_symbol (by decide), Stratum.level, pairsIn_neg]
    exact ih
  | @ofPrimary ls f _ ih => exact (pairsIn_mono (by decide) f).trans ih
  | @group ls f _ ih =>
    rw [groupings_group]
    exact (pairsIn_le_succ Stratum.disjunction.level _ f).trans (Nat.succ_le_succ ih)
  | number _ => exact Nat.zero_le _
  | wordTrue => exact Nat.zero_le _
  | wordFalse => exact Nat.zero_le _
  | defined => exact Nat.zero_le _
  | definedGroup => exact Nat.zero_le _
  | bare _ => exact Nat.zero_le _

namespace Formula

/-! ## Parentheses of the text -/

theorem groupings_groupLexemes {f : Condition} {ls : List Lexeme} (h : groupings ls = pairs f)
    (least : Nat) : groupings (groupLexemes least f ls) = pairsIn least f := by
  unfold groupLexemes pairsIn
  split
  case isTrue => rw [groupings_group, h]
  case isFalse => rw [h, Nat.add_zero]

/-- The text of a formula has just the pairs of parentheses that its operands need. -/
theorem groupings_lexemes (f : Condition) : groupings (significant (lexemes f)) = pairs f := by
  induction f with
  | const value => cases value <;> rfl
  | atom a =>
    cases a with
    | bare name => rfl
    | defined name => simp [lexemes, pairs, significant, groupings, groupingsFrom, Lexeme.isLayout]
  | neg f ih =>
    rw [lexemes, significant_symbol, significant_groupLexemes, groupings_symbol (by decide),
      groupings_groupLexemes ih]
    rfl
  | join op f g ihf ihg =>
    have hop : op.symbol ≠ .opening := by cases op <;> decide
    rw [lexemes, significant_append, significant_layout, significant_symbol, significant_layout,
      significant_groupLexemes, significant_groupLexemes, groupings_append hop,
      groupings_groupLexemes ihf, groupings_groupLexemes ihg]
    rfl

end Formula

/-! ## Texts -/

/-- How many opening parentheses among the tokens of a text group operands. -/
def Token.groupings (ts : List Token) : Nat :=
  Lexeme.groupings ((Token.significant ts).map Token.lexeme)

namespace Condition

theorem exists_tokens_render {f : Condition} (hn : ∀ a ∈ f.atoms, a.isNamed = true) :
    ∃ ts, tokens (render f) = .ok ts ∧ Token.groupings ts = pairs f := by
  have hs : Separated (lexemes f ++ []) := separated_lexemes hn trivial rfl
  rw [List.append_nil] at hs
  refine ⟨_, tokens_eq_ok_iff.2 ⟨_, hs, spelled_lexemes f, rfl⟩, ?_⟩
  rw [Token.groupings, Token.map_lexeme_significant, Token.map_lexeme_placed, groupings_lexemes]

theorem pairs_le_groupings {f : Condition} {text : String} (h : Says text f) :
    ∃ ts, tokens text = .ok ts ∧ pairs f ≤ Token.groupings ts := by
  obtain ⟨ts, ht, hd⟩ := h
  exact ⟨ts, ht, (Nat.le_add_right _ _).trans hd.pairsIn_le⟩

/-- The text that a condition with proper names is printed as says it, and has no more parentheses
that group operands than any other text that says it. -/
theorem render_fewest_groupings {f : Condition} (hn : ∀ a ∈ f.atoms, a.isNamed = true) :
    ∃ ts, tokens (render f) = .ok ts ∧ parse (render f) = .ok f ∧
      ∀ text, parse text = .ok f →
        ∃ us, tokens text = .ok us ∧ Token.groupings ts ≤ Token.groupings us := by
  obtain ⟨ts, ht, hpairs⟩ := exists_tokens_render hn
  refine ⟨ts, ht, parse_eq_ok_iff_says.2 (says_render hn), fun text htext => ?_⟩
  have hsays : Says text f := parse_eq_ok_iff_says.1 htext
  rw [hpairs]
  exact pairs_le_groupings hsays

/-- Two pairs of parentheses, one under a negation and one on the right of a conjunction. -/
theorem render_fewest_groupings_nested :
    let f : Condition := .conj (.neg (.join .disj (.atom (.bare "A")) (.atom (.bare "B"))))
      (.conj (.atom (.bare "C")) (.atom (.defined "D")))
    (∀ a ∈ f.atoms, a.isNamed = true) ∧ render f = "!(A || B) && (C && defined(D))" ∧
      parse "((!((A)||B))&&(C && (defined (D))))" = .ok f ∧
      ∃ ts, tokens (render f) = .ok ts ∧ Token.groupings ts = 2 ∧
        ∀ text, parse text = .ok f →
          ∃ us, tokens text = .ok us ∧ Token.groupings ts ≤ Token.groupings us := by
  intro f
  have hn : ∀ a ∈ f.atoms, a.isNamed = true := by decide
  have hrender : render f = "!(A || B) && (C && defined(D))" := by decide
  obtain ⟨ts, ht, -, hleast⟩ := render_fewest_groupings hn
  refine ⟨hn, hrender, by decide +kernel, ts, ht, ?_, hleast⟩
  obtain ⟨us, hu, hpairs⟩ := exists_tokens_render hn
  obtain rfl : us = ts := Except.ok.inj (hu.symm.trans ht)
  exact hpairs

end Condition

end Conditionals
