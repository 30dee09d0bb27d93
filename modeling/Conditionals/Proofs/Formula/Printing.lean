/-
Conditionals.Proofs.Formula.Printing — the text of a condition says the
condition.

`Formula.lexemes` is the text of `Formula.render` before it is spelled out
(`spelled_lexemes`). Two facts about it, each by induction on the formula:

* the lexer cuts the text into these lexemes again
  (`separated_lexemes`), since words stand beside symbols and single
  spaces only;
* without the spaces they derive the formula (`derives_lexemes`), since
  an operand that binds less tightly than its place demands stands in
  parentheses.

Both need the names to be ones of the source language: a name with a
space or an operator in it is cut, and a reserved word is no bare atom.
-/
import Conditionals.Formula.Render
import Conditionals.Proofs.Condition.Recognition

namespace Conditionals

namespace Formula

open Lexeme (Separated spelled)

/-! ## Lexemes of a formula -/

/-- The lexemes of an operand, in parentheses if it binds less tightly than `least`. -/
def groupLexemes (least : Nat) (operand : Condition) (ls : List Lexeme) : List Lexeme :=
  if operand.level < least then .symbol .opening :: ls ++ [.symbol .closing] else ls

/-- The lexemes of a formula as it is written in a source file. -/
def lexemes : Condition → List Lexeme
  | const true => [.number "1"]
  | const false => [.number "0"]
  | atom (.bare name) => [.identifier name]
  | atom (.defined name) =>
    [.identifier "defined", .symbol .opening, .identifier name, .symbol .closing]
  | neg f => .symbol .negation :: groupLexemes negLevel f (lexemes f)
  | join op f g =>
    groupLexemes op.level f (lexemes f) ++
      .layout " " :: .symbol op.symbol :: .layout " " ::
        groupLexemes (op.level + 1) g (lexemes g)

theorem spelled_groupLexemes (least : Nat) (f : Condition) {ls : List Lexeme} {text : String}
    (h : spelled ls = text.toList) :
    spelled (groupLexemes least f ls) = (group least f text).toList := by
  unfold groupLexemes group
  split
  · simp [h, Lexeme.spelling, Symbol.spelling]
  · exact h

theorem spelled_lexemes (f : Condition) : spelled (lexemes f) = (render f).toList := by
  induction f with
  | const value => cases value <;> rfl
  | atom a =>
    cases a with
    | bare name => simp [lexemes, render, Atom.render, Lexeme.spelling]
    | defined name => simp [lexemes, render, Atom.render, Lexeme.spelling, Symbol.spelling]
  | neg f ih =>
    have hg := spelled_groupLexemes negLevel f ih
    simp [lexemes, render, hg, Lexeme.spelling, Symbol.spelling]
  | join op f g ihf ihg =>
    have hf := spelled_groupLexemes op.level f ihf
    have hg := spelled_groupLexemes (op.level + 1) g ihg
    cases op <;>
      simp [lexemes, render, hf, hg, Lexeme.spelling, Symbol.spelling, Connective.symbol,
        Connective.spelling]

/-! ## Cutting the text -/

theorem isLayout_head_group {ls : List Lexeme} (least : Nat) (f : Condition)
    (h : ∀ rest, (spelled ls ++ rest).head?.any isLayout = false) (rest : List Char) :
    (spelled (groupLexemes least f ls) ++ rest).head?.any isLayout = false := by
  unfold groupLexemes
  split
  · rfl
  · exact h rest

theorem isLayout_head {f : Condition} (hn : ∀ a ∈ f.atoms, a.isNamed = true)
    (rest : List Char) : (spelled (lexemes f) ++ rest).head?.any isLayout = false := by
  induction f generalizing rest with
  | const value => cases value <;> rfl
  | atom a =>
    cases a with
    | bare name =>
      have hname : isIdentifier name = true := by
        have := hn (.bare name) List.mem_cons_self
        simp only [Atom.isNamed, Bool.and_eq_true] at this
        exact this.1
      obtain ⟨c, cs, hcs, hc, -⟩ := Lexeme.isIdentifier_iff.1 hname
      simp only [lexemes, Lexeme.spelled_cons, Lexeme.spelling, hcs, List.cons_append,
        List.head?_cons, Option.any_some]
      rw [← Bool.not_eq_true]
      intro hl
      rw [isWordStart_eq_false_of_isLayout hl] at hc
      cases hc
    | defined name => rfl
  | neg f _ => rfl
  | join op f g ihf _ =>
    rw [lexemes, Lexeme.spelled_append, List.append_assoc]
    exact isLayout_head_group _ _ (ihf fun a ha => hn a (List.mem_append_left _ ha)) _

theorem separated_symbol (which : Symbol) {ks : List Lexeme} (hk : Separated ks) :
    Separated (.symbol which :: ks) :=
  ⟨trivial, trivial, hk⟩

theorem separated_space {ks : List Lexeme} (hk : Separated ks)
    (hl : (spelled ks).head?.any isLayout = false) : Separated (.layout " " :: ks) := by
  refine ⟨⟨List.cons_ne_nil _ _, fun c hc => ?_⟩, hl, hk⟩
  rw [List.mem_singleton.1 hc]
  rfl

theorem separated_groupLexemes {ls : List Lexeme} (least : Nat) (f : Condition)
    (h : ∀ ks, Separated ks → (spelled ks).head?.any isWord = false → Separated (ls ++ ks))
    {ks : List Lexeme} (hk : Separated ks) (hw : (spelled ks).head?.any isWord = false) :
    Separated (groupLexemes least f ls ++ ks) := by
  unfold groupLexemes
  split
  · have hc : Separated (.symbol .closing :: ks) := separated_symbol _ hk
    have := separated_symbol .opening (h _ hc rfl)
    simpa using this
  · exact h ks hk hw

/-- The lexer cuts the text of a formula into the formula's lexemes, whatever follows that is no
word. -/
theorem separated_lexemes {f : Condition} (hn : ∀ a ∈ f.atoms, a.isNamed = true)
    {ks : List Lexeme} (hk : Separated ks) (hw : (spelled ks).head?.any isWord = false) :
    Separated (lexemes f ++ ks) := by
  induction f generalizing ks with
  | const value =>
    cases value
    · exact ⟨⟨_, Numeral.denotes_digit rfl⟩, hw, hk⟩
    · exact ⟨⟨_, Numeral.denotes_digit rfl⟩, hw, hk⟩
  | atom a =>
    have ha := hn a List.mem_cons_self
    cases a with
    | bare name =>
      simp only [Atom.isNamed, Bool.and_eq_true] at ha
      exact ⟨ha.1, hw, hk⟩
    | defined name =>
      have hc : Separated (.symbol .closing :: ks) := separated_symbol _ hk
      have hname : Separated (.identifier name :: .symbol .closing :: ks) := ⟨ha, rfl, hc⟩
      exact ⟨(by decide : isIdentifier "defined" = true), rfl, separated_symbol _ hname⟩
  | neg f ih =>
    exact separated_symbol _ (separated_groupLexemes _ f (fun _ => ih hn) hk hw)
  | join op f g ihf ihg =>
    have hnf : ∀ a ∈ f.atoms, a.isNamed = true := fun a ha => hn a (List.mem_append_left _ ha)
    have hng : ∀ a ∈ g.atoms, a.isNamed = true := fun a ha => hn a (List.mem_append_right _ ha)
    have hg := separated_groupLexemes (op.level + 1) g (fun _ => ihg hng) hk hw
    have hl : (spelled (groupLexemes (op.level + 1) g (lexemes g) ++ ks)).head?.any isLayout
        = false := by
      rw [Lexeme.spelled_append]
      exact isLayout_head_group _ g (isLayout_head hng) _
    have hop := separated_symbol op.symbol (separated_space hg hl)
    have hright := separated_space hop (by cases op <;> rfl)
    have := separated_groupLexemes op.level f (fun _ => ihf hnf) hright rfl
    simpa [lexemes] using this

/-! ## Deriving the formula -/

/-- The stratum whose phrases the text of a formula belongs to. -/
def stratum : Condition → Stratum
  | const _ => .primary
  | atom _ => .primary
  | neg _ => .negation
  | join op _ _ => op.stratum

theorem level_stratum (f : Condition) : f.stratum.level = f.level := by
  cases f with
  | join op f g => cases op <;> rfl
  | _ => rfl

theorem derives_groupLexemes {f : Condition} {ls : List Lexeme} (h : Derives f.stratum ls f)
    (s : Stratum) : Derives s (groupLexemes s.level f ls) f := by
  unfold groupLexemes
  split
  · have hd : Derives .disjunction ls f := h.weaken (by cases f.stratum <;> decide)
    exact (Derives.group hd).weaken (by cases s <;> decide)
  · rename_i hle
    rw [← level_stratum] at hle
    exact h.weaken (by omega)

theorem significant_groupLexemes (least : Nat) (f : Condition) (ls : List Lexeme) :
    Lexeme.significant (groupLexemes least f ls) =
      groupLexemes least f (Lexeme.significant ls) := by
  unfold groupLexemes
  split
  · rw [Lexeme.significant_append, List.cons_append, Lexeme.significant_symbol]
    rfl
  · rfl

/-- Without the spaces, the lexemes of a formula derive it. -/
theorem derives_lexemes {f : Condition} (hn : ∀ a ∈ f.atoms, a.isNamed = true) :
    Derives f.stratum (Lexeme.significant (lexemes f)) f := by
  induction f with
  | const value =>
    cases value
    · exact @Derives.number "0" _ (Numeral.denotes_digit rfl)
    · exact @Derives.number "1" _ (Numeral.denotes_digit rfl)
  | atom a =>
    have ha := hn a List.mem_cons_self
    cases a with
    | bare name =>
      simp only [Atom.isNamed, Bool.and_eq_true, Bool.not_eq_true', List.contains_eq_mem,
        decide_eq_false_iff_not] at ha
      exact .bare ha.2
    | defined name => exact .definedGroup
  | neg f ih =>
    rw [lexemes, Lexeme.significant_symbol, significant_groupLexemes]
    exact .negation (derives_groupLexemes (ih hn) .negation)
  | join op f g ihf ihg =>
    have hf := derives_groupLexemes (ihf fun a ha => hn a (List.mem_append_left _ ha)) op.stratum
    have hg := derives_groupLexemes (ihg fun a ha => hn a (List.mem_append_right _ ha))
      op.rightStratum
    rw [lexemes, Lexeme.significant_append, Lexeme.significant_layout, Lexeme.significant_symbol,
      Lexeme.significant_layout, significant_groupLexemes, significant_groupLexemes]
    cases op with
    | conj => exact Derives.join .conj hf hg
    | disj => exact Derives.join .disj hf hg

/-- The text of a condition with proper names says the condition. -/
theorem says_render {f : Condition} (hn : ∀ a ∈ f.atoms, a.isNamed = true) :
    Condition.Says (render f) f := by
  have hs : Separated (lexemes f ++ []) := separated_lexemes hn trivial rfl
  rw [List.append_nil] at hs
  have hd : Derives .disjunction (Lexeme.significant (lexemes f)) f :=
    (derives_lexemes hn).weaken (by cases f.stratum <;> decide)
  refine ⟨_, Condition.tokens_eq_ok_iff.2 ⟨_, hs, spelled_lexemes f, rfl⟩, ?_⟩
  rw [Token.map_lexeme_significant, Token.map_lexeme_placed]
  exact hd

end Formula

end Conditionals
