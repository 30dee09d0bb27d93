/-
Conditionals.Proofs.Condition.Grammar — the grammar of conditions.

`Derives` relates a list of lexemes, none of them layout, to the
condition they say. The grammar has four strata, each with the phrases of
the next one among its own: disjunctions of conjunctions of negations of
primaries. Both connectives have their own stratum on the left and the
next one on the right, so operands are grouped to the left.

* `Derives.weaken` — a phrase belongs to every looser stratum;
* `Derives.isNamed_atoms` — the atoms of what is derived have names of the
  source language, and no bare atom is a word with a meaning of its own.
-/
import Conditionals.Proofs.Token.Lexer
import Conditionals.Formula.Basic

namespace Conditionals

/-! ## The grammar -/

/-- The words that are no bare atoms. -/
def reserved : List String :=
  ["defined", "true", "false"]

/-- The strata of the grammar, the loosest first. -/
inductive Stratum where
  | disjunction
  | conjunction
  | negation
  | primary
  deriving DecidableEq, Repr

/-- The lexemes of a phrase and the condition it says. -/
inductive Derives : Stratum → List Lexeme → Condition → Prop where
  | disjunction {ls ms : List Lexeme} {f g : Condition} :
      Derives .disjunction ls f → Derives .conjunction ms g →
      Derives .disjunction (ls ++ .symbol .disjunction :: ms) (.join .disj f g)
  | ofConjunction {ls : List Lexeme} {f : Condition} :
      Derives .conjunction ls f → Derives .disjunction ls f
  | conjunction {ls ms : List Lexeme} {f g : Condition} :
      Derives .conjunction ls f → Derives .negation ms g →
      Derives .conjunction (ls ++ .symbol .conjunction :: ms) (.join .conj f g)
  | ofNegation {ls : List Lexeme} {f : Condition} :
      Derives .negation ls f → Derives .conjunction ls f
  | negation {ls : List Lexeme} {f : Condition} :
      Derives .negation ls f → Derives .negation (.symbol .negation :: ls) (.neg f)
  | ofPrimary {ls : List Lexeme} {f : Condition} :
      Derives .primary ls f → Derives .negation ls f
  | group {ls : List Lexeme} {f : Condition} :
      Derives .disjunction ls f →
      Derives .primary (.symbol .opening :: ls ++ [.symbol .closing]) f
  | number {numeral : String} {value : Nat} :
      Numeral.Denotes numeral.toList value →
      Derives .primary [.number numeral] (.const (decide (value ≠ 0)))
  | wordTrue : Derives .primary [.identifier "true"] (.const true)
  | wordFalse : Derives .primary [.identifier "false"] (.const false)
  | defined {name : String} :
      Derives .primary [.identifier "defined", .identifier name] (.atom (.defined name))
  | definedGroup {name : String} :
      Derives .primary
        [.identifier "defined", .symbol .opening, .identifier name, .symbol .closing]
        (.atom (.defined name))
  | bare {name : String} :
      name ∉ reserved → Derives .primary [.identifier name] (.atom (.bare name))

/-! ## Strata -/

/-- How tightly the phrases of a stratum bind at least. -/
def Stratum.level : Stratum → Nat
  | disjunction => Connective.disj.level
  | conjunction => Connective.conj.level
  | negation => Formula.negLevel
  | primary => Formula.atomLevel

namespace Derives

variable {s t : Stratum} {ls : List Lexeme} {f : Condition}

/-- A phrase belongs to every looser stratum. -/
theorem weaken (h : Derives s ls f) (hst : t.level ≤ s.level) : Derives t ls f := by
  cases s with
  | disjunction =>
    cases t with
    | disjunction => exact h
    | conjunction => exact absurd hst (by decide)
    | negation => exact absurd hst (by decide)
    | primary => exact absurd hst (by decide)
  | conjunction =>
    cases t with
    | disjunction => exact .ofConjunction h
    | conjunction => exact h
    | negation => exact absurd hst (by decide)
    | primary => exact absurd hst (by decide)
  | negation =>
    cases t with
    | disjunction => exact .ofConjunction (.ofNegation h)
    | conjunction => exact .ofNegation h
    | negation => exact h
    | primary => exact absurd hst (by decide)
  | primary =>
    cases t with
    | disjunction => exact .ofConjunction (.ofNegation (.ofPrimary h))
    | conjunction => exact .ofNegation (.ofPrimary h)
    | negation => exact .ofPrimary h
    | primary => exact h

end Derives

/-! ## Connectives -/

namespace Connective

/-- The symbol of a connective. -/
def symbol : Connective → Symbol
  | conj => .conjunction
  | disj => .disjunction

/-- The stratum of the phrases that a connective makes, and of its left operands. -/
def stratum : Connective → Stratum
  | conj => .conjunction
  | disj => .disjunction

/-- The stratum of a connective's right operands. -/
def rightStratum : Connective → Stratum
  | conj => .negation
  | disj => .conjunction

end Connective

theorem Derives.join (op : Connective) {ls ms : List Lexeme} {f g : Condition}
    (hf : Derives op.stratum ls f) (hg : Derives op.rightStratum ms g) :
    Derives op.stratum (ls ++ .symbol op.symbol :: ms) (.join op f g) := by
  cases op with
  | conj => exact .conjunction hf hg
  | disj => exact .disjunction hf hg

theorem Derives.ofRight (op : Connective) {ls : List Lexeme} {f : Condition}
    (h : Derives op.rightStratum ls f) : Derives op.stratum ls f := by
  cases op with
  | conj => exact .ofNegation h
  | disj => exact .ofConjunction h

/-! ## Names -/

/-- The name is one of the source language, and for a bare atom no reserved word. -/
def Atom.isNamed : Atom → Bool
  | .bare name => isIdentifier name && !reserved.contains name
  | .defined name => isIdentifier name

/-- All atoms of a formula, from left to right. -/
def Formula.atoms {α : Type} : Formula α → List α
  | const _ => []
  | atom a => [a]
  | neg f => f.atoms
  | join _ f g => f.atoms ++ g.atoms

/-- What is derived from well-formed lexemes has proper names. -/
theorem Derives.isNamed_atoms {s : Stratum} {ls : List Lexeme} {f : Condition} (h : Derives s ls f)
    (hw : ∀ l ∈ ls, l.WellFormed) : ∀ a ∈ f.atoms, a.isNamed = true := by
  induction h with
  | disjunction _ _ ihf ihg =>
    simp only [List.forall_mem_append, List.forall_mem_cons] at hw
    exact List.forall_mem_append.2 ⟨ihf hw.1, ihg hw.2.2⟩
  | ofConjunction _ ih => exact ih hw
  | conjunction _ _ ihf ihg =>
    simp only [List.forall_mem_append, List.forall_mem_cons] at hw
    exact List.forall_mem_append.2 ⟨ihf hw.1, ihg hw.2.2⟩
  | ofNegation _ ih => exact ih hw
  | negation _ ih => exact ih (List.forall_mem_cons.1 hw).2
  | ofPrimary _ ih => exact ih hw
  | group _ ih =>
    simp only [List.cons_append, List.forall_mem_cons, List.forall_mem_append] at hw
    exact ih hw.2.1
  | number _ => simp [Formula.atoms]
  | wordTrue => simp [Formula.atoms]
  | wordFalse => simp [Formula.atoms]
  | @defined name =>
    have hname : isIdentifier name = true := hw (.identifier name) (by simp)
    simpa [Formula.atoms, Atom.isNamed] using hname
  | @definedGroup name =>
    have hname : isIdentifier name = true := hw (.identifier name) (by simp)
    simpa [Formula.atoms, Atom.isNamed] using hname
  | @bare name hr =>
    have hname : isIdentifier name = true := hw (.identifier name) (by simp)
    simp [Formula.atoms, Atom.isNamed, hname, hr]

end Conditionals
