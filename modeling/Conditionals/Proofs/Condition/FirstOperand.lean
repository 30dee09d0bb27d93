/-
Conditionals.Proofs.Condition.FirstOperand — the operand in front of a
condition.

Operands are grouped to the left, so what stands behind the first one goes
on a condition in the same way whatever that operand is.

* `Derives.Whole` — lexemes that are a primary and do not begin a longer
  one; in front of a condition one of them may stand in the place of
  another one (`Derives.Whole.exchange`);
* `Derives.Whole.exists_iff_goesOn` — hence whether lexemes go on a
  condition (`Derives.GoesOn`) depends neither on the operand in front of
  them nor on how often it is negated;
* `Derives.exists_name_of_testOpening` — a condition that begins with a
  test of a macro tests that macro first.
-/
import Conditionals.Proofs.Condition.Soundness

namespace Conditionals.Derives

open Pending (negationSigns)

variable {s : Stratum} {ls ms front rest : List Lexeme} {f : Condition}

/-- A connective that is not among the lexemes in front stands behind them. -/
theorem exists_append_of_not_mem (op : Connective) (hop : .symbol op.symbol ∉ front)
    (h : ls ++ .symbol op.symbol :: ms = front ++ rest) :
    ∃ rest', ls = front ++ rest' ∧ rest = rest' ++ .symbol op.symbol :: ms := by
  rcases List.append_eq_append_iff.1 h with ⟨as, hfront, has⟩ | ⟨as, hls, hrest⟩
  · cases as with
    | nil =>
      rw [List.append_nil] at hfront
      exact ⟨[], by rw [hfront, List.append_nil], has.symm⟩
    | cons a as =>
      rw [List.cons_append, List.cons.injEq] at has
      exact absurd (by rw [hfront, has.1]; simp) hop
  · exact ⟨as, hls, hrest⟩

/-! ## Signs of negation -/

theorem exists_negation_cons (h : Derives s ls f) (hs : s ≠ .primary) :
    ∃ g, Derives s (.symbol .negation :: ls) g := by
  induction h with
  | disjunction _ hg ih _ =>
    obtain ⟨f', hf⟩ := ih hs
    exact ⟨_, .disjunction hf hg⟩
  | ofConjunction _ ih =>
    obtain ⟨f', hf⟩ := ih (by decide)
    exact ⟨_, .ofConjunction hf⟩
  | conjunction _ hg ih _ =>
    obtain ⟨f', hf⟩ := ih hs
    exact ⟨_, .conjunction hf hg⟩
  | ofNegation _ ih =>
    obtain ⟨f', hf⟩ := ih (by decide)
    exact ⟨_, .ofNegation hf⟩
  | negation h _ => exact ⟨_, .negation (.negation h)⟩
  | ofPrimary h _ => exact ⟨_, .negation (.ofPrimary h)⟩
  | _ => exact absurd rfl hs

theorem exists_of_negation_cons (h : Derives s ls f) (hls : ls = .symbol .negation :: ms) :
    ∃ g, Derives s ms g := by
  induction h generalizing ms with
  | disjunction _ hg ih _ =>
    obtain ⟨rest, hrest, rfl⟩ :=
      @exists_append_of_not_mem _ _ [.symbol .negation] ms .disj (by decide) hls
    obtain ⟨f', hf⟩ := ih hrest
    exact ⟨_, .disjunction hf hg⟩
  | ofConjunction _ ih =>
    obtain ⟨f', hf⟩ := ih hls
    exact ⟨_, .ofConjunction hf⟩
  | conjunction _ hg ih _ =>
    obtain ⟨rest, hrest, rfl⟩ :=
      @exists_append_of_not_mem _ _ [.symbol .negation] ms .conj (by decide) hls
    obtain ⟨f', hf⟩ := ih hrest
    exact ⟨_, .conjunction hf hg⟩
  | ofNegation _ ih =>
    obtain ⟨f', hf⟩ := ih hls
    exact ⟨_, .ofNegation hf⟩
  | negation h _ =>
    cases hls
    exact ⟨_, h⟩
  | ofPrimary _ ih =>
    obtain ⟨f', hf⟩ := ih hls
    exact ⟨_, .ofPrimary hf⟩
  | _ => cases hls

/-- Signs of negation in front do not decide whether lexemes derive a condition. -/
theorem exists_negationSigns_iff (n : Nat) :
    (∃ f, Derives .disjunction (negationSigns n ++ ls) f) ↔ ∃ f, Derives .disjunction ls f := by
  induction n with
  | zero => rfl
  | succ n ih =>
    rw [← ih]
    constructor
    · rintro ⟨f, h⟩
      exact h.exists_of_negation_cons rfl
    · rintro ⟨f, h⟩
      exact h.exists_negation_cons (by decide)

/-! ## Exchanging the first operand -/

/-- The lexemes are a primary, they do not begin a longer one, and no connective is among them. -/
structure Whole (front : List Lexeme) : Prop where
  derives : ∃ f, Derives .primary front f
  alone : ∀ {rest f}, Derives .primary (front ++ rest) f → rest = []
  apart : ∀ op : Connective, .symbol op.symbol ∉ front

/-- The word that asks for a definition, and a name between parentheses. -/
def definedGroupLexemes (name : String) : List Lexeme :=
  [.identifier "defined", .symbol .opening, .identifier name, .symbol .closing]

theorem whole_true : Whole [.identifier "true"] where
  derives := ⟨_, .wordTrue⟩
  alone {rest f} h := by
    generalize hls : [Lexeme.identifier "true"] ++ rest = ls at h
    cases h <;> simp_all
  apart op := by cases op <;> decide

theorem whole_definedGroupLexemes (name : String) : Whole (definedGroupLexemes name) where
  derives := ⟨_, .definedGroup⟩
  alone {rest f} h := by
    generalize hls : definedGroupLexemes name ++ rest = ls at h
    unfold definedGroupLexemes at hls
    cases h <;> simp_all
  apart op := by cases op <;> simp [definedGroupLexemes, Connective.symbol]

theorem Whole.append_ne_negation_cons (h : Whole front) :
    front ++ rest ≠ .symbol .negation :: ls := by
  obtain ⟨f, hf⟩ := h.derives
  cases hf <;> nofun

/-- In front of a condition one primary may stand in the place of another one. -/
theorem Whole.exchange {other : List Lexeme} (hfront : Whole front) (hother : Whole other)
    (h : Derives s ls f) (hls : ls = front ++ rest) (hs : s ≠ .primary) :
    ∃ g, Derives s (other ++ rest) g := by
  induction h generalizing rest with
  | disjunction _ hg ih _ =>
    obtain ⟨rest', hrest, rfl⟩ := exists_append_of_not_mem .disj (hfront.apart .disj) hls
    obtain ⟨f', hf⟩ := ih hrest hs
    rw [← List.append_assoc]
    exact ⟨_, .disjunction hf hg⟩
  | ofConjunction _ ih =>
    obtain ⟨f', hf⟩ := ih hls (by decide)
    exact ⟨_, .ofConjunction hf⟩
  | conjunction _ hg ih _ =>
    obtain ⟨rest', hrest, rfl⟩ := exists_append_of_not_mem .conj (hfront.apart .conj) hls
    obtain ⟨f', hf⟩ := ih hrest hs
    rw [← List.append_assoc]
    exact ⟨_, .conjunction hf hg⟩
  | ofNegation _ ih =>
    obtain ⟨f', hf⟩ := ih hls (by decide)
    exact ⟨_, .ofNegation hf⟩
  | negation _ _ => exact absurd hls.symm hfront.append_ne_negation_cons
  | ofPrimary h _ =>
    -- The primary in front is all there is, so the other one takes the place of the whole.
    rw [hls] at h
    obtain rfl := hfront.alone h
    obtain ⟨f', hf⟩ := hother.derives
    rw [List.append_nil]
    exact ⟨_, .ofPrimary hf⟩
  | _ => exact absurd rfl hs

/-- The lexemes go on a condition behind its first operand. -/
def GoesOn (ls : List Lexeme) : Prop :=
  ∃ f, Derives .disjunction (.identifier "true" :: ls) f

/-- Which operand is in front, and how often it is negated, does not count. -/
theorem Whole.exists_iff_goesOn (h : Whole front) (n : Nat) :
    (∃ f, Derives .disjunction (negationSigns n ++ (front ++ ls)) f) ↔ GoesOn ls := by
  rw [exists_negationSigns_iff]
  constructor
  · rintro ⟨f, hf⟩
    exact h.exchange whole_true hf rfl (by decide)
  · rintro ⟨f, hf⟩
    exact whole_true.exchange h hf rfl (by decide)

/-! ## The first macro -/

/-- Signs of negation, and the word that asks for a definition with the parenthesis behind it. -/
def testOpening (n : Nat) : List Lexeme :=
  negationSigns n ++ [.identifier "defined", .symbol .opening]

theorem symbol_not_mem_testOpening (op : Connective) (n : Nat) :
    .symbol op.symbol ∉ testOpening n := by
  cases op <;> simp [testOpening, negationSigns, Connective.symbol]

/-- Behind that parenthesis a condition goes on with a name and a closing parenthesis, and it tests
the macro of this name first. -/
theorem exists_name_of_testOpening {n : Nat} (h : Derives s ls f)
    (hls : ls = testOpening n ++ rest) :
    ∃ name rest', rest = .identifier name :: .symbol .closing :: rest' ∧
      f.atoms.head? = some (.defined name) := by
  have happend : ∀ {g h : Condition} {a : Atom}, g.atoms.head? = some a →
      (g.atoms ++ h.atoms).head? = some a := by
    intro g h a hg
    rw [List.head?_append, hg, Option.some_or]
  induction h generalizing n rest with
  | disjunction _ _ ih _ =>
    obtain ⟨front, hfront, rfl⟩ :=
      exists_append_of_not_mem .disj (symbol_not_mem_testOpening _ n) hls
    obtain ⟨name, rest', rfl, hhead⟩ := ih hfront
    exact ⟨name, _, rfl, happend hhead⟩
  | ofConjunction _ ih => exact ih hls
  | conjunction _ _ ih _ =>
    obtain ⟨front, hfront, rfl⟩ :=
      exists_append_of_not_mem .conj (symbol_not_mem_testOpening _ n) hls
    obtain ⟨name, rest', rfl, hhead⟩ := ih hfront
    exact ⟨name, _, rfl, happend hhead⟩
  | ofNegation _ ih => exact ih hls
  | negation _ ih =>
    cases n with
    | zero => cases hls
    | succ n => exact ih (List.cons.inj hls).2
  | ofPrimary _ ih => exact ih hls
  | definedGroup =>
    cases n with
    | zero =>
      cases hls
      exact ⟨_, [], rfl, rfl⟩
    | succ n => cases hls
  | group _ _ => cases n <;> cases hls
  | number _ => cases n <;> cases hls
  | wordTrue => cases n <;> simp [testOpening, negationSigns, List.replicate_succ] at hls
  | wordFalse => cases n <;> simp [testOpening, negationSigns, List.replicate_succ] at hls
  | defined => cases n <;> cases hls
  | bare _ => cases n <;> cases hls

end Conditionals.Derives
