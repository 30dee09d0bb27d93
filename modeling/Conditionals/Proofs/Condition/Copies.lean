/-
Conditionals.Proofs.Condition.Copies — which copies of atoms a cache hands
out does not matter.

`Parser.erase` takes the numbers off the copies that a state holds. A step
looks at no number, so it does the same to two states that are equal
without them, whatever the caches (`Parser.step_erase`); and so does a run
(`Parser.run_of_erase_eq`). Hence reading a text with a cache comes to what
reading it without one does, also where it fails
(`Condition.parseWith_map_atom`).
-/
import Conditionals.Proofs.Condition.Recognition

namespace Conditionals

/-! ## Without the numbers -/

/-- The copy of an atom without its number. -/
def Interned.erase (x : Interned) : Interned :=
  ⟨0, x.atom⟩

namespace Formula

theorem map_map {α β γ : Type} (g : β → γ) (h : α → β) (f : Formula α) :
    (f.map h).map g = f.map (g ∘ h) := by
  induction f with
  | const value => rfl
  | atom a => rfl
  | neg f ih => rw [map, map, ih, map]
  | join op f g ihf ihg => rw [map, map, ihf, ihg, map]

/-- A formula over copies without their numbers. -/
def erase (f : Formula Interned) : Formula Interned :=
  f.map Interned.erase

theorem map_atom_erase (f : Formula Interned) :
    f.erase.map Interned.atom = f.map Interned.atom := by
  rw [erase, map_map]
  rfl

end Formula

namespace Pending

def erase (p : Pending) : Pending :=
  ⟨p.disjunct.map Formula.erase, p.conjunct.map Formula.erase, p.negations⟩

theorem erase_joinLeft (op : Connective) (left : Option (Formula Interned))
    (f : Formula Interned) :
    (joinLeft op left f).erase = joinLeft op (left.map Formula.erase) f.erase := by
  cases left <;> rfl

theorem erase_negate (n : Nat) (f : Formula Interned) :
    (negate n f).erase = negate n f.erase := by
  induction n with
  | zero => rfl
  | succ n ih => exact congrArg Formula.neg ih

theorem erase_conjunction (p : Pending) (f : Formula Interned) :
    (p.conjunction f).erase = p.erase.conjunction f.erase :=
  erase_joinLeft ..

theorem erase_disjunction (p : Pending) (f : Formula Interned) :
    (p.disjunction f).erase = p.erase.disjunction f.erase := by
  rw [disjunction, erase_joinLeft, erase_conjunction, disjunction]
  rfl

theorem erase_joined (p : Pending) (f : Formula Interned) (op : Connective) :
    (p.joined f op).erase = p.erase.joined f.erase op := by
  cases op with
  | conj => rw [joined, joined, ← erase_conjunction]; rfl
  | disj => rw [joined, joined, ← erase_disjunction]; rfl

end Pending

def Mode.erase : Mode → Mode
  | .operand => .operand
  | .keyword => .keyword
  | .opened => .opened
  | .named name => .named name
  | .value f => .value f.erase

/-! ## Steps and runs -/

namespace Parser

open SyntaxError (Cause)

/-- A state without the numbers of the copies. -/
def erase (p : Parser) : Parser :=
  ⟨p.pending.erase, p.outer.map Pending.erase, p.mode.erase⟩

variable {p q : Parser} {c d : Cache}

theorem erase_complete (p : Parser) (f : Formula Interned) :
    (p.complete f).erase = p.erase.complete f.erase := by
  rw [complete, complete, erase, Mode.erase, Pending.erase_negate]
  rfl

/-- The copies of an empty cache have the number that erasing leaves. -/
theorem erase_completeAtom (p : Parser) (c : Cache) (a : Atom) :
    (p.completeAtom c a).1.erase = (p.erase.completeAtom .empty a).1 :=
  erase_complete p _

theorem stepOperand_erase (p : Parser) (c : Cache) (l : Lexeme) :
    (p.stepOperand c l).map (fun r => r.1.erase) =
      (p.erase.stepOperand .empty l).map Prod.fst := by
  unfold stepOperand
  split
  case h_2 => exact congrArg Except.ok (erase_complete p _)
  case h_3 => exact congrArg Except.ok (erase_complete p _)
  case h_4 => exact congrArg Except.ok (erase_completeAtom p c _)
  case h_5 => exact congrArg Except.ok (erase_complete p _)
  all_goals rfl

theorem stepKeyword_erase (p : Parser) (c : Cache) (l : Lexeme) :
    (p.stepKeyword c l).map (fun r => r.1.erase) =
      (p.erase.stepKeyword .empty l).map Prod.fst := by
  unfold stepKeyword
  split
  case h_2 => exact congrArg Except.ok (erase_completeAtom p c _)
  all_goals rfl

theorem stepNamed_erase (p : Parser) (c : Cache) (name : String) (l : Lexeme) :
    (p.stepNamed c name l).map (fun r => r.1.erase) =
      (p.erase.stepNamed .empty name l).map Prod.fst := by
  unfold stepNamed
  split
  case h_1 => exact congrArg Except.ok (erase_completeAtom p c _)
  case h_2 => rfl

theorem stepValue_erase (p : Parser) (c : Cache) (f : Formula Interned) (l : Lexeme) :
    (p.stepValue c f l).map (fun r => r.1.erase) =
      (p.erase.stepValue .empty f.erase l).map Prod.fst := by
  obtain ⟨pending, outer, mode⟩ := p
  have hjoined : ∀ op, Parser.erase ⟨pending.joined f op, outer, .operand⟩ =
      ⟨pending.erase.joined f.erase op, outer.map Pending.erase, .operand⟩ := by
    intro op
    rw [erase, Pending.erase_joined]
    rfl
  cases l with
  | symbol which =>
    cases which with
    | conjunction => exact congrArg Except.ok (hjoined .conj)
    | disjunction => exact congrArg Except.ok (hjoined .disj)
    | negation => rfl
    | opening => rfl
    | closing =>
      cases outer with
      | nil => rfl
      | cons around outer =>
        refine congrArg Except.ok ((erase_complete _ _).trans ?_)
        rw [Pending.erase_disjunction]
        rfl
  | identifier name => rfl
  | number numeral => rfl
  | layout gap => rfl

/-- Without the numbers, a step does what it does with an empty cache. -/
theorem step_erase (p : Parser) (c : Cache) (l : Lexeme) :
    (p.step c l).map (fun r => r.1.erase) = (p.erase.step .empty l).map Prod.fst := by
  obtain ⟨pending, outer, mode⟩ := p
  cases mode with
  | operand => exact stepOperand_erase _ c l
  | keyword => exact stepKeyword_erase _ c l
  | opened => cases l <;> rfl
  | named name => exact stepNamed_erase _ c name l
  | value f => exact stepValue_erase _ c f l

theorem finish_erase (p : Parser) : p.finish.map Formula.erase = p.erase.finish := by
  obtain ⟨pending, outer, mode⟩ := p
  cases mode with
  | operand => rfl
  | keyword => rfl
  | opened => rfl
  | named name => rfl
  | value f =>
    cases outer with
    | nil => exact congrArg Except.ok (pending.erase_disjunction f)
    | cons around outer => rfl

/-- States that are equal without the numbers are read on from alike. -/
theorem run_of_erase_eq (text : String) (ts : List Token) (h : p.erase = q.erase) :
    (p.run text c ts).1.map Formula.erase = (q.run text d ts).1.map Formula.erase := by
  induction ts generalizing p q c d with
  | nil =>
    have hmap : ∀ (g : Cause → SyntaxError) (r : Except Cause (Formula Interned)),
        (r.mapError g).map Formula.erase = (r.map Formula.erase).mapError g := by
      intro g r
      cases r <;> rfl
    rw [run, run, hmap, hmap, finish_erase, finish_erase, h]
  | cons t ts ih =>
    have hs : (p.step c t.lexeme).map (fun r => r.1.erase) =
        (q.step d t.lexeme).map (fun r => r.1.erase) := by
      rw [step_erase, step_erase, h]
    rw [run, run]
    cases hp : p.step c t.lexeme with
    | error cause =>
      cases hq : q.step d t.lexeme with
      | error cause' =>
        rw [hp, hq] at hs
        cases hs
        rfl
      | ok r' =>
        rw [hp, hq] at hs
        cases hs
    | ok r =>
      cases hq : q.step d t.lexeme with
      | error cause' =>
        rw [hp, hq] at hs
        cases hs
      | ok r' =>
        rw [hp, hq] at hs
        exact ih (Except.ok.inj hs)

end Parser

namespace Condition

/-- Reading a text comes to the same with every cache, apart from the numbers of the copies. -/
theorem parseWith_erase (c d : Cache) (text : String) :
    (parseWith c text).1.map Formula.erase = (parseWith d text).1.map Formula.erase := by
  cases ht : tokens text with
  | error fault => rw [parseWith, parseWith, ht]
  | ok ts =>
    by_cases hne : Token.significant ts = []
    · rw [parseWith, parseWith, ht]
      simp only [hne]
    · rw [parseWith_of_tokens ht c hne, parseWith_of_tokens ht d hne]
      exact Parser.run_of_erase_eq text _ rfl

theorem parseWith_map_atom (cache : Cache) (text : String) :
    (parseWith cache text).1.map (·.map Interned.atom) = parse text := by
  have hatom : ∀ r : Except SyntaxError (Formula Interned),
      (r.map Formula.erase).map (·.map Interned.atom) = r.map (·.map Interned.atom) := by
    intro r
    cases r with
    | error fault => rfl
    | ok f => exact congrArg Except.ok f.map_atom_erase
  rw [parse, ← hatom, parseWith_erase cache .empty, hatom]

/-- A text that is no condition is refused with the same fault whatever the cache. -/
theorem parseWith_eq_error_iff {cache : Cache} {text : String} {fault : SyntaxError} :
    (parseWith cache text).1 = .error fault ↔ parse text = .error fault := by
  rw [← parseWith_map_atom cache text]
  cases (parseWith cache text).1 with
  | error fault' => simp [Except.map]
  | ok f => simp [Except.map]

end Condition

end Conditionals
