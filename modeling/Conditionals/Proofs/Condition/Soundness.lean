/-
Conditionals.Proofs.Condition.Soundness — what has been read is derived.

A state of the parser stands for the lexemes it has read: those of each
pair of parentheses that is open, from the outside to the inside, and
then those that its mode still remembers. `Parser.Spells` says which
lists of lexemes a state stands for. One step adds the lexeme it reads
(`Parser.spells_step`); where the text may end, the list is a derivation
of the condition (`Parser.derives_of_finish`).

Atoms are copies from a cache here. The grammar knows no copies, so every
statement is about the formula with the copies replaced by their atoms.
-/
import Conditionals.Condition.Parser
import Conditionals.Proofs.Condition.Grammar

namespace Conditionals

/-! ## What waits for an operand -/

namespace Pending

/-- The lexemes of a left operand and of its connective; none if no operand waits. -/
def LeftSpells (op : Connective) : Option (Formula Interned) → List Lexeme → Prop
  | none, ls => ls = []
  | some f, ls =>
    ∃ ms, Derives op.stratum ms (f.map Interned.atom) ∧ ls = ms ++ [.symbol op.symbol]

/-- The lexemes of the operands that wait, negations left out. -/
def Spells (p : Pending) (ls : List Lexeme) : Prop :=
  ∃ ds cs, LeftSpells .disj p.disjunct ds ∧ LeftSpells .conj p.conjunct cs ∧ ls = ds ++ cs

/-- So many signs of negation. -/
def negationSigns (n : Nat) : List Lexeme :=
  List.replicate n (.symbol .negation)

theorem derives_joinLeft {op : Connective} {left : Option (Formula Interned)}
    {f : Formula Interned} {ls ms : List Lexeme} (hl : LeftSpells op left ls)
    (hf : Derives op.rightStratum ms (f.map Interned.atom)) :
    Derives op.stratum (ls ++ ms) ((joinLeft op left f).map Interned.atom) := by
  cases left with
  | none =>
    rw [hl]
    exact hf.ofRight op
  | some g =>
    obtain ⟨ns, hg, rfl⟩ := hl
    rw [List.append_assoc]
    exact Derives.join op hg hf

theorem derives_negate {f : Formula Interned} {ls : List Lexeme}
    (h : Derives .negation ls (f.map Interned.atom)) (n : Nat) :
    Derives .negation (negationSigns n ++ ls) ((negate n f).map Interned.atom) := by
  induction n with
  | zero => exact h
  | succ n ih => exact .negation ih

theorem derives_conjunction {p : Pending} {f : Formula Interned} {cs ls : List Lexeme}
    (hc : LeftSpells .conj p.conjunct cs) (hf : Derives .negation ls (f.map Interned.atom)) :
    Derives .conjunction (cs ++ ls) ((p.conjunction f).map Interned.atom) :=
  derives_joinLeft hc hf

theorem derives_disjunction {p : Pending} {f : Formula Interned} {ps ls : List Lexeme}
    (hp : p.Spells ps) (hf : Derives .negation ls (f.map Interned.atom)) :
    Derives .disjunction (ps ++ ls) ((p.disjunction f).map Interned.atom) := by
  obtain ⟨ds, cs, hd, hc, rfl⟩ := hp
  rw [List.append_assoc]
  exact derives_joinLeft hd (derives_conjunction hc hf)

/-- Behind an operand and a connective, that connective ends what waits. -/
theorem spells_joined {p : Pending} {f : Formula Interned} {ps ls : List Lexeme}
    (hp : p.Spells ps) (hf : Derives .negation ls (f.map Interned.atom)) (op : Connective) :
    (p.joined f op).Spells (ps ++ ls ++ [.symbol op.symbol]) := by
  cases op with
  | conj =>
    obtain ⟨ds, cs, hd, hc, rfl⟩ := hp
    refine ⟨ds, cs ++ ls ++ [.symbol .conjunction], hd, ⟨_, derives_conjunction hc hf, rfl⟩, ?_⟩
    simp [Connective.symbol]
  | disj =>
    refine ⟨ps ++ ls ++ [.symbol .disjunction], [], ⟨_, derives_disjunction hp hf, rfl⟩, rfl, ?_⟩
    simp [Connective.symbol]

end Pending

/-! ## States -/

namespace Parser

open Pending (negationSigns)
open SyntaxError (Cause)

/-- The lexemes of all pairs of parentheses that are open around the innermost one, with their
opening parentheses. -/
def OuterSpells : List Pending → List Lexeme → Prop
  | [], ls => ls = []
  | p :: outer, ls =>
    ∃ os ps, OuterSpells outer os ∧ p.Spells ps ∧
      ls = os ++ ps ++ negationSigns p.negations ++ [.symbol .opening]

/-- The lexemes read before those that the mode remembers. -/
def Behind (p : Parser) (ls : List Lexeme) : Prop :=
  ∃ os ps, OuterSpells p.outer os ∧ p.pending.Spells ps ∧ ls = os ++ ps

/-- The lexemes that the mode remembers, negations before the operand included. -/
def ModeSpells (negations : Nat) : Mode → List Lexeme → Prop
  | .operand, ls => ls = negationSigns negations
  | .keyword, ls => ls = negationSigns negations ++ [.identifier "defined"]
  | .opened, ls => ls = negationSigns negations ++ [.identifier "defined", .symbol .opening]
  | .named name, ls =>
    ls = negationSigns negations ++
      [.identifier "defined", .symbol .opening, .identifier name]
  | .value f, ls => Derives .negation ls (f.map Interned.atom)

/-- The state is that after these lexemes. -/
def Spells (p : Parser) (ls : List Lexeme) : Prop :=
  ∃ bs ms, p.Behind bs ∧ ModeSpells p.pending.negations p.mode ms ∧ ls = bs ++ ms

theorem spells_start : start.Spells [] :=
  ⟨[], [], ⟨[], [], rfl, ⟨[], [], rfl, rfl, rfl⟩, rfl⟩, rfl, rfl⟩

/-- Behind a primary, its negations are part of the operand. -/
theorem spells_complete {p : Parser} {f : Formula Interned} {bs ls : List Lexeme}
    (hb : p.Behind bs) (hf : Derives .primary ls (f.map Interned.atom)) :
    (p.complete f).Spells (bs ++ (negationSigns p.pending.negations ++ ls)) :=
  ⟨bs, _, hb, Pending.derives_negate (.ofPrimary hf) _, rfl⟩

/-! ## One step -/

variable {p q : Parser} {cache cache' : Cache} {l : Lexeme} {bs ms : List Lexeme}

theorem spells_completeAtom {a : Atom} (hb : p.Behind bs)
    (hf : Derives .primary ms (.atom a)) :
    (p.completeAtom cache a).1.Spells (bs ++ (negationSigns p.pending.negations ++ ms)) :=
  spells_complete hb hf

theorem spells_stepOperand (hm : p.mode = .operand) (hb : p.Behind bs) (hw : l.WellFormed)
    (h : p.stepOperand cache l = .ok (q, cache')) :
    q.Spells (bs ++ (negationSigns p.pending.negations ++ [l])) := by
  unfold stepOperand at h
  split at h
  case h_1 => cases h; exact ⟨bs, _, hb, rfl, rfl⟩
  case h_2 => cases h; exact spells_complete hb .wordTrue
  case h_3 => cases h; exact spells_complete hb .wordFalse
  case h_4 name hd ht hf =>
    cases h
    refine spells_completeAtom hb (.bare ?_)
    simp only [reserved, List.mem_cons, List.not_mem_nil, or_false, not_or]
    exact ⟨hd, ht, hf⟩
  case h_5 numeral =>
    cases h
    obtain ⟨value, hv⟩ := hw
    refine spells_complete hb ?_
    rw [Numeral.isNonzero_of_denotes hv]
    exact .number hv
  case h_6 =>
    cases h
    rw [negationSigns, ← List.replicate_succ']
    exact ⟨bs, _, hb, by rw [hm]; rfl, rfl⟩
  case h_7 =>
    cases h
    obtain ⟨os, ps, ho, hp, rfl⟩ := hb
    refine ⟨_, [], ⟨_, [], ⟨os, ps, ho, hp, rfl⟩, ⟨[], [], rfl, rfl, rfl⟩, rfl⟩, rfl, ?_⟩
    simp
  case h_8 => cases h

theorem spells_stepKeyword (hb : p.Behind bs) (h : p.stepKeyword cache l = .ok (q, cache')) :
    q.Spells (bs ++ (negationSigns p.pending.negations ++ [.identifier "defined", l])) := by
  unfold stepKeyword at h
  split at h
  case h_1 => cases h; exact ⟨bs, _, hb, rfl, rfl⟩
  case h_2 => cases h; exact spells_completeAtom hb .defined
  case h_3 => cases h

theorem spells_stepOpened (hb : p.Behind bs) (h : p.stepOpened cache l = .ok (q, cache')) :
    q.Spells (bs ++ (negationSigns p.pending.negations ++
      [.identifier "defined", .symbol .opening, l])) := by
  unfold stepOpened at h
  split at h
  case h_1 => cases h; exact ⟨bs, _, hb, rfl, rfl⟩
  case h_2 => cases h

theorem spells_stepNamed {name : String} (hb : p.Behind bs)
    (h : p.stepNamed cache name l = .ok (q, cache')) :
    q.Spells (bs ++ (negationSigns p.pending.negations ++
      [.identifier "defined", .symbol .opening, .identifier name, l])) := by
  unfold stepNamed at h
  split at h
  case h_1 => cases h; exact spells_completeAtom hb .definedGroup
  case h_2 => cases h

theorem spells_stepValue {f : Formula Interned} (hb : p.Behind bs)
    (hf : Derives .negation ms (f.map Interned.atom))
    (h : p.stepValue cache f l = .ok (q, cache')) : q.Spells (bs ++ ms ++ [l]) := by
  obtain ⟨os, ps, ho, hp, rfl⟩ := hb
  unfold stepValue at h
  split at h
  case h_1 =>
    cases h
    exact ⟨_, [], ⟨os, _, ho, Pending.spells_joined hp hf .conj, rfl⟩, rfl,
      by simp [Connective.symbol]⟩
  case h_2 =>
    cases h
    exact ⟨_, [], ⟨os, _, ho, Pending.spells_joined hp hf .disj, rfl⟩, rfl,
      by simp [Connective.symbol]⟩
  case h_3 around outer hout =>
    cases h
    rw [hout] at ho
    obtain ⟨os, ps', ho, hp', rfl⟩ := ho
    -- The parenthesis that opened the group is the last one of those around it.
    have hg := Derives.group (Pending.derives_disjunction hp hf)
    have := spells_complete (p := ⟨around, outer, .operand⟩) ⟨os, ps', ho, hp', rfl⟩ hg
    simpa using this
  case h_4 => cases h

/-- One step adds the lexeme that it reads. -/
theorem spells_step {ls : List Lexeme} (hs : p.Spells ls) (hw : l.WellFormed)
    (h : p.step cache l = .ok (q, cache')) : q.Spells (ls ++ [l]) := by
  obtain ⟨bs, ms, hb, hm, rfl⟩ := hs
  unfold step at h
  split at h
  case h_1 hmode =>
    rw [hmode] at hm
    rw [List.append_assoc, hm]
    exact spells_stepOperand hmode hb hw h
  case h_2 hmode =>
    rw [hmode] at hm
    rw [List.append_assoc, hm]
    simpa using spells_stepKeyword hb h
  case h_3 hmode =>
    rw [hmode] at hm
    rw [List.append_assoc, hm]
    simpa using spells_stepOpened hb h
  case h_4 name hmode =>
    rw [hmode] at hm
    rw [List.append_assoc, hm]
    simpa using spells_stepNamed hb h
  case h_5 f hmode =>
    rw [hmode] at hm
    exact spells_stepValue hb hm h

/-! ## The end -/

/-- Where the text may end, what has been read is derived. -/
theorem derives_of_finish {f : Formula Interned} {ls : List Lexeme} (hs : p.Spells ls)
    (h : p.finish = .ok f) : Derives .disjunction ls (f.map Interned.atom) := by
  obtain ⟨bs, ms, ⟨os, ps, ho, hp, rfl⟩, hm, rfl⟩ := hs
  unfold finish at h
  split at h
  case h_6 g hmode hout =>
    cases h
    rw [hmode] at hm
    rw [hout] at ho
    rw [ho, List.nil_append]
    exact Pending.derives_disjunction hp hm
  all_goals cases h

/-- A condition that is read is derived from what is read. -/
theorem derives_of_run {text : String} {ts : List Token} {f : Formula Interned}
    {ls : List Lexeme} (hs : p.Spells ls) (hw : ∀ t ∈ ts, t.lexeme.WellFormed)
    (h : (p.run text cache ts).1 = .ok f) :
    Derives .disjunction (ls ++ ts.map Token.lexeme) (f.map Interned.atom) := by
  induction ts generalizing p cache ls with
  | nil =>
    rw [run] at h
    rw [List.map_nil, List.append_nil]
    cases hf : p.finish with
    | error cause =>
      rw [hf] at h
      cases h
    | ok g =>
      rw [hf] at h
      cases h
      exact derives_of_finish hs hf
  | cons t ts ih =>
    rw [run] at h
    rw [List.forall_mem_cons] at hw
    split at h
    case h_1 => cases h
    case h_2 q cache' hq =>
      have := ih (spells_step hs hw.1 hq) hw.2 h
      rwa [List.append_assoc] at this

end Parser

end Conditionals
