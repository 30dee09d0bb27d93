/-
Conditionals.Proofs.Condition.Completeness — what is derived is read.

From a state in which a phrase may begin, the lexemes of the phrase lead
to a state that differs in nothing but the operand it has read
(`Parser.reaches_of_derives`). The induction is on the derivation; `Ready`
and `Past` say for each stratum what has to hold before and what holds
behind a phrase of it. A disjunction needs empty parentheses, a conjunction
no more than that no conjunction is under way, and a negation nothing at
all, since negations before it are counted and applied to it.

Reading is a function of the lexemes, so a list of lexemes derives at most
one condition (`Derives.unique`).
-/
import Conditionals.Condition.Parser
import Conditionals.Proofs.Condition.Grammar

namespace Conditionals

namespace Parser

/-! ## Runs -/

/-- Reading lexemes leads from one state to another one. -/
inductive Reaches : Parser → Cache → List Lexeme → Parser → Cache → Prop where
  | nil {p : Parser} {c : Cache} : Reaches p c [] p c
  | cons {p q r : Parser} {c d e : Cache} {l : Lexeme} {ls : List Lexeme} :
      p.step c l = .ok (q, d) → Reaches q d ls r e → Reaches p c (l :: ls) r e

variable {p q r : Parser} {c d e : Cache} {l : Lexeme} {ls ms : List Lexeme}

theorem Reaches.append (h : Reaches p c ls q d) (h' : Reaches q d ms r e) :
    Reaches p c (ls ++ ms) r e := by
  induction h with
  | nil => exact h'
  | cons hs _ ih => exact .cons hs (ih h')

theorem Reaches.single (h : p.step c l = .ok (q, d)) : Reaches p c [l] q d :=
  .cons h .nil

theorem Reaches.unique {q' : Parser} {d' : Cache} (h : Reaches p c ls q d)
    (h' : Reaches p c ls q' d') : q = q' ∧ d = d' := by
  induction h with
  | nil => cases h'; exact ⟨rfl, rfl⟩
  | cons hs _ ih =>
    cases h' with
    | cons hs' h' =>
      rw [hs] at hs'
      cases hs'
      exact ih h'

theorem run_of_reaches {text : String} {ts us : List Token}
    (h : Reaches p c (ts.map Token.lexeme) q d) :
    run text p c (ts ++ us) = run text q d us := by
  generalize hls : ts.map Token.lexeme = ls at h
  induction h generalizing ts with
  | nil =>
    rw [List.map_eq_nil_iff] at hls
    rw [hls, List.nil_append]
  | cons hs _ ih =>
    obtain ⟨t, ts, rfl, rfl, hts⟩ := List.map_eq_cons_iff.1 hls
    rw [List.cons_append, run, hs]
    exact ih hts

/-! ## Before and behind a phrase -/

/-- A phrase of the stratum may begin. -/
def Ready : Stratum → Parser → Prop
  | .disjunction, p => p.mode = .operand ∧ p.pending = .start
  | .conjunction, p => p.mode = .operand ∧ p.pending.conjunct = none ∧ p.pending.negations = 0
  | .negation, p => p.mode = .operand
  | .primary, p => p.mode = .operand

/-- Behind a phrase of the stratum that says `f`: how the state `q` follows from the state `p`
before it. -/
def Past : Stratum → Parser → Parser → Condition → Prop
  | .disjunction, p, q, f =>
    ∃ g, q.mode = .value g ∧ q.outer = p.outer ∧ (q.pending.disjunction g).map Interned.atom = f
  | .conjunction, p, q, f =>
    ∃ g, q.mode = .value g ∧ q.outer = p.outer ∧ q.pending.disjunct = p.pending.disjunct ∧
      (q.pending.conjunction g).map Interned.atom = f
  | .negation, p, q, f =>
    ∃ g, q.mode = .value (Pending.negate p.pending.negations g) ∧ q.outer = p.outer ∧
      q.pending.disjunct = p.pending.disjunct ∧ q.pending.conjunct = p.pending.conjunct ∧
      g.map Interned.atom = f
  | .primary, p, q, f =>
    ∃ g, q.mode = .value (Pending.negate p.pending.negations g) ∧ q.outer = p.outer ∧
      q.pending.disjunct = p.pending.disjunct ∧ q.pending.conjunct = p.pending.conjunct ∧
      g.map Interned.atom = f

theorem negate_neg (n : Nat) (f : Formula Interned) :
    Pending.negate n (.neg f) = Pending.negate (n + 1) f := by
  induction n with
  | zero => rfl
  | succ n ih => exact congrArg Formula.neg ih

theorem past_complete (p : Parser) (g : Formula Interned) :
    Past .primary p (p.complete g) (g.map Interned.atom) :=
  ⟨g, rfl, rfl, rfl, rfl, rfl⟩

/-! ## Steps of each mode -/

theorem step_operand (hm : p.mode = .operand) : p.step c l = p.stepOperand c l := by
  simp only [step, hm]

theorem step_keyword (hm : p.mode = .keyword) : p.step c l = p.stepKeyword c l := by
  simp only [step, hm]

theorem step_value {g : Formula Interned} (hm : p.mode = .value g) :
    p.step c l = p.stepValue c g l := by
  simp only [step, hm]

theorem step_connective {g : Formula Interned} (hm : p.mode = .value g) (op : Connective) :
    p.step c (.symbol op.symbol) = .ok (⟨p.pending.joined g op, p.outer, .operand⟩, c) := by
  rw [step_value hm]
  cases op <;> rfl

theorem step_closing {g : Formula Interned} {around : Pending} {outer : List Pending}
    (hm : p.mode = .value g) (ho : p.outer = around :: outer) :
    p.step c (.symbol .closing) =
      .ok (complete ⟨around, outer, .operand⟩ (p.pending.disjunction g), c) := by
  obtain ⟨pending, _, _⟩ := p
  cases hm
  cases ho
  rfl

theorem stepOperand_bare {name : String} (h : name ∉ reserved) :
    p.stepOperand c (.identifier name) = .ok (p.completeAtom c (.bare name)) := by
  simp only [reserved, List.mem_cons, List.not_mem_nil, or_false, not_or] at h
  unfold stepOperand
  split
  case h_1 heq => cases heq; exact absurd rfl h.1
  case h_2 heq => cases heq; exact absurd rfl h.2.1
  case h_3 heq => cases heq; exact absurd rfl h.2.2
  case h_4 heq => cases heq; rfl
  case h_8 hname _ _ _ => exact absurd rfl (hname name)
  all_goals rename_i heq; cases heq

/-! ## Phrases -/

theorem past_atom (c : Cache) (a : Atom)
    (h : ∀ c, Reaches p c ls (p.completeAtom c a).1 (p.completeAtom c a).2) :
    ∃ q d, Reaches p c ls q d ∧ Past .primary p q (.atom a) :=
  ⟨_, _, h c, past_complete p (.atom (c.intern a).1)⟩

theorem reaches_disjunction {f g : Condition}
    (hl : ∀ p c, Ready .disjunction p → ∃ q d, Reaches p c ls q d ∧ Past .disjunction p q f)
    (hr : ∀ p c, Ready .conjunction p → ∃ q d, Reaches p c ms q d ∧ Past .conjunction p q g)
    (p : Parser) (c : Cache) (hp : Ready .disjunction p) :
    ∃ q d, Reaches p c (ls ++ .symbol .disjunction :: ms) q d ∧
      Past .disjunction p q (.join .disj f g) := by
  obtain ⟨q, d, hq, x, hx, ho, hf⟩ := hl p c hp
  obtain ⟨r, e, hr, y, hy, ho', hd, hg⟩ :=
    hr ⟨q.pending.joined x .disj, q.outer, .operand⟩ d ⟨rfl, rfl, rfl⟩
  refine ⟨r, e, hq.append (.cons (step_connective hx .disj) hr), y, hy, ho'.trans ho, ?_⟩
  rw [Pending.disjunction, hd, ← hf, ← hg]
  rfl

theorem reaches_conjunction {f g : Condition}
    (hl : ∀ p c, Ready .conjunction p → ∃ q d, Reaches p c ls q d ∧ Past .conjunction p q f)
    (hr : ∀ p c, Ready .negation p → ∃ q d, Reaches p c ms q d ∧ Past .negation p q g)
    (p : Parser) (c : Cache) (hp : Ready .conjunction p) :
    ∃ q d, Reaches p c (ls ++ .symbol .conjunction :: ms) q d ∧
      Past .conjunction p q (.join .conj f g) := by
  obtain ⟨q, d, hq, x, hx, ho, hd, hf⟩ := hl p c hp
  obtain ⟨r, e, hr, y, hy, ho', hd', hc', hg⟩ :=
    hr ⟨q.pending.joined x .conj, q.outer, .operand⟩ d rfl
  refine ⟨r, e, hq.append (.cons (step_connective hx .conj) hr), y, hy, ho'.trans ho,
    hd'.trans hd, ?_⟩
  rw [Pending.conjunction, hc', ← hf, ← hg]
  rfl

theorem reaches_negation {f : Condition}
    (hl : ∀ p c, Ready .negation p → ∃ q d, Reaches p c ls q d ∧ Past .negation p q f)
    (p : Parser) (c : Cache) (hp : Ready .negation p) :
    ∃ q d, Reaches p c (.symbol .negation :: ls) q d ∧ Past .negation p q (.neg f) := by
  let p' : Parser := { p with pending := { p.pending with negations := p.pending.negations + 1 } }
  have hs : p.step c (.symbol .negation) = .ok (p', c) := by
    rw [step_operand hp]
    rfl
  obtain ⟨q, d, hq, x, hx, ho, hd, hc, hf⟩ := hl p' c hp
  refine ⟨q, d, .cons hs hq, .neg x, ?_, ho, hd, hc, congrArg Formula.neg hf⟩
  rw [negate_neg]
  exact hx

theorem reaches_group {f : Condition}
    (hl : ∀ p c, Ready .disjunction p → ∃ q d, Reaches p c ls q d ∧ Past .disjunction p q f)
    (p : Parser) (c : Cache) (hp : Ready .primary p) :
    ∃ q d, Reaches p c (.symbol .opening :: ls ++ [.symbol .closing]) q d ∧
      Past .primary p q f := by
  have hs : p.step c (.symbol .opening) = .ok (⟨.start, p.pending :: p.outer, .operand⟩, c) := by
    rw [step_operand hp]
    rfl
  obtain ⟨q, d, hq, x, hx, ho, hf⟩ := hl ⟨.start, p.pending :: p.outer, .operand⟩ c ⟨rfl, rfl⟩
  refine ⟨_, d, .cons hs (hq.append (.single (step_closing hx ho))), ?_⟩
  rw [← hf]
  exact ⟨_, rfl, rfl, rfl, rfl, rfl⟩

/-- What is derived is read. -/
theorem reaches_of_derives {s : Stratum} {f : Condition} (h : Derives s ls f) (p : Parser)
    (c : Cache) (hp : Ready s p) : ∃ q d, Reaches p c ls q d ∧ Past s p q f := by
  induction h generalizing p c with
  | disjunction _ _ ihl ihr => exact reaches_disjunction ihl ihr p c hp
  | ofConjunction _ ih =>
    obtain ⟨hm, hstart⟩ := hp
    have hn : p.pending.disjunct = none := by rw [hstart]; rfl
    obtain ⟨q, d, hq, x, hx, ho, hd, hf⟩ := ih p c ⟨hm, by rw [hstart]; exact ⟨rfl, rfl⟩⟩
    refine ⟨q, d, hq, x, hx, ho, ?_⟩
    rw [Pending.disjunction, hd, hn]
    exact hf
  | conjunction _ _ ihl ihr => exact reaches_conjunction ihl ihr p c hp
  | ofNegation _ ih =>
    obtain ⟨hm, hc, hn⟩ := hp
    obtain ⟨q, d, hq, x, hx, ho, hd, hc', hf⟩ := ih p c hm
    rw [hn] at hx
    refine ⟨q, d, hq, x, hx, ho, hd, ?_⟩
    rw [Pending.conjunction, hc', hc]
    exact hf
  | negation _ ih => exact reaches_negation ih p c hp
  | ofPrimary _ ih => exact ih p c hp
  | group _ ih => exact reaches_group ih p c hp
  | @number numeral value hv =>
    refine ⟨_, c, .single (step_operand hp), ?_⟩
    rw [← Numeral.isNonzero_of_denotes hv]
    exact past_complete p _
  | wordTrue => exact ⟨_, c, .single (step_operand hp), past_complete p (.const true)⟩
  | wordFalse => exact ⟨_, c, .single (step_operand hp), past_complete p (.const false)⟩
  | @defined name =>
    exact past_atom c (.defined name) fun c =>
      .cons (step_operand hp) (.single (step_keyword rfl))
  | @definedGroup name =>
    exact past_atom c (.defined name) fun c =>
      .cons (step_operand hp) (.cons (step_keyword rfl) (.cons rfl (.single rfl)))
  | @bare name hr =>
    exact past_atom c (.bare name) fun c =>
      .single ((step_operand hp).trans (stepOperand_bare hr))

/-- What is derived is read to its end from the start. -/
theorem finish_of_derives {f : Condition} (h : Derives .disjunction ls f) (c : Cache) :
    ∃ q d g, Reaches start c ls q d ∧ q.finish = .ok g ∧ g.map Interned.atom = f := by
  obtain ⟨q, d, hq, x, hx, ho, hf⟩ := reaches_of_derives h start c ⟨rfl, rfl⟩
  refine ⟨q, d, q.pending.disjunction x, hq, ?_, hf⟩
  rw [finish, hx, ho]
  rfl

end Parser

/-- A list of lexemes derives at most one condition. -/
theorem Derives.unique {ls : List Lexeme} {f g : Condition} (hf : Derives .disjunction ls f)
    (hg : Derives .disjunction ls g) : f = g := by
  obtain ⟨q, d, x, hq, hx, rfl⟩ := Parser.finish_of_derives hf .empty
  obtain ⟨q', d', y, hq', hy, rfl⟩ := Parser.finish_of_derives hg .empty
  obtain ⟨rfl, rfl⟩ := hq.unique hq'
  rw [hx] at hy
  cases hy
  rfl

end Conditionals
