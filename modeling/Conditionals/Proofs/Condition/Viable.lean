/-
Conditionals.Proofs.Condition.Viable — a fault of syntax stands at the first
token that cannot be there.

* `Condition.Accepted` — the lists of lexemes, layout left out, of the texts
  that are conditions;
* `Condition.Viable` — the lists that go on to an accepted one;
* `Parser.exists_completion` — wherever the parser stands, a few lexemes
  complete the condition: an operand or what is missing of one, and then a
  closing parenthesis for each pair that is open;
* `Parser.fault_of_run` — a run ends with a fault at the first token that
  cannot be read, or behind the last one.

So whatever has been read is viable. What the parser refuses cannot go on
to an accepted list, since an accepted list is derived, and what is derived
is read. `Condition.fault_at_first_nonviable` is the main statement.
-/
import Conditionals.Proofs.Formula.Printing

namespace Conditionals

/-! ## Lexemes with spaces between them -/

namespace Lexeme

/-- The lexeme is spelled as its class demands and is no layout. -/
def Proper (l : Lexeme) : Prop :=
  l.WellFormed ∧ l.isLayout = false

/-- The lexemes with a space behind each. -/
def spaced (ls : List Lexeme) : List Lexeme :=
  ls.flatMap fun l => [l, .layout " "]

theorem spaced_cons (l : Lexeme) (ls : List Lexeme) :
    spaced (l :: ls) = l :: .layout " " :: spaced ls := rfl

/-- What is no layout does not begin like layout. -/
theorem Proper.head_spelling {l : Lexeme} (h : l.Proper) (rest : List Char) :
    (l.spelling.toList ++ rest).head?.any Conditionals.isLayout = false := by
  obtain ⟨hw, hl⟩ := h
  cases l with
  | identifier name =>
    obtain ⟨c, cs, hn, hc, -⟩ := isIdentifier_iff.1 hw
    rw [spelling, hn, List.cons_append, List.head?_cons, Option.any_some, ← Bool.not_eq_true]
    intro hc'
    rw [isWordStart_eq_false_of_isLayout hc'] at hc
    cases hc
  | number numeral =>
    obtain ⟨c, cs, hn, hc⟩ := Numeral.cons_of_denotes hw
    rw [spelling, hn, List.cons_append, List.head?_cons, Option.any_some, ← Bool.not_eq_true]
    intro hc'
    rw [isDigit_eq_false_of_isLayout hc'] at hc
    cases hc
  | symbol which => cases which <;> rfl
  | layout gap => cases hl

theorem Proper.endsBefore_space {l : Lexeme} (h : l.Proper) (rest : List Char) :
    l.EndsBefore (' ' :: rest) := by
  cases l with
  | identifier name => rfl
  | number numeral => rfl
  | symbol which => trivial
  | layout gap => cases h.2

theorem separated_spaced {ls : List Lexeme} (h : ∀ l ∈ ls, l.Proper) : Separated (spaced ls) := by
  induction ls with
  | nil => trivial
  | cons l ls ih =>
    rw [List.forall_mem_cons] at h
    have hhead : (spelled (spaced ls)).head?.any Conditionals.isLayout = false := by
      cases ls with
      | nil => rfl
      | cons m ms => exact (h.2 m List.mem_cons_self).head_spelling _
    rw [spaced_cons]
    exact ⟨h.1.1, h.1.endsBefore_space _, Formula.separated_space (ih h.2) hhead⟩

theorem significant_spaced {ls : List Lexeme} (h : ∀ l ∈ ls, l.Proper) :
    significant (spaced ls) = ls := by
  induction ls with
  | nil => rfl
  | cons l ls ih =>
    rw [List.forall_mem_cons] at h
    rw [spaced_cons, significant, List.filter_cons_of_pos (by rw [h.1.2]; rfl), ← significant,
      significant_layout, ih h.2]

end Lexeme

/-! ## Completing what has been read -/

namespace Parser

open SyntaxError (Cause)

variable {p q r : Parser} {c d e : Cache} {l : Lexeme} {ls ms bs : List Lexeme}

theorem Reaches.split (h : Reaches p c (ls ++ ms) r e) :
    ∃ q d, Reaches p c ls q d ∧ Reaches q d ms r e := by
  induction ls generalizing p c with
  | nil => exact ⟨p, c, .nil, h⟩
  | cons l ls ih =>
    cases h with
    | cons hs h =>
      obtain ⟨q, d, hq, hr⟩ := ih h
      exact ⟨q, d, .cons hs hq, hr⟩

/-- Behind an operand, closing the open parentheses completes the condition. -/
theorem exists_closing {f : Formula Interned} (p : Parser) (c : Cache) (h : p.mode = .value f) :
    ∃ ms q d g, (∀ m ∈ ms, m.Proper) ∧ Reaches p c ms q d ∧ q.finish = .ok g := by
  obtain ⟨pending, outer, mode⟩ := p
  induction outer generalizing pending mode f with
  | nil =>
    cases h
    exact ⟨[], _, c, pending.disjunction f, nofun, .nil, rfl⟩
  | cons around outer ih =>
    obtain ⟨ms, q, d, g, hp, hq, hg⟩ := ih around _ rfl
    exact ⟨.symbol .closing :: ms, q, d, g, List.forall_mem_cons.2 ⟨⟨trivial, rfl⟩, hp⟩,
      .cons (step_closing h rfl) hq, hg⟩

/-- In every mode, a few lexemes complete the operand. -/
theorem exists_operand (p : Parser) (c : Cache) :
    ∃ ms q d f, (∀ m ∈ ms, m.Proper) ∧ Reaches p c ms q d ∧ q.mode = .value f := by
  have hname : (Lexeme.identifier "A").Proper := ⟨(by decide : isIdentifier "A" = true), rfl⟩
  have hclosing : (Lexeme.symbol .closing).Proper := ⟨trivial, rfl⟩
  obtain ⟨pending, outer, mode⟩ := p
  cases mode with
  | operand => exact ⟨[.identifier "A"], _, _, _, by simpa using hname, .single rfl, rfl⟩
  | keyword => exact ⟨[.identifier "A"], _, _, _, by simpa using hname, .single rfl, rfl⟩
  | opened =>
    exact ⟨[.identifier "A", .symbol .closing], _, _, _, by simpa using ⟨hname, hclosing⟩,
      .cons rfl (.single rfl), rfl⟩
  | named name => exact ⟨[.symbol .closing], _, _, _, by simpa using hclosing, .single rfl, rfl⟩
  | value f => exact ⟨[], _, c, f, nofun, .nil, rfl⟩

/-- Whatever has been read, a few lexemes complete the condition. -/
theorem exists_completion (p : Parser) (c : Cache) :
    ∃ ms q d f, (∀ m ∈ ms, m.Proper) ∧ Reaches p c ms q d ∧ q.finish = .ok f := by
  obtain ⟨ms, q, d, f, hms, hq, hf⟩ := exists_operand p c
  obtain ⟨ns, r, e, g, hns, hr, hg⟩ := exists_closing q d hf
  exact ⟨ms ++ ns, r, e, g, List.forall_mem_append.2 ⟨hms, hns⟩, hq.append hr, hg⟩

/-! ## What is read and what is derived -/

theorem spells_of_reaches (h : Reaches p c ls q d) (hs : p.Spells bs)
    (hw : ∀ l ∈ ls, l.WellFormed) : q.Spells (bs ++ ls) := by
  induction h generalizing bs with
  | nil => rwa [List.append_nil]
  | @cons p q r c d e l ls hstep _ ih =>
    rw [List.forall_mem_cons] at hw
    have := ih (spells_step hs hw.1 hstep) hw.2
    rwa [List.append_assoc] at this

theorem derives_of_reaches {f : Formula Interned} (h : Reaches start c ls q d)
    (hf : q.finish = .ok f) (hw : ∀ l ∈ ls, l.WellFormed) :
    Derives .disjunction ls (f.map Interned.atom) :=
  derives_of_finish (spells_of_reaches h spells_start hw) hf

/-- What the parser refuses, no derivation goes on with. -/
theorem not_derives_of_step {cause : Cause} (h : Reaches start c ls p d)
    (hl : p.step d l = .error cause) (f : Condition) :
    ¬ Derives .disjunction (ls ++ l :: ms) f := by
  intro hd
  obtain ⟨q, e, g, hq, -, -⟩ := finish_of_derives hd c
  obtain ⟨p', d', hp, hrest⟩ := hq.split
  obtain ⟨rfl, rfl⟩ := h.unique hp
  cases hrest with
  | cons hs _ =>
    rw [hl] at hs
    cases hs

theorem not_derives_of_finish {cause : Cause} (h : Reaches start c ls p d)
    (hf : p.finish = .error cause) (f : Condition) : ¬ Derives .disjunction ls f := by
  intro hd
  obtain ⟨q, e, g, hq, hg, -⟩ := finish_of_derives hd c
  obtain ⟨rfl, rfl⟩ := h.unique hq
  rw [hf] at hg
  cases hg

/-- A run ends with a fault behind the last token, or at the first one that cannot be read. -/
theorem fault_of_run {text : String} {ts : List Token} {fault : SyntaxError}
    (h : (p.run text c ts).1 = .error fault) :
    (∃ q d cause, Reaches p c (ts.map Token.lexeme) q d ∧ q.finish = .error cause ∧
      fault = ⟨cause, text, none⟩) ∨
    ∃ before t after q d cause, ts = before ++ t :: after ∧
      Reaches p c (before.map Token.lexeme) q d ∧ q.step d t.lexeme = .error cause ∧
      fault = ⟨cause, text, some t.position⟩ := by
  induction ts generalizing p c with
  | nil =>
    rw [run] at h
    cases hf : p.finish with
    | ok f =>
      rw [hf] at h
      cases h
    | error cause =>
      rw [hf] at h
      cases h
      exact .inl ⟨p, c, cause, .nil, hf, rfl⟩
  | cons t ts ih =>
    rw [run] at h
    split at h
    case h_1 cause hs =>
      cases h
      exact .inr ⟨[], t, ts, p, c, cause, rfl, .nil, hs, rfl⟩
    case h_2 q d hs =>
      rcases ih h with ⟨r, e, cause, hr, hf, rfl⟩ |
        ⟨before, u, after, r, e, cause, rfl, hr, hu, rfl⟩
      · exact .inl ⟨r, e, cause, .cons hs hr, hf, rfl⟩
      · exact .inr ⟨t :: before, u, after, r, e, cause, rfl, .cons hs hr, hu, rfl⟩

end Parser

/-! ## Viable lists of lexemes -/

namespace Condition

/-- Some text is a condition and has these lexemes, layout left out. -/
def Accepted (ls : List Lexeme) : Prop :=
  ∃ text ts f, tokens text = .ok ts ∧ (Token.significant ts).map Token.lexeme = ls ∧
    parse text = .ok f

/-- The lexemes go on to an accepted list. -/
def Viable (ls : List Lexeme) : Prop :=
  ∃ ms, Accepted (ls ++ ms)

theorem proper_of_tokens {text : String} {ts : List Token} (h : tokens text = .ok ts) :
    ∀ l ∈ (Token.significant ts).map Token.lexeme, l.Proper := by
  intro l hl
  refine ⟨wellFormed_of_tokens h l hl, ?_⟩
  obtain ⟨t, ht, rfl⟩ := List.mem_map.1 hl
  simpa [Token.significant] using (List.mem_filter.1 ht).2

/-- The accepted lists are those that derive a condition and that a text can have. -/
theorem accepted_iff {ls : List Lexeme} :
    Accepted ls ↔ (∀ l ∈ ls, l.Proper) ∧ ∃ f, Derives .disjunction ls f := by
  constructor
  · rintro ⟨text, ts, f, ht, rfl, hf⟩
    obtain ⟨us, hu, hd⟩ := parse_eq_ok_iff_says.1 hf
    obtain rfl : us = ts := Except.ok.inj (hu.symm.trans ht)
    exact ⟨proper_of_tokens ht, f, hd⟩
  · rintro ⟨hp, f, hd⟩
    have ht : tokens (String.ofList (Lexeme.spelled (Lexeme.spaced ls))) =
        .ok (Token.placed 0 (Lexeme.spaced ls)) :=
      tokens_eq_ok_iff.2 ⟨_, Lexeme.separated_spaced hp, String.toList_ofList.symm, rfl⟩
    have hls : (Token.significant (Token.placed 0 (Lexeme.spaced ls))).map Token.lexeme = ls := by
      rw [Token.map_lexeme_significant, Token.map_lexeme_placed, Lexeme.significant_spaced hp]
    refine ⟨_, _, f, ht, hls, parse_eq_ok_iff_says.2 ⟨_, ht, ?_⟩⟩
    rw [hls]
    exact hd

theorem viable_of_reaches {ls : List Lexeme} {c d : Cache} {q : Parser}
    (h : Parser.Reaches .start c ls q d) (hp : ∀ l ∈ ls, l.Proper) : Viable ls := by
  obtain ⟨ms, r, e, f, hms, hr, hf⟩ := q.exists_completion d
  have hproper : ∀ l ∈ ls ++ ms, l.Proper := List.forall_mem_append.2 ⟨hp, hms⟩
  refine ⟨ms, accepted_iff.2 ⟨hproper, f.map Interned.atom, ?_⟩⟩
  exact Parser.derives_of_reaches (h.append hr) hf fun l hl => (hproper l hl).1

theorem not_viable_of_step {ls : List Lexeme} {l : Lexeme} {c d : Cache} {q : Parser}
    {cause : SyntaxError.Cause} (h : Parser.Reaches .start c ls q d)
    (hl : q.step d l = .error cause) : ¬ Viable (ls ++ [l]) := by
  rintro ⟨ms, hacc⟩
  obtain ⟨-, f, hd⟩ := accepted_iff.1 hacc
  rw [List.append_assoc] at hd
  exact Parser.not_derives_of_step h hl f hd

theorem not_accepted_of_finish {ls : List Lexeme} {c d : Cache} {q : Parser}
    {cause : SyntaxError.Cause} (h : Parser.Reaches .start c ls q d)
    (hf : q.finish = .error cause) : ¬ Accepted ls := by
  intro hacc
  obtain ⟨-, f, hd⟩ := accepted_iff.1 hacc
  exact Parser.not_derives_of_finish h hf f hd

/-! ## Where the fault stands -/

/-- If a text that is cut into tokens is no condition, the fault names the whole text. A fault with
a place stands at a token before which the tokens that are no layout go on to an accepted list, and
with which they do not; a fault without one means that all of them go on to an accepted list and
are none themselves. -/
theorem fault_at_first_nonviable {cache : Cache} {text : String} {ts : List Token}
    {fault : SyntaxError} (ht : tokens text = .ok ts)
    (h : (parseWith cache text).1 = .error fault) :
    fault.text = text ∧
    (∀ position, fault.position = some position →
      ∃ before t after, Token.significant ts = before ++ t :: after ∧ t.position = position ∧
        Viable (before.map Token.lexeme) ∧ ¬ Viable (before.map Token.lexeme ++ [t.lexeme])) ∧
    (fault.position = none →
      Viable ((Token.significant ts).map Token.lexeme) ∧
        ¬ Accepted ((Token.significant ts).map Token.lexeme)) := by
  have hproper := proper_of_tokens ht
  by_cases hne : Token.significant ts = []
  · -- There is nothing to run on: the fault says so in a cause of its own.
    rw [parseWith, ht] at h
    simp only [hne] at h
    cases h
    rw [hne]
    refine ⟨rfl, ?_, fun _ => ⟨viable_of_reaches (c := cache) .nil ?_, ?_⟩⟩
    · intro position hposition
      cases hposition
    · intro l hl
      cases hl
    · exact not_accepted_of_finish (c := cache) .nil rfl
  · rw [parseWith_of_tokens ht cache hne] at h
    rcases Parser.fault_of_run h with ⟨q, d, cause, hq, hf, rfl⟩ |
      ⟨before, t, after, q, d, cause, hts, hq, hs, rfl⟩
    · refine ⟨rfl, ?_, fun _ => ⟨viable_of_reaches hq hproper, not_accepted_of_finish hq hf⟩⟩
      intro position hposition
      cases hposition
    · refine ⟨rfl, ?_, ?_⟩
      · intro position hposition
        refine ⟨before, t, after, hts, Option.some.inj hposition, ?_, not_viable_of_step hq hs⟩
        refine viable_of_reaches hq fun l hl => hproper l ?_
        rw [hts, List.map_append]
        exact List.mem_append_left _ hl
      · intro hposition
        cases hposition

/-- Inside a group, a name behind a name: the fault stands at the second one. -/
theorem fault_at_first_nonviable_in_group :
    ∃ ts, tokens "!(A || defined(B C)) && D" = .ok ts ∧
      (parseWith .empty "!(A || defined(B C)) && D").1 =
        .error ⟨.unclosedDefined, "!(A || defined(B C)) && D", some 17⟩ ∧
      ∃ before t after, Token.significant ts = before ++ t :: after ∧ t.position = 17 ∧
        Viable (before.map Token.lexeme) ∧ ¬ Viable (before.map Token.lexeme ++ [t.lexeme]) := by
  have hp : (parseWith .empty "!(A || defined(B C)) && D").1 =
      .error ⟨.unclosedDefined, "!(A || defined(B C)) && D", some 17⟩ := by decide +kernel
  cases ht : tokens "!(A || defined(B C)) && D" with
  | error e =>
    have hne : (tokens "!(A || defined(B C)) && D").isOk = true := by decide +kernel
    rw [ht] at hne
    cases hne
  | ok ts => exact ⟨ts, rfl, hp, (fault_at_first_nonviable ht hp).2.1 17 rfl⟩

end Condition

end Conditionals
