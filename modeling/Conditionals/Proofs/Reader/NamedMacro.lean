/-
Conditionals.Proofs.Reader.NamedMacro — which macros an `#ifdef` line tests.

The payload of `#ifdef` and `#ifndef` is put between parentheses behind the
word that asks for a definition, and the text that results is read like any
other condition. Hence the payload can close the parenthesis itself, behind
a name, and go on as a condition does behind its first operand, up to the
parenthesis that was put behind it (`Directive.Escapes`).

* `Directive.nameTest?` — the condition that tests the macro a payload
  names;
* `Directive.exists_parse_nameTest_iff` — the payloads that are read: the
  identifiers, and those that escape;
* `Directive.parse_nameTest_iff` — a payload that does not escape is read as
  the test of the macro it names, and not at all if it names none.

`LineSource.named_macro_of_not_escapes` says the same of the lines of a file
and of its blocks.
-/
import Conditionals.Proofs.Directive
import Conditionals.Proofs.Condition.FirstOperand
import Conditionals.Proofs.Condition.Layout
import Conditionals.Proofs.Reader.Outcome
import Conditionals.Proofs.Reader.RoundTrip

namespace Conditionals

/-! ## Lexemes and characters -/

namespace Lexeme

open Derives (testOpening)

variable {ls : List Lexeme} {cs : List Char}

theorem front?_defined (cs : List Char) :
    front? ("defined".toList ++ '(' :: cs) = some (identifier "defined", '(' :: cs) :=
  front?_identifier (by decide : isIdentifier "defined" = true) rfl

/-- Lexemes that are spelled as the opening of a test and more are this opening and more. -/
theorem Separated.of_testOpening {n : Nat} (h : Separated ls)
    (hls : spelled ls = spelled (testOpening n) ++ cs) :
    ∃ ms, ls = testOpening n ++ ms ∧ Separated ms ∧ spelled ms = cs := by
  induction n generalizing ls with
  | zero =>
    obtain ⟨ns, rfl, hns, hspelled⟩ := h.of_front (by rw [hls]; exact front?_defined cs)
    obtain ⟨ms, rfl, hms, hspelled⟩ :=
      @Separated.of_front ns (.symbol .opening) cs hns (by rw [hspelled]; rfl)
    exact ⟨ms, rfl, hms, hspelled⟩
  | succ n ih =>
    obtain ⟨ns, rfl, hns, hspelled⟩ :=
      @Separated.of_front ls (.symbol .negation) (spelled (testOpening n) ++ cs) h
        (by rw [hls]; rfl)
    obtain ⟨ms, rfl, hms, hspelled⟩ := ih hns hspelled
    exact ⟨ms, rfl, hms, hspelled⟩

theorem Separated.testOpening_append (h : Separated ls) (n : Nat) :
    Separated (testOpening n ++ ls) := by
  induction n with
  | zero => exact ⟨(by decide : isIdentifier "defined" = true), rfl, trivial, trivial, h⟩
  | succ n ih => exact ⟨trivial, trivial, ih⟩

theorem significant_testOpening_append (n : Nat) :
    significant (testOpening n ++ ls) = testOpening n ++ significant ls := by
  induction n with
  | zero => rfl
  | succ n ih => exact congrArg (.symbol .negation :: ·) ih

/-- The characters of layout lexemes are those of layout. -/
theorem isLayout_of_mem_spelled (hw : ∀ l ∈ ls, l.WellFormed)
    (hl : ∀ l ∈ ls, ¬ (!l.isLayout) = true) : ∀ c ∈ spelled ls, Conditionals.isLayout c = true := by
  intro c hc
  obtain ⟨l, hmem, hc⟩ := List.mem_flatMap.1 hc
  cases l with
  | layout gap => exact (hw _ hmem).2 c hc
  | _ => exact absurd rfl (hl _ hmem)

/-- A name, layout and a closing parenthesis may stand in front of separated lexemes. -/
theorem Separated.name_closing {name gap : String} (h : Separated ls)
    (hname : isIdentifier name = true) (hgap : ∀ c ∈ gap.toList, Conditionals.isLayout c = true) :
    Separated (.identifier name :: (gapLexemes gap ++ .symbol .closing :: ls)) := by
  refine ⟨hname, ?_, separated_gapLexemes hgap rfl ⟨trivial, trivial, h⟩⟩
  rw [EndsBefore, spelled_append, spelled_gapLexemes]
  cases hg : gap.toList with
  | nil => rfl
  | cons c cs => exact isWord_eq_false_of_isLayout (hgap c (by rw [hg]; exact List.mem_cons_self))

theorem significant_name_closing (name gap : String) :
    significant (.identifier name :: (gapLexemes gap ++ .symbol .closing :: ls)) =
      .identifier name :: .symbol .closing :: significant ls := by
  unfold gapLexemes
  split <;> rfl

end Lexeme

/-! ## Payloads -/

namespace Directive

open Derives (GoesOn testOpening whole_definedGroupLexemes)
open Lexeme (Separated spelled significant gapLexemes)
open Text (Trimmed)

variable {d : Directive} {payload : String} {f c : Condition}

/-- The condition that tests the macro which the payload of `#ifdef` or `#ifndef` names. -/
def nameTest? (payload : String) : Directive → Option Condition
  | ifDefined => some (.atom (.defined payload))
  | ifNotDefined => some (.neg (.atom (.defined payload)))
  | ifTrue => none
  | elseIf => none
  | otherwise => none
  | endIf => none

/-- The payload closes, behind a name, the parenthesis put in front of it, and what follows that
goes on a condition up to the parenthesis put behind it. -/
def Escapes (payload : String) : Prop :=
  ∃ (name : String) (gap rest : List Char) (ls : List Lexeme), isIdentifier name = true ∧
    (∀ c ∈ gap, isLayout c = true) ∧ payload.toList = name.toList ++ gap ++ ')' :: rest ∧
    Separated ls ∧ spelled ls = rest ++ [')'] ∧ GoesOn (significant ls)

theorem Escapes.isIdentifier_eq_false (h : Escapes payload) : isIdentifier payload = false := by
  obtain ⟨name, gap, rest, -, -, -, hpayload, -, -, -⟩ := h
  rw [← Bool.not_eq_true]
  intro hidentifier
  obtain ⟨c, cs, hcs, hc, hword⟩ := Lexeme.isIdentifier_iff.1 hidentifier
  have hall : ∀ d ∈ payload.toList, isWord d = true := by
    rw [hcs]
    exact List.forall_mem_cons.2 ⟨isWord_of_isWordStart hc, hword⟩
  have hclosing := hall ')' (by rw [hpayload]; simp)
  cases hclosing

theorem nameTest?_cases (h : d.nameTest? payload = some f) :
    (d = ifDefined ∧ f = .atom (.defined payload)) ∨
      (d = ifNotDefined ∧ f = .neg (.atom (.defined payload))) := by
  cases d with
  | ifDefined => cases h; exact .inl ⟨rfl, rfl⟩
  | ifNotDefined => cases h; exact .inr ⟨rfl, rfl⟩
  | ifTrue => cases h
  | elseIf => cases h
  | otherwise => cases h
  | endIf => cases h

theorem toList_render_defined (name : String) :
    (Formula.atom (Atom.defined name)).render.toList = "defined(".toList ++ (name.toList ++ [')']) := by
  simp [Formula.render, Atom.render]

theorem toList_render_not_defined (name : String) :
    (Formula.neg (.atom (Atom.defined name))).render.toList =
      "!defined(".toList ++ (name.toList ++ [')']) := by
  simp [Formula.render, Formula.group, Formula.level, Formula.atomLevel, Formula.negLevel,
    Atom.render]

/-- What is read for such a directive is the written form of its test. -/
theorem conditionText?_of_nameTest? (h : d.nameTest? payload = some f) :
    d.conditionText? payload = some f.render := by
  rcases nameTest?_cases h with ⟨rfl, rfl⟩ | ⟨rfl, rfl⟩
  · rfl
  · refine congrArg some (String.toList_inj.1 ?_)
    rw [toList_render_not_defined]
    simp

/-- The characters of a test: its opening, and the payload with a closing parenthesis. -/
theorem toList_render_nameTest (h : d.nameTest? payload = some f) :
    ∃ n, f.render.toList = spelled (testOpening n) ++ (payload.toList ++ [')']) := by
  rcases nameTest?_cases h with ⟨-, rfl⟩ | ⟨-, rfl⟩
  · exact ⟨0, toList_render_defined payload⟩
  · exact ⟨1, toList_render_not_defined payload⟩

/-- A test is read as what its opening and the lexemes of the payload and the parenthesis behind it
derive. -/
theorem exists_parse_iff_derives (hf : d.nameTest? payload = some f) :
    ∃ n, ∀ c, Condition.parse f.render = .ok c ↔
      ∃ ls, Separated ls ∧ spelled ls = payload.toList ++ [')'] ∧
        Derives .disjunction (testOpening n ++ significant ls) c := by
  obtain ⟨n, hrender⟩ := toList_render_nameTest hf
  refine ⟨n, fun c => ?_⟩
  rw [Condition.parse_eq_ok_iff_spelled, hrender]
  constructor
  · rintro ⟨_, hs, hspelled, hd⟩
    obtain ⟨ls, rfl, hls, hspelled⟩ := hs.of_testOpening hspelled
    rw [Lexeme.significant_testOpening_append] at hd
    exact ⟨ls, hls, hspelled, hd⟩
  · rintro ⟨ls, hls, hspelled, hd⟩
    refine ⟨testOpening n ++ ls, hls.testOpening_append n, ?_, ?_⟩
    · rw [Lexeme.spelled_append, hspelled]
    · rwa [Lexeme.significant_testOpening_append]

/-- Whether a test of a name goes on does not depend on the name. -/
theorem exists_derives_iff_goesOn (n : Nat) (name : String) (ls : List Lexeme) :
    (∃ c, Derives .disjunction
      (testOpening n ++ .identifier name :: .symbol .closing :: ls) c) ↔ GoesOn ls := by
  rw [← (whole_definedGroupLexemes name).exists_iff_goesOn n, testOpening, List.append_assoc]
  rfl

/-- A trimmed payload with a parenthesis behind it that is cut into a name, layout and a closing
parenthesis: that parenthesis is the one behind the payload, or one of its own. -/
theorem eq_or_exists_of_append {name : String} {front gap tail : List Char}
    (ht : Trimmed payload.toList) (hfront : ∀ c ∈ front, isLayout c = true)
    (hgap : ∀ c ∈ gap, isLayout c = true)
    (h : payload.toList ++ [')'] = front ++ (name.toList ++ (gap ++ ')' :: tail))) :
    payload = name ∨
      ∃ rest, payload.toList = name.toList ++ gap ++ ')' :: rest ∧ tail = rest ++ [')'] := by
  have hnil : front = [] := by
    rcases front with _ | ⟨c, front⟩
    · rfl
    · have hc := hfront c List.mem_cons_self
      have hhead := ht.head
      cases hp : payload.toList with
      | nil =>
        rw [hp, List.nil_append, List.cons_append, List.cons.injEq] at h
        rw [← h.1] at hc
        cases hc
      | cons c' cs =>
        rw [hp, List.cons_append, List.cons_append, List.cons.injEq] at h
        rw [hp, h.1, List.head?_cons, Option.any_some, Text.isBlank_of_isLayout hc] at hhead
        cases hhead
  rw [hnil, List.nil_append] at h
  rcases List.eq_nil_or_concat' tail with rfl | ⟨tail, c, rfl⟩
  · rw [← List.append_assoc] at h
    have hpayload := List.append_cancel_right h
    rcases List.eq_nil_or_concat' gap with rfl | ⟨gap, c, rfl⟩
    · rw [List.append_nil] at hpayload
      exact .inl (String.toList_inj.1 hpayload)
    · have hlast := ht.last
      rw [hpayload, ← List.append_assoc, List.getLast?_concat, Option.any_some,
        Text.isBlank_of_isLayout (hgap c (by simp))] at hlast
      cases hlast
  · have hconcat : payload.toList ++ [')'] = (name.toList ++ gap ++ ')' :: tail) ++ [c] := by
      rw [h]
      simp
    obtain ⟨hpayload, hlast⟩ := List.append_inj' hconcat rfl
    exact .inr ⟨tail, hpayload, by rw [hlast]⟩

/-- If a test is read, its payload begins with a name, the first macro that is tested; and the
payload ends there, or escapes. -/
theorem exists_name_of_parse (ht : Trimmed payload.toList) (hf : d.nameTest? payload = some f)
    (h : Condition.parse f.render = .ok c) :
    ∃ name, isIdentifier name = true ∧ name.toList <+: payload.toList ∧
      c.atoms.head? = some (.defined name) ∧ (payload = name ∨ Escapes payload) := by
  obtain ⟨n, hparse⟩ := exists_parse_iff_derives hf
  obtain ⟨ls, hs, hspelled, hd⟩ := (hparse c).1 h
  obtain ⟨name, lexemes, hsig, hhead⟩ := hd.exists_name_of_testOpening rfl
  have hgoesOn : GoesOn lexemes := (exists_derives_iff_goesOn n name lexemes).1 ⟨c, hsig ▸ hd⟩
  -- With the layout put back: layout, the name, layout, the parenthesis, and the lexemes behind it.
  obtain ⟨front, ms, rfl, hfront, -, hsig⟩ := List.filter_eq_cons_iff.1 hsig
  obtain ⟨gap, tail, rfl, hgap, -, rfl⟩ := List.filter_eq_cons_iff.1 hsig
  have hw := hs.wellFormed
  simp only [List.forall_mem_append, List.forall_mem_cons] at hw
  obtain ⟨hwfront, hname, hwgap, -, -⟩ := hw
  have htail : Separated (.symbol .closing :: tail) := hs.of_append.2.2.of_append
  rw [Lexeme.spelled_append, Lexeme.spelled_cons, Lexeme.spelled_append,
    Lexeme.spelled_cons] at hspelled
  have hgap := Lexeme.isLayout_of_mem_spelled hwgap hgap
  rcases eq_or_exists_of_append ht (Lexeme.isLayout_of_mem_spelled hwfront hfront) hgap
    hspelled.symm with rfl | ⟨rest, hpayload, hrest⟩
  · exact ⟨payload, hname, List.prefix_rfl, hhead, .inl rfl⟩
  · refine ⟨name, hname, ?_, hhead,
      .inr ⟨name, spelled gap, rest, tail, hname, hgap, hpayload, htail.2.2, hrest, hgoesOn⟩⟩
    rw [hpayload, List.append_assoc]
    exact List.prefix_append _ _

/-- A payload that escapes is read. -/
theorem exists_parse_of_escapes (hf : d.nameTest? payload = some f) (h : Escapes payload) :
    ∃ c, Condition.parse f.render = .ok c := by
  obtain ⟨name, gap, rest, ls, hname, hgap, hpayload, hs, hspelled, hgoesOn⟩ := h
  obtain ⟨n, hparse⟩ := exists_parse_iff_derives hf
  obtain ⟨c, hc⟩ := (exists_derives_iff_goesOn n name _).2 hgoesOn
  refine ⟨c, (hparse c).2
    ⟨.identifier name :: (gapLexemes (String.ofList gap) ++ .symbol .closing :: ls), ?_, ?_, ?_⟩⟩
  · exact hs.name_closing hname (by rwa [String.toList_ofList])
  · rw [Lexeme.spelled_cons, Lexeme.spelled_append, Lexeme.spelled_gapLexemes,
      Lexeme.spelled_cons, hspelled, String.toList_ofList, hpayload]
    simp [Lexeme.spelling, Symbol.spelling]
  · rwa [Lexeme.significant_name_closing]

/-- A test of an identifier is read as itself. -/
theorem parse_of_isIdentifier (hf : d.nameTest? payload = some f)
    (hp : isIdentifier payload = true) : Condition.parse f.render = .ok f := by
  refine Condition.Named.parse_render fun a ha => ?_
  rcases nameTest?_cases hf with ⟨-, rfl⟩ | ⟨-, rfl⟩
  · rw [List.mem_singleton.1 ha]
    exact hp
  · rw [List.mem_singleton.1 ha]
    exact hp

/-- A payload that does not escape is read as the test of the macro it names, if it names one, and
not at all otherwise. -/
theorem parse_nameTest_iff (ht : Trimmed payload.toList) (he : ¬ Escapes payload)
    (hf : d.nameTest? payload = some f) :
    Condition.parse f.render = .ok c ↔ isIdentifier payload = true ∧ c = f := by
  constructor
  · intro h
    obtain ⟨name, hname, -, -, rfl | hescapes⟩ := exists_name_of_parse ht hf h
    · have hself := parse_of_isIdentifier hf hname
      rw [h] at hself
      exact ⟨hname, Except.ok.inj hself⟩
    · exact absurd hescapes he
  · rintro ⟨hp, rfl⟩
    exact parse_of_isIdentifier hf hp

/-- The payloads for which a test is read are the identifiers, and those that escape. -/
theorem exists_parse_nameTest_iff (ht : Trimmed payload.toList)
    (hf : d.nameTest? payload = some f) :
    (∃ c, Condition.parse f.render = .ok c) ↔ isIdentifier payload = true ∨ Escapes payload := by
  constructor
  · rintro ⟨c, h⟩
    obtain ⟨name, hname, -, -, rfl | hescapes⟩ := exists_name_of_parse ht hf h
    · exact .inl hname
    · exact .inr hescapes
  · rintro (hp | hescapes)
    · exact ⟨f, parse_of_isIdentifier hf hp⟩
    · exact exists_parse_of_escapes hf hescapes

end Directive

/-! ## Lines and blocks -/

/-- The line at an index of a file has a directive with a payload. -/
def DirectiveAt (lines : List String) (index : Nat) (d : Directive) (payload : String) : Prop :=
  lines[index]?.bind Directive.classify = some (d, payload)

/-- The directive on the line of an opening event. -/
theorem Event.exists_directive_of_opening {lines : List String} {line : Int} {c : Condition}
    (h : .opening line c ∈ ofLines lines) :
    ∃ (index : Nat) (d : Directive) (payload t : String), line = index + 1 ∧
      DirectiveAt lines index d payload ∧ d.conditionText? payload = some t ∧
      Condition.parse t = .ok c := by
  obtain ⟨⟨text, number⟩, hmem, hline⟩ := List.mem_filterMap.1 h
  obtain ⟨hle, htext⟩ := List.mem_zipIdx_iff_le_and_getElem?_sub.1 hmem
  obtain ⟨d, payload, hc, hd⟩ := classify_of_ofLine hline
  rcases ofDirective_cases hd with ⟨-, heq⟩ | ⟨t, c, ht, hparse, heq⟩
  · cases heq
  · cases heq
    refine ⟨number - 1, d, payload, t, ?_, ?_, ht, hparse⟩
    · omega
    · rw [DirectiveAt, htext, Option.bind_some, hc]

namespace LineSource

open Directive (Escapes)

variable {source : LineSource} {path : Option String} {index : Nat} {d : Directive}
  {payload : String} {f : Condition}

theorem parse_of_mem_walkAll {forest : List Block} {b : Block}
    (h : (source.readBlocks path).result = .ok forest) (hb : b ∈ Block.walkAll forest)
    (hline : b.startLine = index + 1) (hd : DirectiveAt source.lines index d payload)
    (hf : d.nameTest? payload = some f) : Condition.parse f.render = .ok b.condition := by
  obtain ⟨-, hlisting, -⟩ := listing_of_read h
  have hmem : .opening b.startLine b.condition ∈ Event.ofLines source.lines := by
    rw [← hlisting]
    exact Block.opening_mem_listingAll hb
  obtain ⟨index', d', payload', t, hline', hd', ht, hparse⟩ :=
    Event.exists_directive_of_opening hmem
  obtain rfl : index = index' := by omega
  cases hd.symm.trans hd'
  cases (Directive.conditionText?_of_nameTest? hf).symm.trans ht
  exact hparse

/-- The first line that cannot be read is an opening line whose condition is none. -/
theorem result_of_malformed {t : String} {cause : SyntaxError}
    (hd : DirectiveAt source.lines index d payload) (ht : d.conditionText? payload = some t)
    (hp : Condition.parse t = .error cause)
    (hleast : ∀ i < index, ∀ e, ¬ OffenceAt source.lines i e) :
    (source.readBlocks path).result = .error (.malformed cause (index + 1)) := by
  obtain ⟨text, htext, hc⟩ := Option.bind_eq_some_iff.1 hd
  obtain ⟨hlt, -⟩ := List.getElem?_eq_some_iff.1 htext
  have hlength : (source.lines.take index).length = index := List.length_take_of_le hlt.le
  have hoffence : Offence (source.lines.take index) text (.malformed cause (index + 1)) := by
    have h : Offence (source.lines.take index) text _ := .malformed hc ht hp
    rwa [hlength] at h
  exact result_of_firstOffence ⟨⟨text, htext, hoffence⟩, hleast⟩ path

/-- A file is not read if the text behind one of its directives is no condition. -/
theorem result_ne_ok_of_parse_error {t : String} {cause : SyntaxError}
    (hd : DirectiveAt source.lines index d payload) (ht : d.conditionText? payload = some t)
    (hp : Condition.parse t = .error cause) (forest : List Block) :
    (source.readBlocks path).result ≠ .ok forest := by
  intro h
  obtain ⟨hb, -, -⟩ := listing_of_read h
  obtain ⟨text, htext, hc⟩ := Option.bind_eq_some_iff.1 hd
  obtain ⟨-, -, hcondition⟩ := hb.readable text (List.mem_of_getElem? htext) d payload hc
  obtain ⟨c, hok⟩ := hcondition t ht
  rw [hp] at hok
  cases hok

/-- A line `#ifdef` or `#ifndef` names a macro in front, and the condition of its block tests that
macro first. If the payload does not escape, the condition is the test of the macro and nothing
else; and a payload that is no identifier is rejected as malformed, on its line, if the lines before
can be read. The payloads that escape are no identifiers, and their tests are read all the same. -/
theorem named_macro_of_not_escapes (source : LineSource) (path : Option String) :
    (∀ forest, (source.readBlocks path).result = .ok forest →
      ∀ b ∈ Block.walkAll forest, ∀ (index : Nat) (d : Directive) (payload : String)
          (f : Condition), b.startLine = index + 1 → DirectiveAt source.lines index d payload →
        d.nameTest? payload = some f →
        (∃ name, isIdentifier name = true ∧ name.toList <+: payload.toList ∧
          b.condition.atoms.head? = some (.defined name)) ∧
        (¬ Escapes payload → isIdentifier payload = true ∧ b.condition = f)) ∧
    (∀ (index : Nat) (d : Directive) (payload : String) (f : Condition),
      DirectiveAt source.lines index d payload → d.nameTest? payload = some f →
      isIdentifier payload = false → ¬ Escapes payload →
      (∀ forest, (source.readBlocks path).result ≠ .ok forest) ∧
      ((∀ i < index, ∀ e, ¬ OffenceAt source.lines i e) →
        ∃ cause, (source.readBlocks path).result = .error (.malformed cause (index + 1)))) ∧
    ∀ (index : Nat) (d : Directive) (payload : String) (f : Condition),
      DirectiveAt source.lines index d payload → d.nameTest? payload = some f →
      (Escapes payload → isIdentifier payload = false) ∧
      ((∃ c, Condition.parse f.render = .ok c) ↔ isIdentifier payload = true ∨ Escapes payload) := by
  have htrimmed : ∀ {index d payload}, DirectiveAt source.lines index d payload →
      Text.Trimmed payload.toList := by
    intro index d payload hd
    obtain ⟨text, -, hc⟩ := Option.bind_eq_some_iff.1 hd
    exact Directive.trimmed_payload hc
  refine ⟨?_, ?_, ?_⟩
  · intro forest h b hb index d payload f hline hd hf
    have hparse := parse_of_mem_walkAll h hb hline hd hf
    obtain ⟨name, hname, hprefix, hhead, -⟩ :=
      Directive.exists_name_of_parse (htrimmed hd) hf hparse
    refine ⟨⟨name, hname, hprefix, hhead⟩, ?_⟩
    intro he
    exact (Directive.parse_nameTest_iff (htrimmed hd) he hf).1 hparse
  · intro index d payload f hd hf hp he
    have ht := Directive.conditionText?_of_nameTest? hf
    cases hparse : Condition.parse f.render with
    | ok c =>
      obtain ⟨hidentifier, -⟩ := (Directive.parse_nameTest_iff (htrimmed hd) he hf).1 hparse
      rw [hp] at hidentifier
      cases hidentifier
    | error cause =>
      refine ⟨result_ne_ok_of_parse_error hd ht hparse, ?_⟩
      intro hleast
      exact ⟨cause, result_of_malformed hd ht hparse hleast⟩
  · intro index d payload f hd hf
    exact ⟨fun he => he.isIdentifier_eq_false,
      Directive.exists_parse_nameTest_iff (htrimmed hd) hf⟩

/-- A payload that escapes: its line tests two macros. -/
theorem two_macros_of_escapes :
    Directive.classify "#ifdef A) || defined(B" = some (.ifDefined, "A) || defined(B") ∧
      isIdentifier "A) || defined(B" = false ∧ Escapes "A) || defined(B" ∧
      ((ofLines none ["#ifdef A) || defined(B", "#endif"]).readBlocks none).result.map
          (List.map Block.condition) =
        .ok [.join .disj (.atom (.defined "A")) (.atom (.defined "B"))] := by
  have hescapes : Escapes "A) || defined(B" := by
    refine ⟨"A", [], " || defined(B".toList, [.layout " ", .symbol .disjunction, .layout " ",
      .identifier "defined", .symbol .opening, .identifier "B", .symbol .closing], by decide,
      List.forall_mem_nil _, by decide, ?_, by decide, ?_⟩
    · have hname : ∀ name, isIdentifier name = true → (Lexeme.identifier name).WellFormed :=
        fun _ h => h
      have hgap : (Lexeme.layout " ").WellFormed := ⟨by decide, List.all_eq_true.1 (by decide)⟩
      exact ⟨hgap, rfl, trivial, trivial, hgap, rfl, hname _ (by decide), rfl, trivial, trivial,
        hname _ (by decide), rfl, trivial, trivial, trivial⟩
    · exact ⟨_, .disjunction (.ofConjunction (.ofNegation (.ofPrimary .wordTrue)))
        (.ofNegation (.ofPrimary .definedGroup))⟩
  refine ⟨by decide +kernel, by decide +kernel, hescapes, by decide +kernel⟩

end LineSource

end Conditionals
