/-
Conditionals.Proofs.Condition.Recognition — reading a condition is
deriving it.

`parse_eq_ok_iff_derives` is the main statement: a text is read as a
condition just if it is cut into tokens without rest and these, layout
left out, derive that condition. No list of lexemes derives two
conditions, and a text that derives none is refused.

`Condition.exists_parseWith_iff` says the same of reading with a cache that
holds atoms already; so whether a text is a condition, and which one, does
not depend on the cache (`Condition.exists_parseWith_iff_parse`).

`Condition.parse_number` is about the conditions that are a single numeral:
they are the constants, and the integer that is denoted says which one.
-/
import Conditionals.Proofs.Condition.Soundness
import Conditionals.Proofs.Condition.Completeness

namespace Conditionals

namespace Condition

open Lexeme (Separated spelled)

/-! ## Tokens -/

theorem tokens_eq_ok_iff {text : String} {ts : List Token} :
    tokens text = .ok ts ↔
      ∃ ls, Separated ls ∧ spelled ls = text.toList ∧ ts = Token.placed 0 ls := by
  unfold tokens Token.scan
  constructor
  · intro h
    dsimp only at h
    split at h
    case isTrue hrest =>
      cases h
      exact Token.separated_of_scan (List.isEmpty_iff.1 hrest)
    case isFalse => cases h
  · rintro ⟨ls, hs, htext, rfl⟩
    rw [← htext, Token.scanFrom_spelled hs]
    rfl

theorem wellFormed_of_tokens {text : String} {ts : List Token} (h : tokens text = .ok ts) :
    ∀ l ∈ (Token.significant ts).map Token.lexeme, l.WellFormed := by
  obtain ⟨ls, hs, -, rfl⟩ := tokens_eq_ok_iff.1 h
  intro l hl
  obtain ⟨t, ht, rfl⟩ := List.mem_map.1 hl
  refine hs.wellFormed _ ?_
  rw [← Token.map_lexeme_placed 0 ls]
  exact List.mem_map_of_mem (List.mem_filter.1 ht).1

/-! ## Conditions -/

/-- The tokens of a text are there and derive a condition. -/
def Says (text : String) (f : Condition) : Prop :=
  ∃ ts, tokens text = .ok ts ∧
    Derives .disjunction ((Token.significant ts).map Token.lexeme) f

theorem parseWith_of_tokens {text : String} {ts : List Token} (h : tokens text = .ok ts)
    (cache : Cache) (hne : Token.significant ts ≠ []) :
    parseWith cache text = Parser.start.run text cache (Token.significant ts) := by
  unfold parseWith
  rw [h]
  dsimp only
  split
  case h_1 hnil => exact absurd hnil hne
  case h_2 t us hts => rw [hts]

theorem says_of_parseWith {cache : Cache} {text : String} {g : Formula Interned}
    (h : (parseWith cache text).1 = .ok g) : Says text (g.map Interned.atom) := by
  cases ht : tokens text with
  | error e =>
    rw [parseWith, ht] at h
    cases h
  | ok ts =>
    by_cases hne : Token.significant ts = []
    · rw [parseWith, ht] at h
      simp only [hne] at h
      cases h
    · rw [parseWith_of_tokens ht cache hne] at h
      have hw : ∀ t ∈ Token.significant ts, t.lexeme.WellFormed := fun t hmem =>
        wellFormed_of_tokens ht _ (List.mem_map_of_mem hmem)
      exact ⟨ts, ht, Parser.derives_of_run Parser.spells_start hw h⟩

theorem parseWith_of_says {text : String} {f : Condition} (h : Says text f) (cache : Cache) :
    ∃ g, (parseWith cache text).1 = .ok g ∧ g.map Interned.atom = f := by
  obtain ⟨ts, ht, hd⟩ := h
  obtain ⟨q, d, g, hq, hf, hg⟩ := Parser.finish_of_derives hd cache
  refine ⟨g, ?_, hg⟩
  have hne : Token.significant ts ≠ [] := by
    intro hnil
    rw [hnil] at hq
    cases hq
    cases hf
  have hrun : Parser.start.run text cache (Token.significant ts ++ []) = q.run text d [] :=
    Parser.run_of_reaches hq
  rw [List.append_nil] at hrun
  rw [parseWith_of_tokens ht cache hne, hrun, Parser.run, hf]
  rfl

/-- With any cache, a text is read as what it says. -/
theorem exists_parseWith_iff {cache : Cache} {text : String} {f : Condition} :
    (∃ g, (parseWith cache text).1 = .ok g ∧ g.map Interned.atom = f) ↔ Says text f := by
  constructor
  · rintro ⟨g, hg, rfl⟩
    exact says_of_parseWith hg
  · exact fun h => parseWith_of_says h cache

theorem parse_eq_ok_iff_says {text : String} {f : Condition} :
    parse text = .ok f ↔ Says text f := by
  rw [← @exists_parseWith_iff .empty, parse]
  cases (parseWith .empty text).1 with
  | error e => simp [Except.map]
  | ok g => simp [Except.map]

/-- A text is read as what its lexemes derive, layout left out. -/
theorem parse_eq_ok_iff_spelled {text : String} {f : Condition} :
    parse text = .ok f ↔
      ∃ ls, Separated ls ∧ spelled ls = text.toList ∧
        Derives .disjunction (Lexeme.significant ls) f := by
  refine parse_eq_ok_iff_says.trans ?_
  constructor
  · rintro ⟨ts, ht, hd⟩
    obtain ⟨ls, hs, htext, rfl⟩ := tokens_eq_ok_iff.1 ht
    rw [Token.map_lexeme_significant, Token.map_lexeme_placed] at hd
    exact ⟨ls, hs, htext, hd⟩
  · rintro ⟨ls, hs, htext, hd⟩
    refine ⟨Token.placed 0 ls, tokens_eq_ok_iff.2 ⟨ls, hs, htext, rfl⟩, ?_⟩
    rwa [Token.map_lexeme_significant, Token.map_lexeme_placed]

/-- A cache changes neither whether a text is a condition nor which one. -/
theorem exists_parseWith_iff_parse {cache : Cache} {text : String} {f : Condition} :
    (∃ g, (parseWith cache text).1 = .ok g ∧ g.map Interned.atom = f) ↔ parse text = .ok f := by
  rw [exists_parseWith_iff, parse_eq_ok_iff_says]

end Condition

/-! ## Recognition -/

/-- A text is read as a condition just if it is cut into tokens and those that are no layout derive
the condition; no list of lexemes derives two conditions; and a text that derives none is refused
with a fault of its syntax. -/
theorem parse_eq_ok_iff_derives (text : String) :
    (∀ f, Condition.parse text = .ok f ↔
      ∃ ts, Condition.tokens text = .ok ts ∧
        Derives .disjunction ((Token.significant ts).map Token.lexeme) f) ∧
    (∀ (ls : List Lexeme) (f g : Condition),
      Derives .disjunction ls f → Derives .disjunction ls g → f = g) ∧
    ((∃ e : SyntaxError, Condition.parse text = .error e) ↔
      ¬ ∃ ts f, Condition.tokens text = .ok ts ∧
        Derives .disjunction ((Token.significant ts).map Token.lexeme) f) := by
  refine ⟨fun f => Condition.parse_eq_ok_iff_says, fun ls f g hf hg => hf.unique hg, ?_⟩
  constructor
  · rintro ⟨e, he⟩ ⟨ts, f, ht, hd⟩
    rw [Condition.parse_eq_ok_iff_says.2 ⟨ts, ht, hd⟩] at he
    cases he
  · intro hnone
    cases hp : Condition.parse text with
    | error e => exact ⟨e, rfl⟩
    | ok f =>
      obtain ⟨ts, ht, hd⟩ := Condition.parse_eq_ok_iff_says.1 hp
      exact absurd ⟨ts, f, ht, hd⟩ hnone

/-! ## Numbers -/

namespace Condition

open Numeral (Denotes)

/-- A numeral alone is cut into one token. -/
theorem tokens_of_denotes {text : String} {value : Nat} (h : Denotes text.toList value) :
    tokens text = .ok [⟨0, .number text⟩] := by
  refine tokens_eq_ok_iff.2 ⟨[.number text], ⟨⟨value, h⟩, rfl, trivial⟩, ?_, rfl⟩
  rw [Lexeme.spelled_cons, Lexeme.spelled_nil, List.append_nil]
  rfl

theorem denotes_of_tokens {text numeral : String} {position : Nat}
    (h : tokens text = .ok [⟨position, .number numeral⟩]) :
    ∃ value, Denotes text.toList value := by
  obtain ⟨ls, hs, htext, hplaced⟩ := tokens_eq_ok_iff.1 h
  have hls := congrArg (List.map Token.lexeme) hplaced
  rw [Token.map_lexeme_placed] at hls
  subst hls
  rw [List.map_singleton, Lexeme.spelled_cons, Lexeme.spelled_nil, List.append_nil] at htext
  rw [← htext]
  exact hs.1

theorem parseWith_number {text numeral : String} {ts : List Token} {position : Nat}
    (h : tokens text = .ok ts) (hts : Token.significant ts = [⟨position, .number numeral⟩])
    (cache : Cache) :
    parseWith cache text = (.ok (.const (Numeral.isNonzero numeral)), cache) := by
  have hne : Token.significant ts ≠ [] := by
    rw [hts]
    exact List.cons_ne_nil _ _
  rw [parseWith_of_tokens h cache hne, hts]
  rfl

/-- The texts that are cut into one number are the written forms of integers. A text that is cut
into one number and any layout is the condition that always holds if the integer it denotes differs
from zero, and the one that never does if it is zero; no cache changes that or is changed. -/
theorem parse_number (text : String) :
    ((∃ position numeral, tokens text = .ok [⟨position, .number numeral⟩]) ↔
      ∃ value, Denotes text.toList value) ∧
    ∀ ts position numeral, tokens text = .ok ts →
      Token.significant ts = [⟨position, .number numeral⟩] →
      ∃ value, (∀ n, Denotes numeral.toList n ↔ n = value) ∧
        parse text = .ok (.const (decide (value ≠ 0))) ∧
        ∀ cache, parseWith cache text = (.ok (.const (decide (value ≠ 0))), cache) := by
  refine ⟨⟨?_, ?_⟩, ?_⟩
  · rintro ⟨position, numeral, h⟩
    exact denotes_of_tokens h
  · rintro ⟨value, hvalue⟩
    exact ⟨0, text, tokens_of_denotes hvalue⟩
  · intro ts position numeral h hts
    have hwell := wellFormed_of_tokens h (.number numeral) (by rw [hts]; exact List.mem_cons_self)
    obtain ⟨value, hvalue⟩ : ∃ value, Denotes numeral.toList value := hwell
    have hparse : ∀ cache, parseWith cache text = (.ok (.const (decide (value ≠ 0))), cache) := by
      intro cache
      rw [parseWith_number h hts, Numeral.isNonzero_of_denotes hvalue]
    refine ⟨value, fun n => ⟨fun hn => hn.unique hvalue, fun hn => hn ▸ hvalue⟩, ?_, hparse⟩
    rw [parse, hparse]
    rfl

/-- An integer of more than 64 bits in base sixteen, and a decimal zero with layout around it. -/
theorem parse_number_long :
    parse "0X100000000000000000uLL" = .ok (.const true) ∧
      parse " 000000000000000000UL\t" = .ok (.const false) := by
  constructor
  · have hdenotes : Denotes "0X100000000000000000uLL".toList
        (Numeral.placeValue 16 "100000000000000000".toList) :=
      @Denotes.hexadecimal 'X' "100000000000000000".toList "uLL".toList rfl (by decide)
        (List.all_eq_true.1 (by decide)) (List.all_eq_true.1 (by decide))
    obtain ⟨value, hvalue, hparse, -⟩ := (parse_number _).2 _ _ _ (tokens_of_denotes hdenotes) rfl
    obtain rfl := (hvalue _).1 hdenotes
    rw [hparse]
    decide
  · have hdenotes : Denotes "000000000000000000UL".toList
        (Numeral.placeValue 10 "000000000000000000".toList) :=
      @Denotes.decimal "000000000000000000".toList "UL".toList (by decide)
        (List.all_eq_true.1 (by decide)) (List.all_eq_true.1 (by decide))
    have htokens : tokens " 000000000000000000UL\t" =
        .ok [⟨0, .layout " "⟩, ⟨1, .number "000000000000000000UL"⟩, ⟨21, .layout "\t"⟩] := by
      decide +kernel
    obtain ⟨value, hvalue, hparse, -⟩ := (parse_number _).2 _ _ _ htokens rfl
    obtain rfl := (hvalue _).1 hdenotes
    rw [hparse]
    decide

end Condition

end Conditionals
