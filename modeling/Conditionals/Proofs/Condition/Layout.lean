/-
Conditionals.Proofs.Condition.Layout — layout keeps lexemes apart and says
nothing.

* `Lexeme.layOut` — lexemes written out with a gap before, between and
  behind them;
* `Lexeme.Legal` — the gaps are layout, and none is missing where two words
  would run into one;
* `Condition.tokens_layOut` — such a text is cut into these lexemes again,
  each behind its gap;
* `Condition.parse_layOut` — two such texts of the same lexemes say the same
  condition, or they have the same fault, at the same lexeme or at the end.

A gap may be missing beside a symbol, since no lexeme begins with the end of
one symbol and goes on into another one. The parser is given lexemes only;
the places of the tokens come in where a fault is reported.
-/
import Conditionals.Proofs.Condition.Viable

namespace Conditionals

/-! ## Lexemes with gaps -/

namespace Lexeme

/-- Whether a lexeme is made of word characters, so that another such lexeme behind it would run
into it. -/
def isWordRun : Lexeme → Bool
  | identifier _ => true
  | number _ => true
  | symbol _ => false
  | layout _ => false

/-- The text of lexemes with gaps: `gap i` before the lexeme of index `i`, and one gap more behind
the last lexeme. -/
def layOut (gap : Nat → String) : List Lexeme → String
  | [] => gap 0
  | l :: ls => gap 0 ++ l.spelling ++ layOut (fun i => gap (i + 1)) ls

/-- The gaps are layout, and between two words there is one. -/
structure Legal (gap : Nat → String) (ls : List Lexeme) : Prop where
  isLayout : ∀ i ≤ ls.length, ∀ c ∈ (gap i).toList, Conditionals.isLayout c = true
  apart : ∀ i < ls.length, ls[i]?.any isWordRun = true → ls[i + 1]?.any isWordRun = true →
    gap (i + 1) ≠ ""

theorem legal_iff {gap : Nat → String} {ls : List Lexeme} : Legal gap ls ↔
    (∀ i ≤ ls.length, (gap i).toList.all Conditionals.isLayout = true) ∧
      ∀ i < ls.length, ls[i]?.any isWordRun = true → ls[i + 1]?.any isWordRun = true →
        gap (i + 1) ≠ "" :=
  ⟨fun h => ⟨fun i hi => List.all_eq_true.2 (h.isLayout i hi), h.apart⟩,
    fun h => ⟨fun i hi => List.all_eq_true.1 (h.1 i hi), h.2⟩⟩

instance (gap : Nat → String) (ls : List Lexeme) : Decidable (Legal gap ls) :=
  decidable_of_iff _ legal_iff.symm

/-- The lexeme of a gap; none if it is empty. -/
def gapLexemes (gap : String) : List Lexeme :=
  if gap = "" then [] else [layout gap]

/-- The lexemes of a text of lexemes with gaps. -/
def withGaps (gap : Nat → String) : List Lexeme → List Lexeme
  | [] => gapLexemes (gap 0)
  | l :: ls => gapLexemes (gap 0) ++ l :: withGaps (fun i => gap (i + 1)) ls

variable {gap : Nat → String} {l : Lexeme} {ls : List Lexeme}

theorem Legal.tail (h : Legal gap (l :: ls)) : Legal (fun i => gap (i + 1)) ls where
  isLayout i hi := h.isLayout (i + 1) (Nat.succ_le_succ hi)
  apart i hi := h.apart (i + 1) (Nat.succ_lt_succ hi)

theorem spelled_gapLexemes (gap : String) : spelled (gapLexemes gap) = gap.toList := by
  unfold gapLexemes
  split
  case isTrue h => rw [h]; rfl
  case isFalse => rw [spelled_cons, spelled_nil, List.append_nil, spelling]

theorem spelled_withGaps (gap : Nat → String) (ls : List Lexeme) :
    spelled (withGaps gap ls) = (layOut gap ls).toList := by
  induction ls generalizing gap with
  | nil => exact spelled_gapLexemes _
  | cons l ls ih =>
    simp only [withGaps, layOut, spelled_append, spelled_cons, spelled_gapLexemes, ih,
      String.toList_append, List.append_assoc]

theorem separated_gapLexemes {gap : String} (hgap : ∀ c ∈ gap.toList, Conditionals.isLayout c = true)
    (hhead : (spelled ls).head?.any Conditionals.isLayout = false) (hls : Separated ls) :
    Separated (gapLexemes gap ++ ls) := by
  unfold gapLexemes
  split
  case isTrue => exact hls
  case isFalse hne =>
    refine ⟨⟨fun hnil => hne ?_, hgap⟩, hhead, hls⟩
    exact String.toList_inj.1 hnil

/-- Behind a gap, or before a symbol, no word goes on. -/
theorem head_withGaps (h : Legal gap ls) (hp : ∀ l ∈ ls, l.Proper)
    (hgap : gap 0 = "" → ls[0]?.any isWordRun = false) :
    (spelled (withGaps gap ls)).head?.any isWord = false := by
  obtain ⟨rest, hrest⟩ : ∃ rest, spelled (withGaps gap ls) = (gap 0).toList ++ rest := by
    cases ls with
    | nil => exact ⟨[], by rw [withGaps, spelled_gapLexemes, List.append_nil]⟩
    | cons l ls => exact ⟨_, by rw [withGaps, spelled_append, spelled_gapLexemes]⟩
  by_cases hne : gap 0 = ""
  case neg =>
    obtain ⟨c, cs, hc⟩ := List.exists_cons_of_ne_nil fun hnil => hne (String.toList_inj.1 hnil)
    rw [hrest, hc]
    exact isWord_eq_false_of_isLayout (h.isLayout 0 (Nat.zero_le _) c (by simp [hc]))
  case pos =>
    cases ls with
    | nil => simp [withGaps, gapLexemes, hne]
    | cons l ls =>
      have hword : l.isWordRun = false := hgap hne
      have hlayout := (hp l List.mem_cons_self).2
      cases l with
      | identifier name => cases hword
      | number numeral => cases hword
      | layout gap => cases hlayout
      | symbol which => cases which <;> simp [withGaps, gapLexemes, hne] <;> rfl

/-- Lexemes with legal gaps do not run into each other. -/
theorem separated_withGaps (h : Legal gap ls) (hp : ∀ l ∈ ls, l.Proper) :
    Separated (withGaps gap ls) := by
  induction ls generalizing gap with
  | nil =>
    have : Separated (gapLexemes (gap 0) ++ []) :=
      separated_gapLexemes (h.isLayout 0 (Nat.le_refl _)) rfl trivial
    rwa [List.append_nil] at this
  | cons l ls ih =>
    rw [List.forall_mem_cons] at hp
    have hgap := h.isLayout 0 (Nat.zero_le _)
    have hword : l.isWordRun = true →
        (spelled (withGaps (fun i => gap (i + 1)) ls)).head?.any isWord = false := by
      intro hl
      refine head_withGaps h.tail hp.2 fun hempty => ?_
      rw [← Bool.not_eq_true]
      exact fun hnext => h.apart 0 (Nat.succ_pos _) hl hnext hempty
    have hends : l.EndsBefore (spelled (withGaps (fun i => gap (i + 1)) ls)) := by
      cases l with
      | identifier name => exact hword rfl
      | number numeral => exact hword rfl
      | symbol which => trivial
      | layout gap => cases hp.1.2
    exact separated_gapLexemes hgap (hp.1.head_spelling _) ⟨hp.1.1, hends, ih h.tail hp.2⟩

end Lexeme

/-! ## Tokens -/

namespace Token

open Lexeme (layOut withGaps gapLexemes)

/-- The tokens of lexemes with gaps, layout left out; the first gap begins at `position`. -/
def marks (position : Nat) (gap : Nat → String) : List Lexeme → List Token
  | [] => []
  | l :: ls =>
    ⟨position + (gap 0).length, l⟩ ::
      marks (position + (gap 0).length + l.length) (fun i => gap (i + 1)) ls

theorem map_lexeme_marks (position : Nat) (gap : Nat → String) (ls : List Lexeme) :
    (marks position gap ls).map Token.lexeme = ls := by
  induction ls generalizing position gap with
  | nil => rfl
  | cons l ls ih => rw [marks, List.map_cons, ih]

theorem significant_gapLexemes (position : Nat) (gap : String) (ls : List Lexeme) :
    Token.significant (placed position (gapLexemes gap ++ ls)) =
      Token.significant (placed (position + gap.length) ls) := by
  unfold gapLexemes
  split
  case isTrue h => rw [h]; rfl
  case isFalse => rfl

theorem significant_withGaps (position : Nat) (gap : Nat → String) {ls : List Lexeme}
    (hp : ∀ l ∈ ls, l.Proper) :
    Token.significant (placed position (withGaps gap ls)) = marks position gap ls := by
  induction ls generalizing position gap with
  | nil =>
    have := significant_gapLexemes position (gap 0) []
    rwa [List.append_nil] at this
  | cons l ls ih =>
    rw [List.forall_mem_cons] at hp
    rw [withGaps, significant_gapLexemes, placed, Token.significant,
      List.filter_cons_of_pos (by simp [hp.1.2]), ← Token.significant, ih _ _ hp.2, marks]

/-- A token stands behind the lexemes before it with their gaps, and its own gap. -/
theorem position_of_marks {position k : Nat} {gap : Nat → String} {ls : List Lexeme} {t : Token}
    (h : (marks position gap ls)[k]? = some t) :
    t.position = position + (layOut gap (ls.take k)).length := by
  induction ls generalizing position gap k with
  | nil => cases h
  | cons l ls ih =>
    cases k with
    | zero =>
      cases h
      rfl
    | succ k =>
      rw [marks, List.getElem?_cons_succ] at h
      rw [ih h, List.take_succ_cons, layOut, String.length_append, String.length_append,
        Lexeme.length]
      omega

end Token

/-! ## Reading -/

/-- Two texts with as many lexemes are read alike: as the same value, or with one cause of a fault,
which stands at the end of both or at the lexeme of the same index in each. -/
inductive ReadAlike {α : Type} (text text' : String) (count : Nat) (offset offset' : Nat → Nat) :
    Except SyntaxError α → Except SyntaxError α → Prop where
  | value (a : α) : ReadAlike text text' count offset offset' (.ok a) (.ok a)
  | atEnd (cause : SyntaxError.Cause) :
      ReadAlike text text' count offset offset' (.error ⟨cause, text, none⟩)
        (.error ⟨cause, text', none⟩)
  | atLexeme (cause : SyntaxError.Cause) (k : Nat) : k < count →
      ReadAlike text text' count offset offset' (.error ⟨cause, text, some (offset k)⟩)
        (.error ⟨cause, text', some (offset' k)⟩)

theorem ReadAlike.map {α β : Type} {text text' : String} {count : Nat} {offset offset' : Nat → Nat}
    {r r' : Except SyntaxError α} (h : ReadAlike text text' count offset offset' r r') (f : α → β) :
    ReadAlike text text' count offset offset' (r.map f) (r'.map f) := by
  cases h with
  | value a => exact .value (f a)
  | atEnd cause => exact .atEnd cause
  | atLexeme cause k hk => exact .atLexeme cause k hk

theorem ReadAlike.succ {α : Type} {text text' : String} {count : Nat} {offset offset' : Nat → Nat}
    {r r' : Except SyntaxError α}
    (h : ReadAlike text text' count (fun k => offset (k + 1)) (fun k => offset' (k + 1)) r r') :
    ReadAlike text text' (count + 1) offset offset' r r' := by
  cases h with
  | value a => exact .value a
  | atEnd cause => exact .atEnd cause
  | atLexeme cause k hk => exact .atLexeme cause (k + 1) (Nat.succ_lt_succ hk)

/-- Tokens with the same lexemes are read alike. -/
theorem Parser.readAlike_run (text text' : String) (p : Parser) (c : Cache) {ts us : List Token}
    {offset offset' : Nat → Nat} (h : ts.map Token.lexeme = us.map Token.lexeme)
    (ht : ∀ k t, ts[k]? = some t → t.position = offset k)
    (hu : ∀ k u, us[k]? = some u → u.position = offset' k) :
    ReadAlike text text' ts.length offset offset' (p.run text c ts).1 (p.run text' c us).1 := by
  induction ts generalizing p c us offset offset' with
  | nil =>
    obtain rfl : us = [] := List.map_eq_nil_iff.1 h.symm
    rw [run, run]
    cases p.finish with
    | ok f => exact .value f
    | error cause => exact .atEnd cause
  | cons t ts ih =>
    obtain ⟨u, us, rfl, hlexeme, hrest⟩ := List.map_eq_cons_iff.1 h.symm
    rw [run, run, hlexeme]
    cases p.step c t.lexeme with
    | error cause =>
      have : ReadAlike text text' (ts.length + 1) offset offset'
          (.error ⟨cause, text, some (offset 0)⟩ : Except SyntaxError (Formula Interned))
          (.error ⟨cause, text', some (offset' 0)⟩) := .atLexeme cause 0 (Nat.succ_pos _)
      rwa [← ht 0 t rfl, ← hu 0 u rfl] at this
    | ok r =>
      exact (ih r.1 r.2 hrest.symm (fun k => ht (k + 1)) fun k => hu (k + 1)).succ

namespace Condition

open Lexeme (Legal layOut withGaps)

variable {gap gap' : Nat → String} {ls : List Lexeme}

theorem tokens_layOut (hp : ∀ l ∈ ls, l.Proper) (h : Legal gap ls) :
    tokens (layOut gap ls) = .ok (Token.placed 0 (withGaps gap ls)) :=
  tokens_eq_ok_iff.2
    ⟨_, Lexeme.separated_withGaps h hp, Lexeme.spelled_withGaps gap ls, rfl⟩

theorem parseWith_layOut_nil (h : Legal gap []) :
    (parseWith .empty (layOut gap [])).1 = .error ⟨.empty, layOut gap [], none⟩ := by
  have hnone : Token.significant (Token.placed 0 (withGaps gap [])) = [] :=
    Token.significant_withGaps 0 gap (List.forall_mem_nil _)
  unfold parseWith
  rw [tokens_layOut (List.forall_mem_nil _) h]
  dsimp only
  rw [hnone]

theorem parseWith_layOut (hp : ∀ l ∈ ls, l.Proper) (h : Legal gap ls) (hne : ls ≠ []) :
    parseWith .empty (layOut gap ls) =
      Parser.start.run (layOut gap ls) .empty (Token.marks 0 gap ls) := by
  have hmarks := Token.significant_withGaps 0 gap hp
  rw [← hmarks]
  refine parseWith_of_tokens (tokens_layOut hp h) .empty fun hnil => hne ?_
  rw [hmarks] at hnil
  rw [← Token.map_lexeme_marks 0 gap ls, hnil, List.map_nil]

/-- Layout says nothing: two texts of the same lexemes, with legal gaps, are read alike. -/
theorem parse_layOut (hp : ∀ l ∈ ls, l.Proper) (h : Legal gap ls) (h' : Legal gap' ls) :
    ReadAlike (layOut gap ls) (layOut gap' ls) ls.length
      (fun k => (layOut gap (ls.take k)).length) (fun k => (layOut gap' (ls.take k)).length)
      (parse (layOut gap ls)) (parse (layOut gap' ls)) := by
  unfold parse
  refine ReadAlike.map ?_ _
  by_cases hne : ls = []
  case pos =>
    rw [hne] at h h' ⊢
    rw [parseWith_layOut_nil h, parseWith_layOut_nil h']
    exact .atEnd .empty
  case neg =>
    rw [parseWith_layOut hp h hne, parseWith_layOut hp h' hne]
    have hmarks : ∀ gap, (Token.marks 0 gap ls).map Token.lexeme = ls := fun gap =>
      Token.map_lexeme_marks 0 gap ls
    have hposition : ∀ gap k t, (Token.marks 0 gap ls)[k]? = some t →
        t.position = (layOut gap (ls.take k)).length := by
      intro gap k t ht
      rw [Token.position_of_marks ht, Nat.zero_add]
    have hlength : (Token.marks 0 gap ls).length = ls.length := by
      rw [← hmarks gap, List.length_map, hmarks]
    rw [← hlength]
    exact Parser.readAlike_run _ _ .start .empty ((hmarks gap).trans (hmarks gap').symm)
      (hposition gap) (hposition gap')

/-- A parenthesis too many, in a text as tight as can be and with gaps everywhere. -/
theorem parse_layOut_tight_wide :
    let ls : List Lexeme := [.symbol .negation, .symbol .opening, .identifier "A",
      .symbol .disjunction, .identifier "defined", .identifier "B", .symbol .closing,
      .symbol .closing]
    let tight : Nat → String := fun i => if i = 5 then " " else ""
    let wide : Nat → String := fun _ => "\t "
    (∀ l ∈ ls, l.Proper) ∧ Legal tight ls ∧ Legal wide ls ∧
      layOut tight ls = "!(A||defined B))" ∧
      parse "!(A||defined B))" = .error ⟨.unexpected ")", "!(A||defined B))", some 15⟩ ∧
      ReadAlike "!(A||defined B))" (layOut wide ls) 8 (fun k => (layOut tight (ls.take k)).length)
        (fun k => (layOut wide (ls.take k)).length) (parse "!(A||defined B))")
        (parse (layOut wide ls)) := by
  intro ls tight wide
  have hname : ∀ name, isIdentifier name = true → (Lexeme.identifier name).Proper :=
    fun _ h => ⟨h, rfl⟩
  have hsymbol : ∀ which, (Lexeme.symbol which).Proper := fun _ => ⟨trivial, rfl⟩
  have hp : ∀ l ∈ ls, l.Proper := by
    simp only [ls, List.forall_mem_cons]
    exact ⟨hsymbol _, hsymbol _, hname _ (by decide), hsymbol _, hname _ (by decide),
      hname _ (by decide), hsymbol _, hsymbol _, List.forall_mem_nil _⟩
  have htight : Legal tight ls := by decide
  have hwide : Legal wide ls := by decide
  have htext : layOut tight ls = "!(A||defined B))" := by decide
  refine ⟨hp, htight, hwide, htext, by decide +kernel, ?_⟩
  have := parse_layOut hp htight hwide
  rwa [htext] at this

end Condition

end Conditionals
