/-
Conditionals.Proofs.Token.Lexer — which lexemes a text is cut into.

* `Lexeme.WellFormed` — the spellings a lexeme of each class can have;
* `Lexeme.EndsBefore` — what may follow a lexeme without being taken for
  a part of it;
* `Lexeme.front?_eq_some_iff` — the lexer takes a lexeme from the front of
  a text just if both hold;
* `Lexeme.Separated` — a list of lexemes in which both hold everywhere;
* `Token.scanFrom_spelled`, `Token.separated_of_scan` — written out, such
  a list is cut into itself again, and every text that is cut without
  rest comes from such a list.
-/
import Conditionals.Token.Lexer
import Conditionals.Proofs.Token.Numeral

namespace Conditionals

/-! ## Lexemes and what follows them -/

/-- A letter or low line and any number of word characters behind it. -/
def isIdentifier (name : String) : Bool :=
  match name.toList with
  | [] => false
  | c :: cs => isWordStart c && cs.all isWord

namespace Lexeme

/-- The spelling is one of the lexeme's class. -/
def WellFormed : Lexeme → Prop
  | identifier name => isIdentifier name = true
  | number numeral => ∃ value, Numeral.Denotes numeral.toList value
  | symbol _ => True
  | layout gap => gap.toList ≠ [] ∧ ∀ c ∈ gap.toList, Conditionals.isLayout c = true

/-- The rest does not go on with a character that would belong to the lexeme. -/
def EndsBefore : Lexeme → List Char → Prop
  | identifier _, rest => rest.head?.any isWord = false
  | number _, rest => rest.head?.any isWord = false
  | symbol _, _ => True
  | layout _, rest => rest.head?.any Conditionals.isLayout = false

theorem isIdentifier_iff {name : String} :
    isIdentifier name = true ↔
      ∃ c cs, name.toList = c :: cs ∧ isWordStart c = true ∧ ∀ d ∈ cs, isWord d = true := by
  unfold isIdentifier
  split
  case h_1 hn => simp [hn]
  case h_2 c cs hn =>
    rw [hn, Bool.and_eq_true, List.all_eq_true]
    constructor
    · rintro ⟨hc, hcs⟩
      exact ⟨c, cs, rfl, hc, hcs⟩
    · rintro ⟨_, _, heq, hc, hcs⟩
      cases heq
      exact ⟨hc, hcs⟩

/-! ## The lexeme at the front -/

/-- In front of a character of a word or of layout, the class of that character decides. -/
theorem front?_cons {c : Char} {rest : List Char}
    (h : isWord c = true ∨ Conditionals.isLayout c = true) :
    front? (c :: rest) =
      if c.isDigit then
        (Numeral.front? (c :: rest)).map fun (numeral, rest) =>
          (number (String.ofList numeral), rest)
      else if isWordStart c then
        some (identifier (String.ofList (c :: rest.takeWhile isWord)), rest.dropWhile isWord)
      else if Conditionals.isLayout c then
        some (layout (String.ofList (c :: rest.takeWhile Conditionals.isLayout)),
          rest.dropWhile Conditionals.isLayout)
      else none := by
  have hsymbol : ¬ (isWord '&' = true ∨ Conditionals.isLayout '&' = true) ∧
      ¬ (isWord '|' = true ∨ Conditionals.isLayout '|' = true) ∧
      ¬ (isWord '!' = true ∨ Conditionals.isLayout '!' = true) ∧
      ¬ (isWord '(' = true ∨ Conditionals.isLayout '(' = true) ∧
      ¬ (isWord ')' = true ∨ Conditionals.isLayout ')' = true) := by decide
  conv => lhs; unfold front?
  split
  case h_1 heq => cases heq
  case h_2 heq => cases heq; exact absurd h hsymbol.1
  case h_3 heq => cases heq; exact absurd h hsymbol.2.1
  case h_4 heq => cases heq; exact absurd h hsymbol.2.2.1
  case h_5 heq => cases heq; exact absurd h hsymbol.2.2.2.1
  case h_6 heq => cases heq; exact absurd h hsymbol.2.2.2.2
  case h_7 heq => cases heq; rfl

theorem front?_identifier {name : String} {rest : List Char}
    (hw : WellFormed (identifier name)) (he : EndsBefore (identifier name) rest) :
    front? (name.toList ++ rest) = some (identifier name, rest) := by
  obtain ⟨c, cs, hn, hc, hcs⟩ := isIdentifier_iff.1 hw
  have ht : (cs ++ rest).takeWhile isWord = cs := takeWhile_run hcs he
  have hd : (cs ++ rest).dropWhile isWord = rest := dropWhile_run hcs he
  rw [hn, List.cons_append, front?_cons (.inl (isWord_of_isWordStart hc)),
    isDigit_eq_false_of_isWordStart hc, hc, ht, hd, ← hn, String.ofList_toList]
  rfl

theorem front?_number {numeral : String} {rest : List Char}
    (hw : WellFormed (number numeral)) (he : EndsBefore (number numeral) rest) :
    front? (numeral.toList ++ rest) = some (number numeral, rest) := by
  have hf : Numeral.front? (numeral.toList ++ rest) = some (numeral.toList, rest) :=
    Numeral.front?_eq_some_iff.2 ⟨hw, he, rfl⟩
  obtain ⟨c, cs, hn, hc⟩ := Numeral.cons_of_denotes hw
  rw [hn, List.cons_append] at hf ⊢
  rw [front?_cons (.inl (isWord_of_isDigit hc)), hc, if_pos rfl, hf, ← hn]
  simp

theorem front?_layout {gap : String} {rest : List Char}
    (hw : WellFormed (layout gap)) (he : EndsBefore (layout gap) rest) :
    front? (gap.toList ++ rest) = some (layout gap, rest) := by
  obtain ⟨hne, hall⟩ := hw
  obtain ⟨c, cs, hg⟩ := List.exists_cons_of_ne_nil hne
  rw [hg, List.forall_mem_cons] at hall
  have ht : (cs ++ rest).takeWhile Conditionals.isLayout = cs := takeWhile_run hall.2 he
  have hd : (cs ++ rest).dropWhile Conditionals.isLayout = rest := dropWhile_run hall.2 he
  rw [hg, List.cons_append, front?_cons (.inr hall.1), isDigit_eq_false_of_isLayout hall.1,
    isWordStart_eq_false_of_isLayout hall.1, hall.1, ht, hd, ← hg, String.ofList_toList]
  rfl

/-- What is taken from the front of a text has a spelling of its class and ends before the rest. -/
theorem wellFormed_of_front? {cs rest : List Char} {l : Lexeme}
    (h : front? cs = some (l, rest)) : l.WellFormed ∧ l.EndsBefore rest := by
  unfold front? at h
  split at h
  case h_1 => cases h
  case h_7 c tail _ _ _ _ _ =>
    split at h
    · obtain ⟨⟨numeral, rest'⟩, hn, hl⟩ := Option.map_eq_some_iff.1 h
      cases hl
      obtain ⟨hv, he, -⟩ := Numeral.front?_eq_some_iff.1 hn
      exact ⟨by simpa [WellFormed] using hv, he⟩
    · split at h
      · rename_i hc
        cases h
        refine ⟨?_, head_dropWhile isWord tail⟩
        rw [WellFormed, isIdentifier_iff]
        exact ⟨c, tail.takeWhile isWord, String.toList_ofList, hc,
          fun _ => List.mem_takeWhile_imp⟩
      · split at h
        · rename_i hc
          cases h
          refine ⟨?_, head_dropWhile Conditionals.isLayout tail⟩
          rw [WellFormed, String.toList_ofList]
          exact ⟨List.cons_ne_nil _ _,
            List.forall_mem_cons.2 ⟨hc, fun _ => List.mem_takeWhile_imp⟩⟩
        · cases h
  all_goals cases h; exact ⟨trivial, trivial⟩

/-- The lexer takes a lexeme from the front of a text just if the lexeme is spelled as its class
demands and what follows it does not belong to it. -/
theorem front?_eq_some_iff {cs rest : List Char} {l : Lexeme} :
    front? cs = some (l, rest) ↔
      l.WellFormed ∧ l.EndsBefore rest ∧ l.spelling.toList ++ rest = cs := by
  constructor
  · intro h
    obtain ⟨hw, he⟩ := wellFormed_of_front? h
    exact ⟨hw, he, front?_append h⟩
  · rintro ⟨hw, he, rfl⟩
    cases l with
    | identifier name => exact front?_identifier hw he
    | number numeral => exact front?_number hw he
    | symbol which => cases which <;> rfl
    | layout gap => exact front?_layout hw he

/-! ## Lists of lexemes -/

/-- The characters of several lexemes. -/
def spelled (ls : List Lexeme) : List Char :=
  ls.flatMap fun l => l.spelling.toList

/-- Each lexeme is spelled as its class demands and does not run into what follows it. -/
def Separated : List Lexeme → Prop
  | [] => True
  | l :: ls => l.WellFormed ∧ l.EndsBefore (spelled ls) ∧ Separated ls

@[simp] theorem spelled_nil : spelled [] = [] := rfl

@[simp] theorem spelled_cons (l : Lexeme) (ls : List Lexeme) :
    spelled (l :: ls) = l.spelling.toList ++ spelled ls := rfl

@[simp] theorem spelled_append (ls ms : List Lexeme) :
    spelled (ls ++ ms) = spelled ls ++ spelled ms :=
  List.flatMap_append

/-- The lexemes that are not layout. -/
def significant (ls : List Lexeme) : List Lexeme :=
  ls.filter fun l => !l.isLayout

@[simp] theorem significant_append (ls ms : List Lexeme) :
    significant (ls ++ ms) = significant ls ++ significant ms :=
  List.filter_append ..

@[simp] theorem significant_symbol (which : Symbol) (ls : List Lexeme) :
    significant (.symbol which :: ls) = .symbol which :: significant ls := rfl

@[simp] theorem significant_layout (gap : String) (ls : List Lexeme) :
    significant (.layout gap :: ls) = significant ls := rfl

theorem Separated.wellFormed {ls : List Lexeme} (h : Separated ls) :
    ∀ l ∈ ls, l.WellFormed := by
  induction ls with
  | nil => simp
  | cons l ls ih => exact List.forall_mem_cons.2 ⟨h.1, ih h.2.2⟩

theorem Separated.of_append {ls ms : List Lexeme} (h : Separated (ls ++ ms)) : Separated ms := by
  induction ls with
  | nil => exact h
  | cons l ls ih => exact ih h.2.2

/-- What the lexer takes from the front of separated lexemes is the first of them. -/
theorem Separated.of_front {ls : List Lexeme} {l : Lexeme} {rest : List Char}
    (h : Separated ls) (hf : front? (spelled ls) = some (l, rest)) :
    ∃ ms, ls = l :: ms ∧ Separated ms ∧ spelled ms = rest := by
  cases ls with
  | nil => cases hf
  | cons m ms =>
    have hm : front? (spelled (m :: ms)) = some (m, spelled ms) :=
      front?_eq_some_iff.2 ⟨h.1, h.2.1, rfl⟩
    rw [hm] at hf
    cases hf
    exact ⟨ms, rfl, h.2.2, rfl⟩

end Lexeme

namespace Token

open Lexeme (Separated spelled)

/-- Several lexemes in a row, the first one at `position`. -/
def placed (position : Nat) : List Lexeme → List Token
  | [] => []
  | l :: ls => ⟨position, l⟩ :: placed (position + l.length) ls

@[simp] theorem map_lexeme_placed (position : Nat) (ls : List Lexeme) :
    (placed position ls).map Token.lexeme = ls := by
  induction ls generalizing position with
  | nil => rfl
  | cons l ls ih => simp [placed, ih]

theorem map_lexeme_significant (ts : List Token) :
    (Token.significant ts).map Token.lexeme = Lexeme.significant (ts.map Token.lexeme) := by
  rw [Lexeme.significant, List.filter_map]
  rfl

/-! ## Scanning -/

theorem scanFrom_of_none {position : Nat} {cs : List Char} (h : Lexeme.front? cs = none) :
    scanFrom position cs = ⟨[], position, cs⟩ := by
  rw [scanFrom]
  split
  · rfl
  · rename_i h'
    rw [h] at h'
    cases h'

theorem scanFrom_of_some {position : Nat} {cs rest : List Char} {l : Lexeme}
    (h : Lexeme.front? cs = some (l, rest)) :
    scanFrom position cs =
      { scanFrom (position + l.length) rest with
        tokens := ⟨position, l⟩ :: (scanFrom (position + l.length) rest).tokens } := by
  rw [scanFrom]
  split
  · rename_i h'
    rw [h] at h'
    cases h'
  · rename_i h'
    rw [h] at h'
    cases h'
    rfl

/-- Separated lexemes are cut into themselves. -/
theorem scanFrom_spelled {ls : List Lexeme} (h : Separated ls) (position : Nat) :
    scanFrom position (spelled ls) =
      ⟨placed position ls, position + (spelled ls).length, []⟩ := by
  induction ls generalizing position with
  | nil => exact scanFrom_of_none rfl
  | cons l ls ih =>
    obtain ⟨hw, he, hls⟩ := h
    have hf : Lexeme.front? (spelled (l :: ls)) = some (l, spelled ls) :=
      Lexeme.front?_eq_some_iff.2 ⟨hw, he, rfl⟩
    rw [scanFrom_of_some hf, ih hls]
    simp [placed, Lexeme.length, Nat.add_assoc, String.length_toList]

/-- What is cut without rest is cut into separated lexemes that make up the text. -/
theorem separated_of_scan {position : Nat} {cs : List Char}
    (h : (scanFrom position cs).rest = []) :
    ∃ ls, Separated ls ∧ spelled ls = cs ∧ (scanFrom position cs).tokens = placed position ls := by
  fun_induction scanFrom position cs with
  | case1 position cs hf => exact ⟨[], trivial, h.symm, rfl⟩
  | case2 position cs l rest hf _ behind ih =>
    obtain ⟨ls, hs, hcs, ht⟩ := ih h
    obtain ⟨hw, he, happ⟩ := Lexeme.front?_eq_some_iff.1 hf
    refine ⟨l :: ls, ⟨hw, hcs ▸ he, hs⟩, ?_, ?_⟩
    · rw [Lexeme.spelled_cons, hcs, happ]
    · rw [placed, ← ht]

end Token

end Conditionals
