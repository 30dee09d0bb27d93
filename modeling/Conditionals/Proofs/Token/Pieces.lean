/-
Conditionals.Proofs.Token.Pieces — a text is cut by the shape of its
characters, and only then are the pieces read.

* `Piece.cut` — the pieces of a text from the left: runs of word characters
  and runs of layout, each as long as it can be, and symbols, up to the
  first character that begins none;
* `Numeral.written` — the written forms of integers as a regular language;
* `Piece.Reads` — a symbol and a run of layout are lexemes as they stand; a
  run of word characters is one if it begins like an identifier, or if it is
  a numeral as a whole;
* `Piece.front?_lexeme_iff` — the lexer takes the piece at the front of a
  text if that can be read, and nothing otherwise;
* `Condition.tokens_eq_pieces` — the tokens of a text are its pieces, read
  one by one. A text has none if some piece cannot be read or the pieces end
  before the text does, and the fault stands there.

The cut looks at the classes of the characters only and never goes back. So
no numeral is cut short to leave an identifier behind it, and no word is
taken in two.
-/
import Mathlib.Computability.Language
import Conditionals.Proofs.Condition.Recognition

namespace Conditionals

/-! ## Numerals as a regular language -/

namespace Numeral

open scoped Computability

/-- The texts of one character of a class. -/
def oneOf (p : Char → Bool) : Language Char :=
  {cs | ∃ c, p c = true ∧ cs = [c]}

/-- The written forms of integers: `0[xX]` and hexadecimal digits or else decimal digits, and then
any letters that say how wide and whether signed the integer is. -/
def written : Language Char :=
  (({['0']} : Language Char) * oneOf isHexMark * (oneOf isHexDigit * (oneOf isHexDigit)∗) +
    oneOf Char.isDigit * (oneOf Char.isDigit)∗) * (oneOf isSuffix)∗

theorem mem_kstar_oneOf {p : Char → Bool} {cs : List Char} :
    cs ∈ (oneOf p)∗ ↔ ∀ c ∈ cs, p c = true := by
  rw [Language.mem_kstar]
  constructor
  · rintro ⟨parts, rfl, hparts⟩ c hc
    obtain ⟨part, hpart, hc⟩ := List.mem_flatten.1 hc
    obtain ⟨d, hd, rfl⟩ := hparts part hpart
    rwa [List.mem_singleton.1 hc]
  · intro h
    refine ⟨cs.map fun c => [c], (List.flatMap_singleton' cs).symm, fun part hpart => ?_⟩
    obtain ⟨c, hc, rfl⟩ := List.mem_map.1 hpart
    exact ⟨c, h c hc, rfl⟩

theorem mem_oneOf_mul_kstar {p : Char → Bool} {cs : List Char} :
    cs ∈ oneOf p * (oneOf p)∗ ↔ cs ≠ [] ∧ ∀ c ∈ cs, p c = true := by
  rw [Language.mem_mul]
  constructor
  · rintro ⟨_, ⟨c, hc, rfl⟩, ds, hds, rfl⟩
    exact ⟨List.cons_ne_nil _ _, List.forall_mem_cons.2 ⟨hc, mem_kstar_oneOf.1 hds⟩⟩
  · rintro ⟨hne, h⟩
    obtain ⟨c, ds, rfl⟩ := List.exists_cons_of_ne_nil hne
    rw [List.forall_mem_cons] at h
    exact ⟨[c], ⟨c, h.1, rfl⟩, ds, mem_kstar_oneOf.2 h.2, rfl⟩

/-- What denotes an integer are the written forms. -/
theorem mem_written_iff {cs : List Char} : cs ∈ written ↔ ∃ value, Denotes cs value := by
  rw [written, Language.mem_mul]
  constructor
  · rintro ⟨digits, hdigits, suffix, hs, rfl⟩
    rw [mem_kstar_oneOf] at hs
    rcases (Language.mem_add _ _ _).1 hdigits with hhex | hdec
    · obtain ⟨_, ⟨_, rfl, _, ⟨x, hx, rfl⟩, rfl⟩, ds, hds, rfl⟩ := hhex
      obtain ⟨hne, hd⟩ := mem_oneOf_mul_kstar.1 hds
      exact ⟨_, .hexadecimal hx hne hd hs⟩
    · obtain ⟨hne, hd⟩ := mem_oneOf_mul_kstar.1 hdec
      exact ⟨_, .decimal hne hd hs⟩
  · rintro ⟨value, h⟩
    cases h with
    | @decimal digits suffix hne hd hs =>
      refine ⟨digits, (Language.mem_add _ _ _).2 (.inr ?_), suffix, mem_kstar_oneOf.2 hs, rfl⟩
      exact mem_oneOf_mul_kstar.2 ⟨hne, hd⟩
    | @hexadecimal x digits suffix hx hne hd hs =>
      refine ⟨_, (Language.mem_add _ _ _).2 (.inl ?_), suffix, mem_kstar_oneOf.2 hs, rfl⟩
      exact ⟨['0', x], ⟨['0'], rfl, [x], ⟨x, hx, rfl⟩, rfl⟩, digits,
        mem_oneOf_mul_kstar.2 ⟨hne, hd⟩, rfl⟩

end Numeral

/-! ## Pieces -/

/-- A piece of a text by the shape of its characters. -/
inductive Piece where
  /-- Characters of words. -/
  | word (run : List Char)
  /-- Characters of layout. -/
  | gap (run : List Char)
  | symbol (which : Symbol)
  deriving DecidableEq, Repr

namespace Piece

/-- The characters of a piece. -/
def chars : Piece → List Char
  | word run => run
  | gap run => run
  | symbol which => which.spelling.toList

/-- All symbols. -/
def symbols : List Symbol :=
  [.conjunction, .disjunction, .negation, .opening, .closing]

/-- The symbol at the front of a text and what follows it, if one begins there. -/
def frontSymbol? (cs : List Char) : Option (Piece × List Char) :=
  (symbols.find? fun s => s.spelling.toList.isPrefixOf cs).map fun s =>
    (symbol s, cs.drop s.spelling.length)

/-- The piece at the front of a text and what follows it, if a piece begins there. -/
def front? (cs : List Char) : Option (Piece × List Char) :=
  if cs.head?.any isWord then some (word (cs.takeWhile isWord), cs.dropWhile isWord)
  else if cs.head?.any isLayout then some (gap (cs.takeWhile isLayout), cs.dropWhile isLayout)
  else frontSymbol? cs

/-- The characters are of the class that the piece is a run of. -/
def IsRun : Piece → Prop
  | word run => run ≠ [] ∧ ∀ c ∈ run, isWord c = true
  | gap run => run ≠ [] ∧ ∀ c ∈ run, isLayout c = true
  | symbol _ => True

/-- The rest does not go on with a character of the run's class. -/
def EndsBefore : Piece → List Char → Prop
  | word _, rest => rest.head?.any isWord = false
  | gap _, rest => rest.head?.any isLayout = false
  | symbol _, _ => True

theorem IsRun.chars_ne_nil {p : Piece} (h : p.IsRun) : p.chars ≠ [] := by
  cases p with
  | word run => exact h.1
  | gap run => exact h.1
  | symbol which => cases which <;> simp [chars, Symbol.spelling]

theorem takeWhile_ne_nil {q : Char → Bool} {cs : List Char} (h : cs.head?.any q = true) :
    cs.takeWhile q ≠ [] := by
  cases cs with
  | nil => cases h
  | cons c cs =>
    have hc : q c = true := h
    simp [hc]

theorem head_run {q : Char → Bool} {run rest : List Char} (hne : run ≠ [])
    (h : ∀ c ∈ run, q c = true) : (run ++ rest).head?.any q = true := by
  obtain ⟨c, cs, rfl⟩ := List.exists_cons_of_ne_nil hne
  exact h c List.mem_cons_self

theorem frontSymbol?_spelling (which : Symbol) (rest : List Char) :
    frontSymbol? (which.spelling.toList ++ rest) = some (symbol which, rest) := by
  cases which <;> rfl

/-- The piece at the front of a text is a run of its class that goes on as long as it can. -/
theorem front?_eq_some_iff {cs rest : List Char} {p : Piece} :
    front? cs = some (p, rest) ↔ p.IsRun ∧ p.EndsBefore rest ∧ p.chars ++ rest = cs := by
  constructor
  · intro h
    unfold front? at h
    split at h
    case isTrue hw =>
      cases h
      exact ⟨⟨takeWhile_ne_nil hw, fun _ => List.mem_takeWhile_imp⟩, head_dropWhile isWord cs,
        List.takeWhile_append_dropWhile⟩
    case isFalse =>
      split at h
      case isTrue hl =>
        cases h
        exact ⟨⟨takeWhile_ne_nil hl, fun _ => List.mem_takeWhile_imp⟩, head_dropWhile isLayout cs,
          List.takeWhile_append_dropWhile⟩
      case isFalse =>
        obtain ⟨which, hfind, heq⟩ := Option.map_eq_some_iff.1 h
        cases heq
        refine ⟨trivial, trivial, ?_⟩
        have hprefix := List.find?_some hfind
        obtain ⟨tail, htail⟩ := List.isPrefixOf_iff_prefix.1 hprefix
        rw [← htail, ← String.length_toList, List.drop_left]
        rfl
  · rintro ⟨hrun, hends, rfl⟩
    cases p with
    | word run =>
      rw [chars, front?, head_run hrun.1 hrun.2, if_pos rfl, takeWhile_run hrun.2 hends,
        dropWhile_run hrun.2 hends]
    | gap run =>
      have hword : (run ++ rest).head?.any isWord = false := by
        obtain ⟨c, cs, rfl⟩ := List.exists_cons_of_ne_nil hrun.1
        exact isWord_eq_false_of_isLayout (hrun.2 c List.mem_cons_self)
      rw [chars, front?, hword, head_run hrun.1 hrun.2, if_neg Bool.false_ne_true, if_pos rfl,
        takeWhile_run hrun.2 hends, dropWhile_run hrun.2 hends]
    | symbol which =>
      rw [chars, front?, frontSymbol?_spelling]
      cases which <;> rfl

/-- The pieces of a text from the left, and the rest at whose front none begins. -/
def cut (cs : List Char) : List Piece × List Char :=
  match h : front? cs with
  | none => ([], cs)
  | some (p, rest) =>
    have : rest.length < cs.length := by
      obtain ⟨hrun, -, happ⟩ := front?_eq_some_iff.1 h
      have := List.length_pos_iff.2 hrun.chars_ne_nil
      rw [← happ, List.length_append]
      omega
    (p :: (cut rest).1, (cut rest).2)
  termination_by cs.length

/-! ## Cutting -/

variable {cs rest : List Char} {p : Piece} {l : Lexeme}

theorem cut_of_none (h : front? cs = none) : cut cs = ([], cs) := by
  rw [cut]
  split
  case h_1 => rfl
  case h_2 h' =>
    rw [h] at h'
    cases h'

theorem cut_of_some (h : front? cs = some (p, rest)) :
    cut cs = (p :: (cut rest).1, (cut rest).2) := by
  rw [cut]
  split
  case h_1 h' =>
    rw [h] at h'
    cases h'
  case h_2 h' =>
    rw [h] at h'
    cases h'
    rfl

/-- The characters of several pieces. -/
def spelled (ps : List Piece) : List Char :=
  ps.flatMap chars

@[simp] theorem spelled_nil : spelled [] = [] := rfl

@[simp] theorem spelled_cons (p : Piece) (ps : List Piece) :
    spelled (p :: ps) = p.chars ++ spelled ps := rfl

@[simp] theorem spelled_append (ps qs : List Piece) :
    spelled (ps ++ qs) = spelled ps ++ spelled qs :=
  List.flatMap_append

/-- The pieces and the rest are the text. -/
theorem cut_append (cs : List Char) : spelled (cut cs).1 ++ (cut cs).2 = cs := by
  fun_induction cut cs with
  | case1 cs h => rfl
  | case2 cs p rest h _ ih =>
    rw [spelled_cons, List.append_assoc, ih]
    exact (front?_eq_some_iff.1 h).2.2

theorem isRun_of_mem_cut {p : Piece} {cs : List Char} (h : p ∈ (cut cs).1) : p.IsRun := by
  fun_induction cut cs with
  | case1 => cases h
  | case2 cs q rest hq _ ih =>
    rcases List.mem_cons.1 h with rfl | h
    · exact (front?_eq_some_iff.1 hq).1
    · exact ih h

/-! ## Reading -/

/-- A piece and the lexeme that it is. -/
inductive Reads : Piece → Lexeme → Prop where
  | identifier {c : Char} {cs : List Char} :
      isWordStart c = true → Reads (word (c :: cs)) (.identifier (String.ofList (c :: cs)))
  | number {cs : List Char} :
      cs ∈ Numeral.written → Reads (word cs) (.number (String.ofList cs))
  | layout {cs : List Char} : Reads (gap cs) (.layout (String.ofList cs))
  | symbol {which : Symbol} : Reads (symbol which) (.symbol which)

/-- The piece is some lexeme. -/
def Qualifies (p : Piece) : Prop :=
  ∃ l, p.Reads l

end Piece

/-- The piece that a lexeme is cut from. -/
def Lexeme.piece : Lexeme → Piece
  | identifier name => .word name.toList
  | number numeral => .word numeral.toList
  | symbol which => .symbol which
  | layout gap => .gap gap.toList

namespace Piece

variable {cs rest : List Char} {p : Piece} {l : Lexeme}

theorem chars_piece (l : Lexeme) : l.piece.chars = l.spelling.toList := by
  cases l <;> rfl

theorem endsBefore_piece : l.piece.EndsBefore rest ↔ l.EndsBefore rest := by
  cases l <;> rfl

theorem isWord_of_denotes {value : Nat} (h : Numeral.Denotes cs value) :
    ∀ c ∈ cs, isWord c = true := by
  cases h with
  | decimal _ hd hs =>
    exact List.forall_mem_append.2 ⟨fun c hc => isWord_of_isDigit (hd c hc),
      fun c hc => Numeral.isWord_of_isSuffix (hs c hc)⟩
  | hexadecimal hx _ hd hs =>
    refine List.forall_mem_append.2 ⟨?_, fun c hc => Numeral.isWord_of_isSuffix (hs c hc)⟩
    refine List.forall_mem_cons.2 ⟨rfl, List.forall_mem_cons.2 ⟨?_, ?_⟩⟩
    · exact Numeral.isWord_of_isHexMark hx
    · exact fun c hc => Numeral.isWord_of_isHexDigit (hd c hc)

theorem isRun_piece (h : l.WellFormed) : l.piece.IsRun := by
  cases l with
  | identifier name =>
    obtain ⟨c, cs, hn, hc, hcs⟩ := Lexeme.isIdentifier_iff.1 h
    rw [Lexeme.piece, IsRun, hn]
    exact ⟨List.cons_ne_nil _ _, List.forall_mem_cons.2 ⟨isWord_of_isWordStart hc, hcs⟩⟩
  | number numeral =>
    obtain ⟨value, hv⟩ := h
    obtain ⟨c, cs, hn, -⟩ := Numeral.cons_of_denotes ⟨value, hv⟩
    refine ⟨?_, isWord_of_denotes hv⟩
    rw [hn]
    exact List.cons_ne_nil _ _
  | symbol which => trivial
  | layout gap => exact h

/-- The lexemes that a run of one class can be read as are those with its characters that are
spelled as their class demands. -/
theorem reads_iff (hp : p.IsRun) : p.Reads l ↔ l.WellFormed ∧ l.piece = p := by
  constructor
  · intro h
    cases h with
    | @identifier c cs hc =>
      refine ⟨Lexeme.isIdentifier_iff.2 ⟨c, cs, String.toList_ofList, hc, ?_⟩, ?_⟩
      · exact (List.forall_mem_cons.1 hp.2).2
      · rw [Lexeme.piece, String.toList_ofList]
    | @number cs hcs =>
      rw [Lexeme.WellFormed, Lexeme.piece, String.toList_ofList]
      exact ⟨Numeral.mem_written_iff.1 hcs, rfl⟩
    | layout =>
      rw [Lexeme.WellFormed, Lexeme.piece, String.toList_ofList]
      exact ⟨hp, rfl⟩
    | symbol => exact ⟨trivial, rfl⟩
  · rintro ⟨hw, rfl⟩
    cases l with
    | identifier name =>
      obtain ⟨c, cs, hn, hc, -⟩ := Lexeme.isIdentifier_iff.1 hw
      have h : Reads (word (c :: cs)) (.identifier (String.ofList (c :: cs))) := .identifier hc
      rwa [← hn, String.ofList_toList] at h
    | number numeral =>
      have h := Reads.number (Numeral.mem_written_iff.2 hw)
      rwa [String.ofList_toList] at h
    | symbol which => exact .symbol
    | layout gap =>
      have h : Reads (.gap gap.toList) (.layout (String.ofList gap.toList)) := .layout
      rwa [String.ofList_toList] at h

/-- The lexer takes the piece at the front of a text, if that can be read. -/
theorem front?_lexeme_iff :
    Lexeme.front? cs = some (l, rest) ↔ ∃ p, front? cs = some (p, rest) ∧ p.Reads l := by
  rw [Lexeme.front?_eq_some_iff]
  constructor
  · rintro ⟨hw, he, happ⟩
    have hrun := isRun_piece hw
    refine ⟨l.piece, front?_eq_some_iff.2 ⟨hrun, endsBefore_piece.2 he, ?_⟩,
      (reads_iff hrun).2 ⟨hw, rfl⟩⟩
    rw [chars_piece, happ]
  · rintro ⟨p, hp, hreads⟩
    obtain ⟨hrun, he, happ⟩ := front?_eq_some_iff.1 hp
    obtain ⟨hw, rfl⟩ := (reads_iff hrun).1 hreads
    rw [chars_piece] at happ
    exact ⟨hw, endsBefore_piece.1 he, happ⟩

theorem chars_of_reads (h : p.Reads l) : p.chars = l.spelling.toList := by
  cases h with
  | identifier _ => exact String.toList_ofList.symm
  | number _ => exact String.toList_ofList.symm
  | layout => exact String.toList_ofList.symm
  | symbol => rfl

/-- Scanning a text reads its pieces one by one up to the first that cannot be read. -/
theorem scanFrom_eq (position : Nat) (cs : List Char) :
    ∃ read unread ls, (cut cs).1 = read ++ unread ∧ List.Forall₂ Reads read ls ∧
      (∀ p ∈ unread.head?, ¬ p.Qualifies) ∧
      Token.scanFrom position cs =
        ⟨Token.placed position ls, position + (spelled read).length,
          spelled unread ++ (cut cs).2⟩ := by
  fun_induction Token.scanFrom position cs with
  | case1 position cs h =>
    refine ⟨[], (cut cs).1, [], rfl, .nil, ?_, ?_⟩
    · intro p hp hq
      obtain ⟨l, hl⟩ := hq
      cases hfront : front? cs with
      | none =>
        rw [cut_of_none hfront] at hp
        cases hp
      | some r =>
        rw [cut_of_some hfront] at hp
        cases hp
        rw [front?_lexeme_iff.2 ⟨_, hfront, hl⟩] at h
        cases h
    · rw [cut_append]
      rfl
  | case2 position cs l rest h _ behind ih =>
    obtain ⟨p, hp, hreads⟩ := front?_lexeme_iff.1 h
    obtain ⟨read, unread, ls, hcut, hread, hunread, hscan⟩ := ih
    refine ⟨p :: read, unread, l :: ls, ?_, .cons hreads hread, hunread, ?_⟩
    · rw [cut_of_some hp, hcut]
      rfl
    · rw [cut_of_some hp]
      simp only [behind, hscan, Token.placed, spelled_cons, List.length_append,
        chars_of_reads hreads, Lexeme.length, String.length_toList, Nat.add_assoc]

/-- The offset is that of the first piece that cannot be read or, if there is none, that of a
character behind all pieces. -/
inductive FirstUnfit : List Piece → List Char → Nat → Prop where
  | piece {before after : List Piece} {p : Piece} {rest : List Char} :
      (∀ q ∈ before, q.Qualifies) → ¬ p.Qualifies →
      FirstUnfit (before ++ p :: after) rest (spelled before).length
  | character {ps : List Piece} {c : Char} {rest : List Char} :
      (∀ q ∈ ps, q.Qualifies) → FirstUnfit ps (c :: rest) (spelled ps).length

theorem FirstUnfit.not_fit {ps : List Piece} {rest : List Char} {offset : Nat}
    (h : FirstUnfit ps rest offset) : ¬ (rest = [] ∧ ∀ p ∈ ps, p.Qualifies) := by
  rintro ⟨hrest, hall⟩
  cases h with
  | piece _ hp => exact hp (hall _ (by simp))
  | character _ => cases hrest

theorem qualifies_of_reads {ps : List Piece} {ls : List Lexeme} (h : List.Forall₂ Reads ps ls) :
    ∀ p ∈ ps, p.Qualifies := by
  induction h with
  | nil => exact List.forall_mem_nil _
  | cons h _ ih => exact List.forall_mem_cons.2 ⟨⟨_, h⟩, ih⟩

theorem spelled_of_reads {ps : List Piece} {ls : List Lexeme} (h : List.Forall₂ Reads ps ls) :
    spelled ps = Lexeme.spelled ls := by
  induction h with
  | nil => rfl
  | cons h _ ih => rw [spelled_cons, Lexeme.spelled_cons, chars_of_reads h, ih]

end Piece

/-! ## Tokens -/

theorem Lexeme.not_isLayout (l : Lexeme) :
    (!l.isLayout) = decide (l.className ≠ "WHITESPACE") := by
  cases l <;> rfl

theorem Token.flatMap_spelling (ts : List Token) :
    (ts.flatMap fun t => t.lexeme.spelling.toList) = Lexeme.spelled (ts.map Token.lexeme) := by
  rw [Lexeme.spelled, List.flatMap_map]

/-- A token stands behind the characters of the tokens before it. -/
theorem Token.position_of_placed {position : Nat} {ls : List Lexeme} {before after : List Token}
    {t : Token} (h : placed position ls = before ++ t :: after) :
    t.position = position + (Lexeme.spelled (before.map Token.lexeme)).length := by
  induction before generalizing position ls with
  | nil =>
    cases ls with
    | nil => cases h
    | cons l ls =>
      cases h
      rfl
  | cons u before ih =>
    cases ls with
    | nil => cases h
    | cons l ls =>
      rw [placed, List.cons_append, List.cons.injEq] at h
      obtain ⟨rfl, h⟩ := h
      rw [ih h, List.map_cons, Lexeme.spelled_cons, List.length_append, Lexeme.length,
        String.length_toList, Nat.add_assoc]

namespace Condition

open Piece (cut)

/-- Either all pieces can be read and the text has tokens, or some offset is the first that does not
fit and the fault is there. -/
theorem tokens_cases (text : String) :
    (∃ ls, List.Forall₂ Piece.Reads (cut text.toList).1 ls ∧ (cut text.toList).2 = [] ∧
      tokens text = .ok (Token.placed 0 ls) ∧ (Token.scan text).stop = text.length) ∨
    ∃ offset, Piece.FirstUnfit (cut text.toList).1 (cut text.toList).2 offset ∧
      tokens text =
        .error ⟨.unrecognized (String.ofList (text.toList.drop offset)), text, some offset⟩ ∧
      (Token.scan text).stop = offset := by
  obtain ⟨read, unread, ls, hcut, hread, hunread, hscan⟩ := Piece.scanFrom_eq 0 text.toList
  have htext := Piece.cut_append text.toList
  rw [hcut, Piece.spelled_append, List.append_assoc] at htext
  rw [Nat.zero_add] at hscan
  have hdrop : text.toList.drop (Piece.spelled read).length =
      Piece.spelled unread ++ (cut text.toList).2 := by
    have := congrArg (List.drop (Piece.spelled read).length) htext
    rwa [List.drop_left, eq_comm] at this
  have hqualify := Piece.qualifies_of_reads hread
  -- A fault is met just if something is left to be scanned.
  have herror : Piece.spelled unread ++ (cut text.toList).2 ≠ [] →
      tokens text = .error
        ⟨.unrecognized (String.ofList (text.toList.drop (Piece.spelled read).length)), text,
          some (Piece.spelled read).length⟩ := by
    intro hne
    rw [tokens, Token.scan, hscan, hdrop]
    simp only [List.isEmpty_iff, hne, if_false]
  have hstop : (Token.scan text).stop = (Piece.spelled read).length := by
    rw [Token.scan, hscan]
  rw [hcut]
  cases unread with
  | nil =>
    cases hleft : (cut text.toList).2 with
    | nil =>
      left
      refine ⟨ls, by rwa [List.append_nil], rfl, ?_, ?_⟩
      · rw [tokens, Token.scan, hscan, hleft]
        rfl
      · rw [hstop, ← String.length_toList, ← htext, hleft]
        simp
    | cons c rest =>
      right
      rw [List.append_nil]
      exact ⟨_, .character hqualify, herror (by simp [hleft]), hstop⟩
  | cons p after =>
    right
    have hrun : p.IsRun := Piece.isRun_of_mem_cut (by rw [hcut]; simp)
    refine ⟨_, .piece hqualify (hunread p rfl), herror ?_, hstop⟩
    simp [hrun.chars_ne_nil]

/-- A text has tokens just if all its characters are in pieces that can be read. The tokens are then
these pieces, read; their characters are the text, each stands behind the characters of those before
it, and leaving out the layout leaves out the tokens of that class. If a text has no tokens, the
fault, like the end of the scan, is at the first piece that cannot be read or at the character where
the pieces end. -/
theorem tokens_eq_pieces (text : String) :
    ((∃ ts, tokens text = .ok ts) ↔
      (cut text.toList).2 = [] ∧ ∀ p ∈ (cut text.toList).1, p.Qualifies) ∧
    (∀ ts, tokens text = .ok ts →
      List.Forall₂ Piece.Reads (cut text.toList).1 (ts.map Token.lexeme) ∧
      (ts.flatMap fun t => t.lexeme.spelling.toList) = text.toList ∧
      (∀ before t after, ts = before ++ t :: after →
        t.position = (before.flatMap fun u => u.lexeme.spelling.toList).length) ∧
      Token.significant ts = ts.filter (fun t => t.lexeme.className ≠ "WHITESPACE") ∧
      (Token.scan text).stop = text.length) ∧
    (∀ fault, tokens text = .error fault →
      ∃ offset, Piece.FirstUnfit (cut text.toList).1 (cut text.toList).2 offset ∧
        fault = ⟨.unrecognized (String.ofList (text.toList.drop offset)), text, some offset⟩ ∧
        (Token.scan text).stop = offset) := by
  rcases tokens_cases text with ⟨ls, hreads, hleft, htokens, hstop⟩ |
    ⟨offset, hunfit, htokens, hstop⟩
  · have hspelled : Lexeme.spelled ls = text.toList := by
      have happ := Piece.cut_append text.toList
      rwa [hleft, List.append_nil, Piece.spelled_of_reads hreads] at happ
    refine ⟨⟨fun _ => ⟨hleft, Piece.qualifies_of_reads hreads⟩, fun _ => ⟨_, htokens⟩⟩, ?_, ?_⟩
    · intro ts hts
      obtain rfl : Token.placed 0 ls = ts := Except.ok.inj (htokens.symm.trans hts)
      refine ⟨?_, ?_, ?_, ?_, hstop⟩
      · rwa [Token.map_lexeme_placed]
      · rw [Token.flatMap_spelling, Token.map_lexeme_placed, hspelled]
      · intro before t after h
        rw [Token.position_of_placed h, Nat.zero_add, Token.flatMap_spelling]
      · exact List.filter_congr fun t _ => Lexeme.not_isLayout t.lexeme
    · intro fault h
      rw [htokens] at h
      cases h
  · refine ⟨⟨?_, fun hfit => absurd hfit hunfit.not_fit⟩, ?_, ?_⟩
    · rintro ⟨ts, hts⟩
      rw [htokens] at hts
      cases hts
    · intro ts hts
      rw [htokens] at hts
      cases hts
    · intro fault h
      rw [htokens] at h
      cases h
      exact ⟨offset, hunfit, rfl, hstop⟩

end Condition

end Conditionals
