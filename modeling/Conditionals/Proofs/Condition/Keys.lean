/-
Conditionals.Proofs.Condition.Keys — what reading a condition leaves in the
cache.

* `Cache.keys` — the atoms that a cache has a copy of;
* `Lexeme.completedAtoms` — the atoms that a list of lexemes names in full:
  it looks at the lexemes alone and knows neither parentheses nor operands;
* `Parser.insertAll_of_reaches` — reading lexemes adds these atoms and no
  others, whether the text goes on well or not. A question that has been
  begun counts with the lexeme that ends it (`Mode.question`);
* `Derives.completedAtoms_append` — the lexemes of a phrase complete the
  atoms of the condition that it says;
* `Token.before_of_split` — the tokens before the place of a fault are those
  that have been read.

`Condition.cache_after_parseWith` is the main statement.
-/
import Mathlib.Data.Finset.Card
import Mathlib.Data.Finset.Dedup
import Mathlib.Data.Finset.Lattice.Lemmas
import Conditionals.Proofs.Condition.Interning
import Conditionals.Proofs.Condition.Viable

namespace Conditionals

/-! ## Keys of a cache -/

namespace Cache

/-- The atoms that the cache has a copy of. -/
def keys (c : Cache) : Finset Atom :=
  c.atoms.toFinset

/-- The cache after meeting several atoms. -/
def insertAll (c : Cache) (as : List Atom) : Cache :=
  as.foldl insert c

/-- What asking for atoms and reading conditions, also such that are none, can make of a cache. -/
inductive Later (c : Cache) : Cache → Prop
  | refl : Later c c
  | intern {d : Cache} (a : Atom) : Later c d → Later c (d.intern a).2
  | parse {d : Cache} (text : String) : Later c d → Later c (Condition.parseWith d text).2

variable {c d : Cache} {x : Interned} {a : Atom}

theorem insert_of_mem (h : a ∈ c.atoms) : c.insert a = c :=
  dif_pos h

theorem keeps_intern (h : a ∈ c.atoms) : c.Keeps (c.intern a).1 := by
  have hkept := c.getElem?_intern a
  rw [show (c.intern a).2 = c from insert_of_mem h] at hkept
  exact hkept

/-- A copy that is kept is what asking for its atom gives, and the cache stays as it is. -/
theorem Keeps.intern_eq (h : c.Keeps x) : c.intern x.atom = (x, c) := by
  have hmem : x.atom ∈ c.atoms := List.mem_of_getElem? h
  exact Prod.ext ((keeps_intern hmem).eq_of_atom_eq h rfl) (insert_of_mem hmem)

/-- A cache has as many entries as keys. -/
theorem size_eq_card_keys (c : Cache) : c.size = c.keys.card :=
  (List.toFinset_card_of_nodup c.nodup).symm

theorem keys_insert (c : Cache) (a : Atom) : (c.insert a).keys = c.keys ∪ {a} := by
  ext b
  simp [keys, or_comm]

theorem keys_insertAll (c : Cache) (as : List Atom) :
    (c.insertAll as).keys = c.keys ∪ as.toFinset := by
  induction as generalizing c with
  | nil => simp [insertAll]
  | cons a as ih =>
    calc (c.insertAll (a :: as)).keys
        = ((c.insert a).insertAll as).keys := rfl
      _ = c.keys ∪ {a} ∪ as.toFinset := by rw [ih, keys_insert]
      _ = c.keys ∪ (a :: as).toFinset := by
        rw [Finset.union_assoc, List.toFinset_cons, Finset.insert_eq]

theorem Later.prefix_atoms (h : c.Later d) : c.atoms <+: d.atoms := by
  induction h with
  | refl => exact List.prefix_rfl
  | @intern d a _ ih => exact ih.trans (d.prefix_insert a)
  | @parse d text _ ih => exact ih.trans (Condition.keeps_of_parseWith d text).1

end Cache

/-! ## Atoms that lexemes complete -/

/-- The atoms that lexemes complete, layout left out. The word `defined` asks about the name behind
it, which stands alone or in parentheses; where one of these is still missing, nothing is complete.
Any other name is a bare atom, unless it is a reserved word. -/
def Lexeme.completedAtoms : List Lexeme → List Atom
  | [] => []
  | .identifier "defined" :: .identifier asked :: ls => .defined asked :: completedAtoms ls
  | .identifier "defined" :: .symbol .opening :: .identifier asked :: .symbol .closing :: ls =>
    .defined asked :: completedAtoms ls
  | .identifier "defined" :: _ => []
  | .identifier name :: ls =>
    if name ∈ reserved then completedAtoms ls else .bare name :: completedAtoms ls
  | _ :: ls => completedAtoms ls

open Lexeme (completedAtoms)

/-- The lexemes of a question that has been begun and not been ended. -/
def Mode.question : Mode → List Lexeme
  | .operand => []
  | .keyword => [.identifier "defined"]
  | .opened => [.identifier "defined", .symbol .opening]
  | .named name => [.identifier "defined", .symbol .opening, .identifier name]
  | .value _ => []

theorem completedAtoms_question (m : Mode) : completedAtoms m.question = [] := by
  cases m <;> rfl

@[simp] theorem completedAtoms_symbol (which : Symbol) (ls : List Lexeme) :
    completedAtoms (.symbol which :: ls) = completedAtoms ls := by
  simp [completedAtoms]

@[simp] theorem completedAtoms_number (numeral : String) (ls : List Lexeme) :
    completedAtoms (.number numeral :: ls) = completedAtoms ls := by
  simp [completedAtoms]

@[simp] theorem completedAtoms_true (ls : List Lexeme) :
    completedAtoms (.identifier "true" :: ls) = completedAtoms ls := by
  simp [completedAtoms, reserved]

@[simp] theorem completedAtoms_false (ls : List Lexeme) :
    completedAtoms (.identifier "false" :: ls) = completedAtoms ls := by
  simp [completedAtoms, reserved]

theorem completedAtoms_bare {name : String} (h : name ∉ reserved) (ls : List Lexeme) :
    completedAtoms (.identifier name :: ls) = .bare name :: completedAtoms ls := by
  have hdefined : name ≠ "defined" := by
    rintro rfl
    exact h (by decide)
  simp [completedAtoms, hdefined, h]

/-- The lexemes of a phrase complete the atoms of its condition, whatever follows. -/
theorem Derives.completedAtoms_append {s : Stratum} {ls : List Lexeme} {f : Condition}
    (h : Derives s ls f) (rest : List Lexeme) :
    completedAtoms (ls ++ rest) = f.atoms ++ completedAtoms rest := by
  induction h generalizing rest with
  | disjunction _ _ ihf ihg =>
    rw [List.append_assoc, ihf, List.cons_append, completedAtoms_symbol, ihg, Formula.atoms,
      List.append_assoc]
  | ofConjunction _ ih => exact ih rest
  | conjunction _ _ ihf ihg =>
    rw [List.append_assoc, ihf, List.cons_append, completedAtoms_symbol, ihg, Formula.atoms,
      List.append_assoc]
  | ofNegation _ ih => exact ih rest
  | negation _ ih =>
    rw [List.cons_append, completedAtoms_symbol, ih, Formula.atoms]
  | ofPrimary _ ih => exact ih rest
  | group _ ih =>
    rw [List.cons_append, List.cons_append, completedAtoms_symbol, List.append_assoc, ih,
      List.cons_append, completedAtoms_symbol, List.nil_append]
  | number _ => exact completedAtoms_number _ rest
  | wordTrue => exact completedAtoms_true rest
  | wordFalse => exact completedAtoms_false rest
  | defined => rfl
  | definedGroup => rfl
  | bare hname => exact completedAtoms_bare hname rest

/-! ## Reading lexemes -/

namespace Parser

variable {p q : Parser} {c d : Cache} {l : Lexeme} {ls : List Lexeme}

theorem insertAll_stepValue {f : Formula Interned} (h : p.stepValue c f l = .ok (q, d)) :
    c.insertAll (completedAtoms (l :: ls)) =
      d.insertAll (completedAtoms (q.mode.question ++ ls)) := by
  unfold stepValue at h
  split at h
  case h_1 => cases h; exact congrArg _ (completedAtoms_symbol _ ls)
  case h_2 => cases h; exact congrArg _ (completedAtoms_symbol _ ls)
  case h_3 => cases h; exact congrArg _ (completedAtoms_symbol _ ls)
  case h_4 => cases h

theorem insertAll_stepOperand (hm : p.mode = .operand) (h : p.stepOperand c l = .ok (q, d)) :
    c.insertAll (completedAtoms (l :: ls)) =
      d.insertAll (completedAtoms (q.mode.question ++ ls)) := by
  unfold stepOperand at h
  split at h
  case h_1 => cases h; rfl
  case h_2 =>
    cases h
    exact congrArg _ (completedAtoms_true ls)
  case h_3 =>
    cases h
    exact congrArg _ (completedAtoms_false ls)
  case h_4 name hd ht hf =>
    cases h
    have hname : name ∉ reserved := by
      simp only [reserved, List.mem_cons, List.not_mem_nil, or_false, not_or]
      exact ⟨hd, ht, hf⟩
    rw [completedAtoms_bare hname]
    rfl
  case h_5 =>
    cases h
    exact congrArg _ (completedAtoms_number _ ls)
  case h_6 =>
    cases h
    rw [completedAtoms_symbol, hm]
    rfl
  case h_7 =>
    cases h
    exact congrArg _ (completedAtoms_symbol _ ls)
  case h_8 => cases h

/-- A step adds the atom that its lexeme completes, if it completes one. -/
theorem insertAll_step (h : p.step c l = .ok (q, d)) (ls : List Lexeme) :
    c.insertAll (completedAtoms (p.mode.question ++ l :: ls)) =
      d.insertAll (completedAtoms (q.mode.question ++ ls)) := by
  unfold step at h
  split at h
  case h_1 hm =>
    rw [hm]
    exact insertAll_stepOperand hm h
  case h_2 hm =>
    rw [hm]
    unfold stepKeyword at h
    split at h
    case h_1 => cases h; rfl
    case h_2 => cases h; rfl
    case h_3 => cases h
  case h_3 hm =>
    rw [hm]
    unfold stepOpened at h
    split at h
    case h_1 => cases h; rfl
    case h_2 => cases h
  case h_4 hm =>
    rw [hm]
    unfold stepNamed at h
    split at h
    case h_1 => cases h; rfl
    case h_2 => cases h
  case h_5 hm =>
    rw [hm]
    exact insertAll_stepValue h

/-- Reading lexemes adds the atoms that they complete together with a question begun before. -/
theorem insertAll_of_reaches (h : Reaches p c ls q d) :
    c.insertAll (completedAtoms (p.mode.question ++ ls)) = d := by
  induction h with
  | nil => rw [List.append_nil, completedAtoms_question]; rfl
  | cons hs _ ih => rw [insertAll_step hs, ih]

/-- A condition is read by a run over all tokens. -/
theorem reaches_of_run {text : String} {ts : List Token} {f : Formula Interned}
    (h : (p.run text c ts).1 = .ok f) :
    ∃ q, Reaches p c (ts.map Token.lexeme) q (p.run text c ts).2 := by
  induction ts generalizing p c with
  | nil => exact ⟨p, .nil⟩
  | cons t ts ih =>
    rw [run] at h ⊢
    split at h
    case h_1 => cases h
    case h_2 q d hs =>
      obtain ⟨r, hr⟩ := ih h
      exact ⟨r, .cons hs hr⟩

end Parser

/-! ## Tokens before a place -/

namespace Token

open Lexeme (Separated spelled)

/-- The tokens before a place; all of them, if there is no place. -/
def before : Option Nat → List Token → List Token
  | none, ts => ts
  | some position, ts => ts.filter fun t => decide (t.position < position)

theorem le_position_of_mem_placed {position : Nat} {ls : List Lexeme} {t : Token}
    (h : t ∈ placed position ls) : position ≤ t.position := by
  induction ls generalizing position with
  | nil => cases h
  | cons l ls ih =>
    rw [placed, List.mem_cons] at h
    rcases h with rfl | h
    · exact le_rfl
    · exact (Nat.le_add_right _ _).trans (ih h)

/-- Tokens stand one behind the other. -/
theorem pairwise_placed {ls : List Lexeme} (h : Separated ls) (position : Nat) :
    (placed position ls).Pairwise fun t u => t.position < u.position := by
  induction ls generalizing position with
  | nil => exact .nil
  | cons l ls ih =>
    obtain ⟨hw, he, hls⟩ := h
    have hf : Lexeme.front? (spelled (l :: ls)) = some (l, spelled ls) :=
      Lexeme.front?_eq_some_iff.2 ⟨hw, he, rfl⟩
    have hl : 0 < l.length := by
      rw [Lexeme.length, ← String.length_toList]
      exact List.length_pos_iff.2 (Lexeme.spelling_ne_nil hf)
    refine .cons (fun u hu => ?_) (ih hls _)
    have hle := le_position_of_mem_placed hu
    exact (Nat.lt_add_of_pos_right hl).trans_le hle

theorem before_of_split {before after : List Token} {t : Token}
    (h : (before ++ t :: after).Pairwise fun t u => t.position < u.position) :
    Token.before (some t.position) (before ++ t :: after) = before := by
  rw [List.pairwise_append, List.pairwise_cons] at h
  obtain ⟨-, ⟨hafter, -⟩, hbefore⟩ := h
  have hkept : before.filter (fun u => decide (u.position < t.position)) = before :=
    List.filter_eq_self.2 fun u hu => decide_eq_true (hbefore u hu t List.mem_cons_self)
  have hleft : (t :: after).filter (fun u => decide (u.position < t.position)) = [] := by
    rw [List.filter_eq_nil_iff]
    intro u hu
    rw [decide_eq_true_eq, Nat.not_lt]
    rcases List.mem_cons.1 hu with rfl | hu
    · exact le_rfl
    · exact (hafter u hu).le
  rw [Token.before, List.filter_append, hkept, hleft, List.append_nil]

end Token

/-! ## Reading texts -/

namespace Condition

theorem pairwise_significant {text : String} {ts : List Token} (h : tokens text = .ok ts) :
    (Token.significant ts).Pairwise fun t u => t.position < u.position := by
  obtain ⟨ls, hs, -, rfl⟩ := tokens_eq_ok_iff.1 h
  exact (Token.pairwise_placed hs 0).filter _

theorem insertAll_of_ok {cache : Cache} {text : String} {f : Formula Interned}
    (h : (parseWith cache text).1 = .ok f) :
    (parseWith cache text).2 = cache.insertAll (f.map Interned.atom).atoms := by
  obtain ⟨ts, ht, hd⟩ := says_of_parseWith h
  by_cases hne : Token.significant ts = []
  · rw [parseWith, ht] at h
    simp only [hne] at h
    cases h
  · rw [parseWith_of_tokens ht cache hne] at h ⊢
    obtain ⟨q, hq⟩ := Parser.reaches_of_run h
    have hcompleted := hd.completedAtoms_append []
    rw [List.append_nil, completedAtoms, List.append_nil] at hcompleted
    rw [← hcompleted]
    exact (Parser.insertAll_of_reaches hq).symm

theorem insertAll_of_error {cache : Cache} {text : String} {ts : List Token} {fault : SyntaxError}
    (ht : tokens text = .ok ts) (h : (parseWith cache text).1 = .error fault) :
    (parseWith cache text).2 = cache.insertAll
      (completedAtoms ((Token.before fault.position (Token.significant ts)).map Token.lexeme)) := by
  by_cases hne : Token.significant ts = []
  · rw [parseWith, ht] at h ⊢
    simp only [hne] at h ⊢
    cases h
    rfl
  · rw [parseWith_of_tokens ht cache hne] at h ⊢
    rcases Parser.fault_of_run h with ⟨q, d, cause, hq, hf, rfl⟩ |
      ⟨before, t, after, q, d, cause, hts, hq, hs, rfl⟩
    · have hrun := @Parser.run_of_reaches _ _ _ _ text _ [] hq
      rw [List.append_nil, Parser.run] at hrun
      rw [hrun]
      exact (Parser.insertAll_of_reaches hq).symm
    · have hpairwise := pairwise_significant ht
      rw [hts] at hpairwise ⊢
      rw [Token.before_of_split hpairwise, Parser.run_of_reaches hq, Parser.run, hs]
      exact (Parser.insertAll_of_reaches hq).symm

/-- Reading a text leaves the copies of the cache as they are. If it is a condition, the keys that
are added are its atoms, and its copies are what asking the cache for their atoms gives; so in it
and in whatever is read later, equal atoms are the same copy. If it cannot be cut into tokens, the
cache stays as it is. If its tokens are no condition, the keys that are added are the atoms that the
tokens before the fault complete. The cache has as many entries as keys. -/
theorem cache_after_parseWith (cache : Cache) (text : String) :
    (∀ a ∈ cache.atoms, ((parseWith cache text).2.intern a).1 = (cache.intern a).1) ∧
    (∀ f, (parseWith cache text).1 = .ok f →
      (parseWith cache text).2.keys = cache.keys ∪ (f.map Interned.atom).atoms.toFinset ∧
      (∀ x ∈ f.atoms,
        (parseWith cache text).2.intern x.atom = (x, (parseWith cache text).2)) ∧
      ∀ d text' g, (parseWith cache text).2.Later d → (parseWith d text').1 = .ok g →
        ∀ x ∈ f.atoms ++ g.atoms, ∀ y ∈ f.atoms ++ g.atoms, x.atom = y.atom → x = y) ∧
    (∀ fault, tokens text = .error fault → parseWith cache text = (.error fault, cache)) ∧
    (∀ ts fault, tokens text = .ok ts → (parseWith cache text).1 = .error fault →
      (parseWith cache text).2.keys = cache.keys ∪ (completedAtoms
        ((Token.before fault.position (Token.significant ts)).map Token.lexeme)).toFinset) ∧
    (parseWith cache text).2.size = (parseWith cache text).2.keys.card := by
  obtain ⟨hgrows, hkeeps⟩ := keeps_of_parseWith cache text
  refine ⟨?_, ?_, ?_, ?_, Cache.size_eq_card_keys _⟩
  · intro a ha
    have hkept := (Cache.keeps_intern ha).mono hgrows
    have hasked := congrArg Prod.fst hkept.intern_eq
    exact hasked
  · intro f hf
    refine ⟨by rw [insertAll_of_ok hf, Cache.keys_insertAll],
      fun x hx => (hkeeps f hf x hx).intern_eq, ?_⟩
    intro d text' g hd hg x hx y hy hxy
    obtain ⟨hgrows', hkeeps'⟩ := keeps_of_parseWith d text'
    have hall : ∀ z ∈ f.atoms ++ g.atoms, (parseWith d text').2.Keeps z := by
      intro z hz
      rcases List.mem_append.1 hz with hz | hz
      · exact (hkeeps f hf z hz).mono (hd.prefix_atoms.trans hgrows')
      · exact hkeeps' g hg z hz
    exact (hall x hx).eq_of_atom_eq (hall y hy) hxy
  · intro fault hfault
    rw [parseWith, hfault]
  · intro ts fault ht hfault
    rw [insertAll_of_error ht hfault, Cache.keys_insertAll]

example : (parseWith .empty "A || defined(B) && !(defined C && defined(D").2.atoms =
    [.bare "A", .defined "B", .defined "C"] := by
  decide +kernel

end Condition

end Conditionals
