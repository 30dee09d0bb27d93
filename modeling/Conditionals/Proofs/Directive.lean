/-
Conditionals.Proofs.Directive — directives and the white space around them.

* `Text.Trimmed` — texts without white space at their ends: those that
  stripping leaves as they are, and that it makes;
* `Text.strip_around`, `Text.exists_around_strip` — stripping takes off the
  white space around such a text and nothing else;
* `Directive.LongestKeyword` — the directive whose keyword a line begins
  with, where none with a longer keyword fits;
* `Directive.classify_eq_some_iff`, `Directive.classify_eq_none_iff` — this
  is the directive a line is taken for, and its payload is the rest of the
  line without white space at the ends;
* `Directive.classify_ifTrue`, `Directive.classify_endIf` — a written
  directive is taken for itself.
-/
import Mathlib.Data.List.DropRight
import Conditionals.Directive
import Conditionals.Proofs.Token.Classes

namespace Conditionals

/-! ## Stripping -/

namespace Text

variable {cs ds ms blanks : List Char}

/-- No white space stands at either end. -/
structure Trimmed (cs : List Char) : Prop where
  head : cs.head?.any isBlank = false
  last : cs.getLast?.any isBlank = false

theorem stripEnd_prefix (cs : List Char) : stripEnd cs <+: cs :=
  List.rdropWhile_prefix isBlank cs

theorem trimmed_strip (cs : List Char) : Trimmed (strip cs) := by
  constructor
  · -- What is left begins as the text does behind its blanks.
    obtain ⟨rest, hrest⟩ := stripEnd_prefix (cs.dropWhile isBlank)
    have hhead := head_dropWhile isBlank cs
    cases hs : strip cs with
    | nil => rfl
    | cons c tail =>
      rw [← hrest, show stripEnd (cs.dropWhile isBlank) = c :: tail from hs] at hhead
      exact hhead
  · rw [strip, stripEnd, List.getLast?_reverse]
    exact head_dropWhile isBlank _

theorem Trimmed.strip_eq (h : Trimmed cs) : strip cs = cs := by
  have hlast : cs.reverse.head?.any isBlank = false := by
    rw [List.head?_reverse]
    exact h.last
  rw [strip, dropWhile_of_head h.head, stripEnd, dropWhile_of_head hlast, List.reverse_reverse]

/-- White space in front of a text is stripped off. -/
theorem strip_prepend (h : ∀ c ∈ blanks, isBlank c = true) : strip (blanks ++ cs) = strip cs := by
  rw [strip, strip, List.dropWhile_append_of_pos h]

theorem strip_space_cons (cs : List Char) : strip (' ' :: cs) = strip cs := rfl

theorem stripEnd_append (h : ∀ c ∈ blanks, isBlank c = true) :
    stripEnd (cs ++ blanks) = stripEnd cs := by
  have hblanks : blanks.reverse.dropWhile isBlank = [] := by
    rw [List.dropWhile_eq_nil_iff]
    exact fun c hc => h c (List.mem_reverse.1 hc)
  rw [stripEnd, List.reverse_append, List.dropWhile_append, hblanks]
  rfl

/-- White space behind a text is stripped off. -/
theorem strip_append (h : ∀ c ∈ blanks, isBlank c = true) : strip (cs ++ blanks) = strip cs := by
  rw [strip, strip, List.dropWhile_append]
  split
  next hcs =>
    -- All of the text is white space.
    have hblanks : blanks.dropWhile isBlank = [] := List.dropWhile_eq_nil_iff.2 h
    rw [hblanks, List.isEmpty_iff.1 hcs]
  next => exact stripEnd_append h

/-- White space around a text is stripped off, and no more than that. -/
theorem strip_around {before after : List Char} (hb : ∀ c ∈ before, isBlank c = true)
    (ha : ∀ c ∈ after, isBlank c = true) (h : Trimmed cs) :
    strip (before ++ cs ++ after) = cs := by
  rw [strip_append ha, strip_prepend hb, h.strip_eq]

/-- No white space stands behind a text without white space at its end. -/
theorem Trimmed.eq_nil_of_append (h : Trimmed (cs ++ blanks))
    (hblanks : ∀ c ∈ blanks, isBlank c = true) : blanks = [] := by
  by_contra hne
  have hlast := h.last
  rw [List.getLast?_append_of_ne_nil _ hne, List.getLast?_eq_some_getLast hne, Option.any_some,
    hblanks _ (List.getLast_mem hne)] at hlast
  cases hlast

/-- What is stripped off a text is white space. -/
theorem exists_around_strip (cs : List Char) :
    ∃ before after, (∀ c ∈ before, isBlank c = true) ∧ (∀ c ∈ after, isBlank c = true) ∧
      cs = before ++ strip cs ++ after := by
  refine ⟨cs.takeWhile isBlank, (cs.dropWhile isBlank).rtakeWhile isBlank,
    fun _ => List.mem_takeWhile_imp, fun _ => List.mem_rtakeWhile_imp, ?_⟩
  have hend : strip cs ++ (cs.dropWhile isBlank).rtakeWhile isBlank = cs.dropWhile isBlank :=
    List.rdropWhile_append_rtakeWhile
  rw [List.append_assoc, hend, List.takeWhile_append_dropWhile]

theorem trimmed_of_forall (h : ∀ c ∈ cs, isBlank c = false) : Trimmed cs := by
  constructor
  · cases hc : cs.head? with
    | none => rfl
    | some c => exact h c (List.mem_of_head? hc)
  · cases hc : cs.getLast? with
    | none => rfl
    | some c => exact h c (List.mem_of_getLast? hc)

/-- The ends decide, whatever stands between them. -/
theorem Trimmed.around (hc : Trimmed cs) (hd : Trimmed ds) (hcs : cs ≠ []) (hds : ds ≠ []) :
    Trimmed (cs ++ ms ++ ds) := by
  constructor
  · rw [List.append_assoc, List.head?_append_of_ne_nil _ hcs]
    exact hc.head
  · rw [List.getLast?_append_of_ne_nil _ hds]
    exact hd.last

theorem trimmed_between {c d : Char} (hc : isBlank c = false) (hd : isBlank d = false) :
    Trimmed ([c] ++ ms ++ [d]) :=
  Trimmed.around ⟨hc, hc⟩ ⟨hd, hd⟩ (List.cons_ne_nil _ _) (List.cons_ne_nil _ _)

/-! ### Blanks and the characters of tokens -/

theorem isBlank_of_isLayout {c : Char} (h : isLayout c = true) : isBlank c = true := by
  rw [isLayout_iff] at h
  simp only [isBlank, Bool.or_eq_true, Bool.and_eq_true, decide_eq_true_eq, beq_iff_eq]
  omega

theorem isBlank_eq_false_of_isWord {c : Char} (h : isWord c = true) : isBlank c = false := by
  rw [isWord_iff] at h
  rw [← Bool.not_eq_true]
  simp only [isBlank, Bool.or_eq_true, Bool.and_eq_true, decide_eq_true_eq, beq_iff_eq]
  omega

end Text

/-! ## Classifying lines -/

namespace Directive

open Text (Trimmed)

variable {line : String} {s : List Char} {d e : Directive}

theorem mem_all (d : Directive) : d ∈ all := by
  cases d <;> decide

/-- No keyword begins the keyword of a later directive. -/
theorem pairwise_all : all.Pairwise fun d e => ¬ d.keyword.toList <+: e.keyword.toList := by
  decide

theorem keyword_injective : Function.Injective keyword := by
  intro d e h
  cases d <;> cases e <;> first | rfl | exact absurd h (by decide)

/-- The text begins with the keyword of a directive, and with no longer keyword. -/
structure LongestKeyword (d : Directive) (s : List Char) : Prop where
  begins : d.keyword.toList <+: s
  longest : ∀ e : Directive, e.keyword.toList <+: s → e.keyword.length ≤ d.keyword.length

theorem LongestKeyword.unique (hd : LongestKeyword d s) (he : LongestKeyword e s) : d = e := by
  have hlength : d.keyword.toList.length = e.keyword.toList.length := by
    rw [String.length_toList, String.length_toList]
    exact Nat.le_antisymm (he.longest d hd.begins) (hd.longest e he.begins)
  have hbegins : d.keyword.toList <+: e.keyword.toList :=
    List.prefix_of_prefix_length_le hd.begins he.begins hlength.le
  exact keyword_injective (String.toList_injective (hbegins.eq_of_length hlength))

theorem payload?_eq_none_iff : d.payload? s = none ↔ ¬ d.keyword.toList <+: s := by
  rw [← List.isPrefixOf_iff_prefix, payload?]
  split <;> simp_all

theorem payload?_eq_some_iff {payload : String} :
    d.payload? s = some payload ↔
      d.keyword.toList <+: s ∧ String.ofList (Text.strip (s.drop d.keyword.length)) = payload := by
  rw [← List.isPrefixOf_iff_prefix, payload?]
  split <;> simp_all

theorem classify_eq_none_iff :
    classify line = none ↔ ∀ d : Directive, ¬ d.keyword.toList <+: Text.strip line.toList := by
  simp [classify, List.findSome?_eq_none_iff, payload?_eq_none_iff, mem_all]

/-- The directive that is found first is the one with the longest keyword, since its keyword begins
none of those behind it. -/
theorem of_classify {payload : String} (h : classify line = some (d, payload)) :
    LongestKeyword d (Text.strip line.toList) ∧
      String.ofList (Text.strip ((Text.strip line.toList).drop d.keyword.length)) = payload := by
  obtain ⟨before, d', after, hall, hd, hbefore⟩ := List.findSome?_eq_some_iff.1 h
  obtain ⟨p, hp, heq⟩ := Option.map_eq_some_iff.1 hd
  cases heq
  obtain ⟨hbegins, hpayload⟩ := payload?_eq_some_iff.1 hp
  refine ⟨⟨hbegins, fun e he => ?_⟩, hpayload⟩
  have hmem := mem_all e
  have hpairwise := pairwise_all
  rw [hall] at hmem hpairwise
  rcases List.mem_append.1 hmem with hfront | hback
  · -- It would have been found before.
    have hnone := Option.map_eq_none_iff.1 (hbefore e hfront)
    exact absurd he (payload?_eq_none_iff.1 hnone)
  · rcases List.mem_cons.1 hback with rfl | hback
    · exact Nat.le_refl _
    · -- If it were longer, it would begin with the keyword that has been found.
      have hnot := (List.pairwise_cons.1 (List.pairwise_append.1 hpairwise).2.1).1 e hback
      rw [← String.length_toList, ← String.length_toList]
      refine Nat.le_of_not_le fun hle => hnot ?_
      exact List.prefix_of_prefix_length_le hbegins he hle

/-- A line is taken for the directive with the longest keyword that it begins with, and the payload
is what follows the keyword, without the white space at its ends. -/
theorem classify_eq_some_iff {payload : String} :
    classify line = some (d, payload) ↔
      LongestKeyword d (Text.strip line.toList) ∧ Trimmed payload.toList ∧
        ∃ gap, (∀ c ∈ gap, Text.isBlank c = true) ∧
          Text.strip line.toList = d.keyword.toList ++ gap ++ payload.toList := by
  constructor
  · intro h
    obtain ⟨hlongest, rfl⟩ := of_classify h
    obtain ⟨rest, hrest⟩ := hlongest.begins
    obtain ⟨gap, after, hgap, hafter, heq⟩ := Text.exists_around_strip rest
    -- Nothing stands behind the payload, since the whole line has been stripped.
    have htrimmed := Text.trimmed_strip line.toList
    rw [← hrest, heq, ← List.append_assoc] at htrimmed
    obtain rfl := htrimmed.eq_nil_of_append hafter
    rw [List.append_nil] at heq
    refine ⟨hlongest, ?_, gap, hgap, ?_⟩
    · rw [String.toList_ofList]
      exact Text.trimmed_strip _
    · rw [← hrest, ← String.length_toList, List.drop_left, String.toList_ofList,
        List.append_assoc, ← heq]
  · rintro ⟨hlongest, htrimmed, gap, hgap, hline⟩
    have hsome : classify line ≠ none := fun hnone =>
      classify_eq_none_iff.1 hnone d hlongest.begins
    obtain ⟨⟨d', payload'⟩, h⟩ := Option.ne_none_iff_exists'.1 hsome
    obtain ⟨hlongest', rfl⟩ := of_classify h
    obtain rfl := hlongest.unique hlongest'
    have hgap' := @Text.strip_around _ gap [] hgap nofun htrimmed
    rw [List.append_nil] at hgap'
    rw [h, hline, ← String.length_toList, List.append_assoc, List.drop_left, hgap',
      String.ofList_toList]

theorem trimmed_payload {payload : String} (h : classify line = some (d, payload)) :
    Trimmed payload.toList :=
  (classify_eq_some_iff.1 h).2.1

/-- A condition behind its keyword and a space is the payload of that keyword and of no longer
one. -/
theorem classify_ifTrue {t : String} (ht : Trimmed t.toList) (hne : t.toList ≠ []) :
    classify ("#if " ++ t) = some (.ifTrue, t) := by
  have hline : ("#if " ++ t).toList = '#' :: 'i' :: 'f' :: ' ' :: t.toList := by
    rw [String.toList_append]
    rfl
  have htrimmed : Trimmed ('#' :: 'i' :: 'f' :: ' ' :: t.toList) :=
    @Trimmed.around ['#'] t.toList ['i', 'f', ' '] ⟨rfl, rfl⟩ ht nofun hne
  have hpayload : String.ofList (Text.strip (' ' :: t.toList)) = t := by
    rw [Text.strip_space_cons, ht.strip_eq, String.ofList_toList]
  unfold classify
  rw [hline, htrimmed.strip_eq]
  change some (Directive.ifTrue, String.ofList (Text.strip (' ' :: t.toList))) = _
  rw [hpayload]

theorem classify_endIf : classify "#endif" = some (.endIf, "") := by
  decide

theorem classify_empty : classify "" = none := by
  decide

end Directive

end Conditionals
