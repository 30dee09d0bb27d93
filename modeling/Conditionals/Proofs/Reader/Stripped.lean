/-
Conditionals.Proofs.Reader.Stripped — a line is read without the white space
at its ends.

* `Directive.classify_congr` — stripping a line decides which directive it is
  taken for;
* `Session.readLines_congr` — so lines with the same stripped texts are read
  alike, errors, reports and line numbers included;
* `LineSource.read_by_keywords` — the keyword that decides is the longest
  one, and files with the same stripped lines are read alike.
-/
import Conditionals.Proofs.Directive
import Conditionals.Reader.Source
import Mathlib.Data.List.Forall2

namespace Conditionals

/-! ## Lines -/

/-- Two lines are the same text between the white space at their ends. -/
def SameStripped (line other : String) : Prop :=
  Text.strip line.toList = Text.strip other.toList

instance : DecidableRel SameStripped :=
  fun line other => inferInstanceAs (Decidable (Text.strip line.toList = Text.strip other.toList))

theorem Directive.classify_congr {line other : String} (h : SameStripped line other) :
    classify line = classify other := by
  rw [classify, classify, h]

namespace Session

variable {s : Session} {n : Int} {lines others : List String}

theorem readLine_congr {line other : String} (h : SameStripped line other) :
    s.readLine n line = s.readLine n other := by
  rw [readLine, readLine, Directive.classify_congr h]

/-- Lines that are stripped to the same texts are read alike. -/
theorem readLines_congr (h : List.Forall₂ SameStripped lines others) :
    s.readLines n lines = s.readLines n others := by
  induction h generalizing s n with
  | nil => rfl
  | cons hline _ ih => simp only [readLines, readLine_congr hline, ih]

/-- An empty line behind the others changes nothing. -/
theorem readLines_append_empty : s.readLines n (lines ++ [""]) = s.readLines n lines := by
  induction lines generalizing s n with
  | nil => simp only [List.nil_append, readLines, readLine, Directive.classify_empty]
  | cons line lines ih => simp only [List.cons_append, readLines, ih]

end Session

/-! ## Files -/

namespace LineSource

open Directive (LongestKeyword classify)
open Text (Trimmed isBlank)

/-- A file is read alike if other lines with the same stripped texts are put in. -/
theorem readAll_congr {source : LineSource} {s : Session} {others : List String}
    (h : List.Forall₂ SameStripped source.lines others) :
    { source with lines := others }.readAll s = source.readAll s := by
  rw [readAll, readAll, Session.readLines_congr h]

/-- A line, without the white space at its ends, is a directive if it begins with a keyword. The
longest such keyword says which one, and the payload is what follows it, again without the white
space at its ends. So the blocks that a file is read into, its errors and its reports remain the
same if each line is replaced by one with the same stripped text. -/
theorem read_by_keywords :
    (∀ line : String, ∃ before s after, Text.strip line.toList = s ∧
      line.toList = before ++ s ++ after ∧ (∀ c ∈ before, isBlank c = true) ∧
      (∀ c ∈ after, isBlank c = true) ∧ Trimmed s ∧
      (classify line = none ↔ ∀ d : Directive, ¬ d.keyword.toList <+: s) ∧
      ∀ d payload, classify line = some (d, payload) ↔
        LongestKeyword d s ∧ Trimmed payload.toList ∧ ∃ gap, (∀ c ∈ gap, isBlank c = true) ∧
          s = d.keyword.toList ++ gap ++ payload.toList) ∧
    ∀ (source : LineSource) (others : List String) (path : Option String) (cache : Cache),
      List.Forall₂ SameStripped source.lines others →
      ({ source with lines := others }.read path cache).result = (source.read path cache).result ∧
      ({ source with lines := others }.read path cache).session =
        (source.read path cache).session := by
  constructor
  · intro line
    obtain ⟨before, after, hbefore, hafter, hline⟩ := Text.exists_around_strip line.toList
    exact ⟨before, Text.strip line.toList, after, rfl, hline, hbefore, hafter, Text.trimmed_strip _,
      Directive.classify_eq_none_iff, fun _ _ => Directive.classify_eq_some_iff⟩
  · intro source others path cache h
    rw [read, read, readAll_congr h]
    exact ⟨rfl, rfl⟩

/-- A file with white space around its directives, and none in front of a name. -/
theorem read_by_keywords_indented :
    List.Forall₂ SameStripped ["#ifdefA", "#endif"] ["\t #ifdefA \r\n", "\u3000#endif\u00A0"] ∧
      ((ofLines none ["\t #ifdefA \r\n", "\u3000#endif\u00A0"]).read none
          .empty).session.log.map LogEntry.message =
        ["Line 1: opening block with defined(A)", "Line 2: closing block opened at 1",
          "Found 1 top-level blocks in None"] := by
  have hsame : List.Forall₂ SameStripped ["#ifdefA", "#endif"]
      ["\t #ifdefA \r\n", "\u3000#endif\u00A0"] :=
    .cons (by decide) (.cons (by decide) .nil)
  obtain ⟨-, hsession⟩ := read_by_keywords.2 (ofLines none ["#ifdefA", "#endif"]) _ none .empty hsame
  refine ⟨hsame, ?_⟩
  rw [show ofLines none ["\t #ifdefA \r\n", "\u3000#endif\u00A0"] =
    { ofLines none ["#ifdefA", "#endif"] with
      lines := ["\t #ifdefA \r\n", "\u3000#endif\u00A0"] } from rfl, hsession]
  decide +kernel

end LineSource

end Conditionals
