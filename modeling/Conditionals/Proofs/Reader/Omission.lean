/-
Conditionals.Proofs.Reader.Omission — lines without a directive only count.

`LineSource.readBlocks_without` is the main statement: leaving out any lines
that have no directive moves the blocks of a file, or its error, to other
lines and changes nothing else.
-/
import Conditionals.Proofs.Reader.Renumbering

namespace Conditionals

/-! ## The lines that are left -/

/-- The number in the file of a line of what is left. -/
def originalLine (left : List (String × Nat)) (line : Int) : Int :=
  match left[(line - 1).toNat]? with
  | some entry => entry.2
  | none => line

variable {left : List (String × Nat)}

theorem originalLine_of_getElem? {i : Nat} {entry : String × Nat} (h : left[i]? = some entry) :
    originalLine left (i + 1) = entry.2 := by
  have hi : ((i : Int) + 1 - 1).toNat = i := by omega
  rw [originalLine, hi, h]

/-- The lines that are left keep their order. -/
theorem pairwise_linesWithout (chosen : Nat → Bool) (number : Nat) (lines : List String) :
    (linesWithout chosen number lines).Pairwise fun d e => d.2 < e.2 := by
  refine List.Pairwise.filter _ ?_
  rw [← List.pairwise_map, List.zipIdx_map_snd]
  exact List.pairwise_lt_range'

/-- A line that is left stands in the file under its number. -/
theorem getElem?_of_mem_linesWithout {chosen : Nat → Bool} {lines : List String}
    {entry : String × Nat} (h : entry ∈ linesWithout chosen 1 lines) :
    1 ≤ entry.2 ∧ lines[entry.2 - 1]? = some entry.1 :=
  List.mk_mem_zipIdx_iff_le_and_getElem?_sub.1 (List.mem_filter.1 h).1

namespace LineSource

/-- Reading a file comes to the same as reading it without any of its lines that have no directive:
the same blocks, or the same error, on the lines that those of what is left have in the file. -/
theorem readBlocks_without (name path : Option String) (lines : List String)
    (chosen : Nat → Bool) :
    let left := linesWithout chosen 1 lines
    (∀ i j : Nat, i < j → j < left.length →
      originalLine left (i + 1) < originalLine left (j + 1)) ∧
    (∀ (i : Nat) (text : String), (left.map Prod.fst)[i]? = some text →
      ∃ index : Nat, originalLine left (i + 1) = index + 1 ∧ lines[index]? = some text) ∧
    ((ofLines name lines).readBlocks path).result =
      (((ofLines name (left.map Prod.fst)).readBlocks path).result.map
        (Block.renumberAll (originalLine left))).mapError
          (ReadError.renumber (originalLine left)) := by
  intro left
  refine ⟨?_, ?_, ?_⟩
  · intro i j hij hj
    have hi : i < left.length := by omega
    have hlt : left[i].2 < left[j].2 :=
      List.pairwise_iff_getElem.1 (pairwise_linesWithout chosen 1 lines) i j hi hj hij
    rw [originalLine_of_getElem? (List.getElem?_eq_getElem hi),
      originalLine_of_getElem? (List.getElem?_eq_getElem hj)]
    omega
  · intro i text htext
    rw [List.getElem?_map, Option.map_eq_some_iff] at htext
    obtain ⟨entry, hentry, rfl⟩ := htext
    obtain ⟨hpos, hat⟩ := getElem?_of_mem_linesWithout (List.mem_of_getElem? hentry)
    refine ⟨entry.2 - 1, ?_, hat⟩
    rw [originalLine_of_getElem? hentry]
    omega
  · have hstart : Session.Follows (.start (path <|> name) .empty) (originalLine left)
        (.start (path <|> name) .empty) (.start (path <|> name) .empty) :=
      Session.follows_start rfl rfl _ _
    have hnumbers : ∀ (i : Nat) (entry : String × Nat), left[i]? = some entry →
        originalLine left (1 + i) = entry.2 := by
      intro i entry hi
      rw [Int.add_comm]
      exact originalLine_of_getElem? hi
    have hlines := hstart.readLines hnumbers
    rw [result_ofLines, result_ofLines]
    exact hlines.conclude

end LineSource

end Conditionals
