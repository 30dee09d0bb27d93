/-
Conditionals.Proofs.Disk.Extract — the blocks of a file are those of its
lines, whatever line ends it has.

* `LinedText.readLines_text` — the lines that a text is cut into are read as
  its lines without their ends are, line numbers included;
* `Disk.extract_text` — a file made of lines and line ends has the blocks of
  the lines, or fails as they do;
* `Disk.extract_whatever_ends` — with one line end for another a file has the
  same blocks.
-/
import Conditionals.Disk.Extract
import Conditionals.Proofs.Reader.Renumbering
import Conditionals.Proofs.Reader.Stripped
import Conditionals.Proofs.Text.LineEnds
import Conditionals.Proofs.Text.Utf8

namespace Conditionals

/-! ## Lines with their ends -/

theorem LineEnd.isBlank_of_mem_chars {e : LineEnd} {c : Char} (h : c ∈ e.chars) :
    Text.isBlank c = true := by
  cases e with
  | lf =>
    obtain rfl := List.mem_singleton.1 h
    rfl
  | crlf =>
    rcases List.mem_pair.1 h with rfl | rfl
    · rfl
    · rfl
  | cr =>
    obtain rfl := List.mem_singleton.1 h
    rfl

theorem EndedLine.sameStripped (l : EndedLine) : SameStripped (.ofList l.chars) l.line := by
  rw [SameStripped, String.toList_ofList]
  exact Text.strip_append fun _ => LineEnd.isBlank_of_mem_chars

namespace LinedText

/-- The lines that a text is cut into are read as its lines without their ends are. -/
theorem readLines_text (t : LinedText) (s : Session) (n : Int) :
    s.readLines n ((Text.lines t.text.toList).map .ofList) = s.readLines n t.lines := by
  have hended : List.Forall₂ SameStripped (t.ended.map (.ofList ∘ EndedLine.chars))
      (t.ended.map (·.line)) := by
    rw [List.forall₂_map_left_iff, List.forall₂_map_right_iff, List.forall₂_same]
    exact fun l _ => l.sameStripped
  rw [lines_text, List.map_append, List.map_map]
  cases hlast : t.last with
  | none =>
    rw [LinedText.lines, hlast, Option.getD_none, String.toList_empty, Text.lines_nil, List.map_nil,
      Option.toList_none, List.append_nil, List.append_nil]
    exact Session.readLines_congr hended
  | some last =>
    have hunbroken : Text.Unbroken last.toList :=
      t.unbroken last (List.mem_append_right _ (by simp [hlast]))
    rw [LinedText.lines, hlast, Option.getD_some, Text.lines_unbroken hunbroken]
    split
    next hempty =>
      -- Behind the last line end nothing follows, where the lines have an empty one.
      obtain rfl : last = "" := String.toList_eq_nil_iff.1 hempty
      rw [List.map_nil, List.append_nil, Option.toList_some, Session.readLines_append_empty]
      exact Session.readLines_congr hended
    next =>
      refine Session.readLines_congr (List.rel_append hended (.cons ?_ .nil))
      rw [String.ofList_toList]
      rfl

end LinedText

/-! ## Files -/

/-- The lines of a text as they arrive from its bytes. -/
theorem LineSource.ofBytes_utf8 (name text : String) :
    ofBytes name .utf8 (Text.utf8 text) = ofLines name ((Text.lines text.toList).map .ofList) := by
  rw [ofBytes, Text.Encoding.decode_utf8]
  rfl

namespace Disk

variable {disk : Disk} {name : String}

/-- A disk with one file, `a.c`. -/
def single (text : String) : Disk :=
  ⟨[(["a.c"], .file (Text.utf8 text))]⟩

theorem find_single (text : String) :
    (single text).find "a.c" = .ok (.file (Text.utf8 text)) := by
  have hnull : "a.c".toList.contains '\x00' = false := by decide +kernel
  have hparts : "a.c".splitToList (· = '/') = ["a.c"] := by decide +kernel
  have hlocate : (single text).locate "a.c" = .ok (.inside [] "a.c" false) := by
    rw [locate, hnull, if_neg Bool.false_ne_true, if_neg (by decide +kernel),
      if_neg (by decide +kernel), hparts]
    rfl
  have hlookup : (single text).lookup ["a.c"] = some (.file (Text.utf8 text)) :=
    List.lookup_cons_self
  simp only [find, hlocate, bind, Except.bind, List.nil_append, hlookup]
  rw [if_neg (by decide +kernel)]

theorem openLines_of_find {text : String} (h : disk.find name = .ok (.file (Text.utf8 text))) :
    disk.openLines name "utf-8" =
      .ok (.ofLines name ((Text.lines text.toList).map .ofList)) := by
  have hencoding : Text.Encoding.named? "utf-8" = some .utf8 := by decide +kernel
  have hnull : "utf-8".toList.contains '\x00' = false := by decide
  rw [openLines, hnull, h, hencoding]
  exact congrArg Except.ok (LineSource.ofBytes_utf8 name text)

/-- A file made of lines and line ends has the blocks of the lines, or fails as they do. -/
theorem extract_text (t : LinedText) (h : disk.find name = .ok (.file (Text.utf8 t.text))) :
    disk.extract name "utf-8" =
      (((LineSource.ofLines none t.lines).readBlocks name).result.mapError .reading).map
        (⟨some name, ·⟩) := by
  have hresult : ((LineSource.ofLines name ((Text.lines t.text.toList).map .ofList)).readBlocks
      name).result = ((LineSource.ofLines none t.lines).readBlocks name).result := by
    rw [LineSource.result_ofLines, LineSource.result_ofLines, t.readLines_text]
    rfl
  rw [extract, openLines_of_find h]
  dsimp only
  rw [hresult]
  cases ((LineSource.ofLines none t.lines).readBlocks name).result <;> rfl

/-- Whatever line ends a file has, its blocks are those of its lines, or it fails as they do, with
the same line number. So a file without returns keeps its blocks if another line end is put for each
of its feeds. -/
theorem extract_whatever_ends (disk : Disk) (name : String) :
    (∀ t : LinedText, disk.find name = .ok (.file (Text.utf8 t.text)) →
      disk.extract name "utf-8" =
        (((LineSource.ofLines none t.lines).readBlocks name).result.mapError .reading).map
          (⟨some name, ·⟩)) ∧
    ∀ (text : String) (e : LineEnd) (other : Disk), '\r' ∉ text.toList →
      disk.find name = .ok (.file (Text.utf8 text)) →
      other.find name = .ok (.file (Text.utf8 (e.replaceFeeds text))) →
      other.extract name "utf-8" = disk.extract name "utf-8" := by
  refine ⟨extract_text, fun text e other hreturn hdisk hother => ?_⟩
  obtain ⟨lines, last, hunbroken, htext⟩ := LinedText.exists_replaceFeeds hreturn
  rw [← LineEnd.replaceFeeds_lf text, ← htext] at hdisk
  rw [← htext] at hother
  rw [extract_text _ hdisk, extract_text _ hother, LinedText.lines_uniform, LinedText.lines_uniform]

/-- A file with mixed line ends, and one with other line ends for its feeds. -/
theorem extract_whatever_ends_mixed :
    (single LinedText.mixed.text).extract "a.c" "utf-8" = .error (.reading (.unbalanced 5)) ∧
      (single "#ifdef A\r\r#endif").extract "a.c" "utf-8" =
        (single "#ifdef A\n\n#endif").extract "a.c" "utf-8" := by
  constructor
  · have hfails : ((LineSource.ofLines none LinedText.mixed.lines).readBlocks "a.c").result.map
        List.length = .error (.unbalanced 5) := by decide +kernel
    rw [(extract_whatever_ends _ "a.c").1 LinedText.mixed (find_single _)]
    cases hresult : ((LineSource.ofLines none LinedText.mixed.lines).readBlocks "a.c").result with
    | ok blocks =>
      rw [hresult] at hfails
      cases hfails
    | error e =>
      rw [hresult] at hfails
      cases hfails
      rfl
  · have hreturns : LineEnd.cr.replaceFeeds "#ifdef A\n\n#endif" = "#ifdef A\r\r#endif" := by
      decide +kernel
    rw [← hreturns]
    exact (extract_whatever_ends _ "a.c").2 _ .cr _ (by decide) (find_single _) (find_single _)

end Disk

end Conditionals
