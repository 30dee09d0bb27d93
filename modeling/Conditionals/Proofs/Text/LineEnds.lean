/-
Conditionals.Proofs.Text.LineEnds — texts made of lines and line ends.

* `LineEnd` — the three line ends;
* `LinedText` — lines that each have a line end of their own, and maybe a last
  line without one. A return is not put in front of an empty line with a feed,
  for the two would be one line end;
* `LinedText.lines_text` — such a text is cut into these lines, whatever other
  line breaks of Unicode they hold;
* `LineEnd.replaceFeeds` — a text with another line end for each of its feeds;
* `LinedText.exists_replaceFeeds` — with every line end it is made of the same
  lines.
-/
import Conditionals.Text.Lines
import Mathlib.Data.List.Chain

namespace Conditionals

/-! ## Line ends -/

/-- How a line can end: with a line feed, with a carriage return and a line feed, or with a carriage
return. -/
inductive LineEnd where
  | lf
  | crlf
  | cr
  deriving DecidableEq, Repr

namespace LineEnd

/-- The characters of a line end. -/
def chars : LineEnd → List Char
  | lf => ['\n']
  | crlf => ['\r', '\n']
  | cr => ['\r']

/-- The line end for a line feed, and any other character for itself. -/
def inPlaceOf (e : LineEnd) (c : Char) : List Char :=
  if c = '\n' then e.chars else [c]

/-- A text with a line end for each of its line feeds. -/
def replaceFeeds (e : LineEnd) (text : String) : String :=
  .ofList (text.toList.flatMap e.inPlaceOf)

theorem replaceFeeds_lf (text : String) : lf.replaceFeeds text = text := by
  have hsame : lf.inPlaceOf = fun c => [c] := by
    funext c
    unfold inPlaceOf
    split
    next hc => rw [hc]; rfl
    next => rfl
  rw [replaceFeeds, hsame, List.flatMap_singleton', String.ofList_toList]

end LineEnd

namespace Text

/-- A text holds no character of a line end. -/
def Unbroken (cs : List Char) : Prop :=
  ∀ c ∈ cs, c ≠ '\n' ∧ c ≠ '\r'

instance (cs : List Char) : Decidable (Unbroken cs) :=
  List.decidableBAll _ cs

variable {cs : List Char} {c : Char}

theorem Unbroken.cons (hcs : Unbroken cs) (hfeed : c ≠ '\n') (hreturn : c ≠ '\r') :
    Unbroken (c :: cs) :=
  List.forall_mem_cons.2 ⟨⟨hfeed, hreturn⟩, hcs⟩

/-! ## Cutting into lines -/

theorem lines_cons_of_ne (hfeed : c ≠ '\n') (hreturn : c ≠ '\r') (rest : List Char) :
    lines (c :: rest) = consLine c (lines rest) := by
  rw [lines]
  · rw [if_neg (not_or.2 ⟨hfeed, hreturn⟩)]
  · intro rest' hc _
    exact hreturn hc

theorem lines_lineEnd (e : LineEnd) {rest : List Char}
    (hrest : e = .cr → rest.head? ≠ some '\n') :
    lines (e.chars ++ rest) = e.chars :: lines rest := by
  cases e with
  | lf => simp [LineEnd.chars, lines]
  | crlf => simp [LineEnd.chars, lines]
  | cr =>
    have hne : ∀ rest', rest ≠ '\n' :: rest' := by
      rintro rest' rfl
      exact hrest rfl rfl
    rw [LineEnd.chars, List.singleton_append, lines]
    · rw [if_pos (.inr rfl)]
    · intro rest' _ hrest'
      exact hne rest' hrest'

/-- A line with its end is cut off the text, unless its return has a feed behind it. -/
theorem lines_ended (hcs : Unbroken cs) (e : LineEnd) {rest : List Char}
    (hrest : e = .cr → rest.head? ≠ some '\n') :
    lines (cs ++ e.chars ++ rest) = (cs ++ e.chars) :: lines rest := by
  induction cs with
  | nil => exact lines_lineEnd e hrest
  | cons c cs ih =>
    obtain ⟨hfeed, hreturn⟩ := hcs c List.mem_cons_self
    rw [List.cons_append, List.cons_append, lines_cons_of_ne hfeed hreturn,
      ih fun d hd => hcs d (List.mem_cons_of_mem c hd)]
    rfl

/-- A line without an end is all of the text, and an empty one is none. -/
theorem lines_unbroken (hcs : Unbroken cs) : lines cs = if cs = [] then [] else [cs] := by
  induction cs with
  | nil => exact lines_nil
  | cons c cs ih =>
    obtain ⟨hfeed, hreturn⟩ := hcs c List.mem_cons_self
    rw [lines_cons_of_ne hfeed hreturn, ih fun d hd => hcs d (List.mem_cons_of_mem c hd)]
    split <;> simp_all [consLine]

end Text

/-! ## Texts of lines -/

/-- A line with its end. -/
structure EndedLine where
  line : String
  lineEnd : LineEnd

/-- The characters of a line and its end. -/
def EndedLine.chars (l : EndedLine) : List Char :=
  l.line.toList ++ l.lineEnd.chars

/-- Lines that are put together to a text. -/
structure LinedText where
  ended : List EndedLine
  /-- The last line, if it has no end. -/
  last : Option String
  unbroken : ∀ line ∈ ended.map (·.line) ++ last.toList, Text.Unbroken line.toList
  apart : ended.IsChain fun l next => ¬ (l.lineEnd = .cr ∧ next.line = "" ∧ next.lineEnd = .lf)

namespace LinedText

/-- The lines, without their ends. -/
def lines (t : LinedText) : List String :=
  t.ended.map (·.line) ++ t.last.toList

/-- The text that the lines and their ends are together. -/
def text (t : LinedText) : String :=
  .ofList (t.ended.flatMap EndedLine.chars ++ (t.last.getD "").toList)

/-- Lines that end in all ways. An empty one follows a return, one holds a line break of Unicode that
is no line end, and the last one closes a block that is not open. -/
def mixed : LinedText where
  ended := [⟨"#ifdef A", .cr⟩, ⟨"", .crlf⟩, ⟨"x\u2028y", .lf⟩, ⟨"#endif ", .cr⟩]
  last := some "#endif"
  unbroken := by decide +kernel
  apart := by decide +kernel

theorem head?_chars {l : EndedLine} (hl : Text.Unbroken l.line.toList) {rest : List Char}
    (h : (l.chars ++ rest).head? = some '\n') : l.line = "" ∧ l.lineEnd = .lf := by
  unfold EndedLine.chars at h
  cases hline : l.line.toList with
  | cons c cs =>
    rw [hline] at h hl
    cases h
    exact absurd rfl (hl '\n' List.mem_cons_self).1
  | nil =>
    refine ⟨String.toList_eq_nil_iff.1 hline, ?_⟩
    rw [hline] at h
    cases hend : l.lineEnd with
    | lf => rfl
    | crlf => rw [hend] at h; cases h
    | cr => rw [hend] at h; cases h

/-- Lines and line ends are cut into these lines. -/
theorem lines_flatMap_chars {ls : List EndedLine} {rest : List Char}
    (hls : ∀ l ∈ ls, Text.Unbroken l.line.toList) (hrest : Text.Unbroken rest)
    (hchain : ls.IsChain fun l next => ¬ (l.lineEnd = .cr ∧ next.line = "" ∧ next.lineEnd = .lf)) :
    Text.lines (ls.flatMap EndedLine.chars ++ rest) =
      ls.map EndedLine.chars ++ Text.lines rest := by
  induction ls with
  | nil => rfl
  | cons l ls ih =>
    obtain ⟨hnext, hchain⟩ := List.isChain_cons.1 hchain
    have hbehind : l.lineEnd = .cr → (ls.flatMap EndedLine.chars ++ rest).head? ≠ some '\n' := by
      intro hcr hhead
      cases ls with
      | nil => exact (hrest '\n' (List.mem_of_head? hhead)).1 rfl
      | cons next ls =>
        rw [List.flatMap_cons, List.append_assoc] at hhead
        have hfeed := head?_chars (hls next (by simp)) hhead
        exact hnext next rfl ⟨hcr, hfeed⟩
    rw [List.flatMap_cons, List.append_assoc, EndedLine.chars,
      Text.lines_ended (hls l List.mem_cons_self) l.lineEnd hbehind,
      ih (fun m hm => hls m (List.mem_cons_of_mem l hm)) hchain]
    rfl

/-- The text is cut into its lines. An empty last line without an end cannot be seen. -/
theorem lines_text (t : LinedText) : Text.lines t.text.toList =
    t.ended.map EndedLine.chars ++ Text.lines (t.last.getD "").toList := by
  rw [text, String.toList_ofList]
  refine lines_flatMap_chars (fun l hl => ?_) ?_ t.apart
  · exact t.unbroken _ (List.mem_append_left _ (List.mem_map_of_mem hl))
  · cases hlast : t.last with
    | none => nofun
    | some last =>
      refine t.unbroken last (List.mem_append_right _ ?_)
      rw [hlast]
      exact List.mem_singleton_self last

/-! ## One line end for all lines -/

/-- Lines that all end in the same way, and a last one without an end. -/
def uniform (lines : List String) (last : String)
    (h : ∀ line ∈ lines ++ [last], Text.Unbroken line.toList) (e : LineEnd) : LinedText where
  ended := lines.map (⟨·, e⟩)
  last := some last
  unbroken := by simpa using h
  apart := by
    refine (List.pairwise_of_forall_mem_list fun l hl next hnext hcr => ?_).isChain
    obtain ⟨_, -, rfl⟩ := List.mem_map.1 hl
    obtain ⟨_, -, rfl⟩ := List.mem_map.1 hnext
    cases hcr.1.symm.trans hcr.2.2

theorem lines_uniform {lines : List String} {last : String}
    (h : ∀ line ∈ lines ++ [last], Text.Unbroken line.toList) (e : LineEnd) :
    (uniform lines last h e).lines = lines ++ [last] := by
  simp [uniform, LinedText.lines, Function.comp_def]

/-- Characters without returns are lines that all end with a feed, and with another line end for each
feed they are the same lines. -/
theorem exists_lines {cs : List Char} (hreturn : '\r' ∉ cs) :
    ∃ (lines : List (List Char)) (last : List Char),
      (∀ line ∈ lines ++ [last], Text.Unbroken line) ∧
        ∀ e : LineEnd, lines.flatMap (· ++ e.chars) ++ last = cs.flatMap e.inPlaceOf := by
  induction cs with
  | nil => exact ⟨[], [], by simp [Text.Unbroken], fun e => rfl⟩
  | cons c cs ih =>
    obtain ⟨lines, last, hunbroken, htext⟩ := ih fun h => hreturn (List.mem_cons_of_mem c h)
    by_cases hc : c = '\n'
    case pos =>
      refine ⟨[] :: lines, last, List.forall_mem_cons.2 ⟨nofun, hunbroken⟩, fun e => ?_⟩
      rw [List.flatMap_cons, List.flatMap_cons, LineEnd.inPlaceOf, if_pos hc, ← htext]
      simp only [List.nil_append, List.append_assoc]
    case neg =>
      have hne : c ≠ '\r' := fun h => hreturn (h ▸ List.mem_cons_self)
      have hcons : ∀ e : LineEnd, (c :: cs).flatMap e.inPlaceOf = c :: cs.flatMap e.inPlaceOf := by
        intro e
        rw [List.flatMap_cons, LineEnd.inPlaceOf, if_neg hc, List.singleton_append]
      -- The character belongs to the first line, which may be the last one.
      cases lines with
      | nil =>
        have hlast := hunbroken last (List.mem_singleton_self last)
        refine ⟨[], c :: last, ?_, fun e => ?_⟩
        · simpa using hlast.cons hc hne
        · rw [hcons, ← htext]
          rfl
      | cons first lines =>
        obtain ⟨hfirst, hrest⟩ := List.forall_mem_cons.1 hunbroken
        refine ⟨(c :: first) :: lines, last, List.forall_mem_cons.2 ⟨hfirst.cons hc hne, hrest⟩,
          fun e => ?_⟩
        rw [hcons, ← htext]
        rfl

theorem exists_replaceFeeds {text : String} (hreturn : '\r' ∉ text.toList) :
    ∃ lines last h, ∀ e : LineEnd, (uniform lines last h e).text = e.replaceFeeds text := by
  obtain ⟨lines, last, hunbroken, htext⟩ := exists_lines hreturn
  refine ⟨lines.map .ofList, .ofList last, ?_, fun e => ?_⟩
  · intro line hline
    obtain ⟨cs, hcs, rfl⟩ : ∃ cs ∈ lines ++ [last], String.ofList cs = line := by
      simpa [List.mem_append, or_and_right, exists_or, eq_comm] using hline
    rw [String.toList_ofList]
    exact hunbroken cs hcs
  · rw [LineEnd.replaceFeeds, ← htext, LinedText.text]
    simp [uniform, EndedLine.chars, List.flatMap_map]

end LinedText

end Conditionals
