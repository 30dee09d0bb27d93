/-
Conditionals.Proofs.Reader.Writing — forests written as files and read again.

* `Block.Writable` — the forests that a file can say: their lines ascend
  and begin with the first one, their conditions have names such as texts
  have, and their presence conditions are composed;
* `Block.Written` — the lines of a file show a forest: its conditions
  behind `#if`, its ends, and nothing elsewhere; `Block.write` makes such
  lines;
* `Event.ofLinesFrom_renderLines` — the events of what is written are those
  of the forest, by induction on the lines that remain.

`LineSource.readBlocks_write` is the main statement: the writable forests are
those that are read from files, and each is read from every file that shows
it.
-/
import Mathlib.Algebra.Order.BigOperators.Group.List
import Mathlib.Algebra.Order.Group.Nat
import Conditionals.Proofs.Directive
import Conditionals.Proofs.Reader.RoundTrip
import Conditionals.Proofs.Reader.Unmatched

namespace Conditionals

/-! ## The ends of a written condition -/

namespace Formula

open Text (Trimmed)

theorem trimmed_group {f : Condition} {text : String} (least : Nat) (ht : Trimmed text.toList)
    (hne : text.toList ≠ []) :
    Trimmed (group least f text).toList ∧ (group least f text).toList ≠ [] := by
  unfold group
  split
  · have hgroup : ("(" ++ text ++ ")").toList = ['('] ++ text.toList ++ [')'] := by simp
    rw [hgroup]
    exact ⟨Text.trimmed_between rfl rfl, by simp⟩
  · exact ⟨ht, hne⟩

/-- A written condition is not empty and has no white space at its ends. -/
theorem trimmed_render {f : Condition} (hn : ∀ a ∈ f.atoms, a.isNamed = true) :
    Trimmed f.render.toList ∧ f.render.toList ≠ [] := by
  induction f with
  | const value =>
    cases value
    · exact ⟨⟨rfl, rfl⟩, List.cons_ne_nil _ _⟩
    · exact ⟨⟨rfl, rfl⟩, List.cons_ne_nil _ _⟩
  | atom a =>
    cases a with
    | bare name =>
      have ha := hn (.bare name) List.mem_cons_self
      simp only [Atom.isNamed, Bool.and_eq_true] at ha
      obtain ⟨c, cs, hcs, hc, hrest⟩ := Lexeme.isIdentifier_iff.1 ha.1
      have hname : (render (.atom (.bare name))).toList = c :: cs := hcs
      rw [hname]
      refine ⟨Text.trimmed_of_forall ?_, List.cons_ne_nil _ _⟩
      intro d hd
      rcases List.mem_cons.1 hd with rfl | hd
      · exact Text.isBlank_eq_false_of_isWord (isWord_of_isWordStart hc)
      · exact Text.isBlank_eq_false_of_isWord (hrest d hd)
    | defined name =>
      have hdefined : (render (.atom (.defined name))).toList =
          ['d'] ++ ("efined(".toList ++ name.toList) ++ [')'] := by
        simp [render, Atom.render]
      rw [hdefined]
      exact ⟨Text.trimmed_between rfl rfl, by simp⟩
  | neg f ih =>
    obtain ⟨ht, hne⟩ := ih hn
    obtain ⟨ht, hne⟩ := trimmed_group (f := f) negLevel ht hne
    have hneg : (render (.neg f)).toList =
        ['!'] ++ [] ++ (group negLevel f (render f)).toList := by
      simp [render]
    rw [hneg]
    exact ⟨Trimmed.around ⟨rfl, rfl⟩ ht (List.cons_ne_nil _ _) hne, by simp⟩
  | join op f g ihf ihg =>
    obtain ⟨htf, hnef⟩ := ihf fun a ha => hn a (List.mem_append_left _ ha)
    obtain ⟨htg, hneg⟩ := ihg fun a ha => hn a (List.mem_append_right _ ha)
    obtain ⟨htf, hnef⟩ := trimmed_group (f := f) op.level htf hnef
    obtain ⟨htg, hneg⟩ := trimmed_group (f := g) (op.level + 1) htg hneg
    have hjoin : (render (.join op f g)).toList =
        (group op.level f (render f)).toList ++ (" " ++ op.spelling ++ " ").toList ++
          (group (op.level + 1) g (render g)).toList := by
      simp [render]
    rw [hjoin]
    exact ⟨Trimmed.around htf htg hnef hneg, by simp [hnef]⟩

end Formula

/-! ## Written events -/

namespace Event

variable {e : Event} {es : List Event} {number count : Nat}

/-- A line that says an event. -/
def render : Event → String
  | opening _ c => "#if " ++ c.render
  | closing _ => "#endif"

/-- What stands on a line of a file that says some events: the one of that line, if there is one. -/
def renderAt (line : Int) : List Event → String
  | [] => ""
  | e :: es => if e.line = line then e.render else renderAt line es

/-- The lines of a file that says some events, as many as `count` from a number on. -/
def renderLines (number count : Nat) (es : List Event) : List String :=
  (List.range' number count).map fun line : Nat => renderAt line es

/-- A condition behind `#if` and a space opens a block. -/
theorem ofLine_if {text : String} {c : Condition} (line : Int) (ht : Text.Trimmed text.toList)
    (hc : Condition.parse text = .ok c) :
    ofLine line ("#if " ++ text) = some (.opening line c) := by
  have hne : text.toList ≠ [] := by
    intro hnil
    obtain rfl : text = "" := String.toList_eq_nil_iff.1 hnil
    have hempty : (Condition.parse "").isOk = false := by decide +kernel
    rw [hc] at hempty
    cases hempty
  rw [ofLine, Directive.classify_ifTrue ht hne]
  simp [ofDirective, Directive.conditionText?, hc]

theorem ofLine_opening {c : Condition} (line : Int) (h : c.Named) :
    ofLine line (render (.opening line c)) = some (.opening line c) :=
  ofLine_if line (Formula.trimmed_render h).1 h.parse_render

theorem ofLine_closing (line : Int) :
    ofLine line (render (.closing line)) = some (.closing line) := by
  rw [ofLine, render, Directive.classify_endIf]
  rfl

theorem ofLine_empty (line : Int) : ofLine line "" = none := by
  rw [ofLine, Directive.classify_empty]

theorem renderAt_of_forall_ne {line : Int} (h : ∀ e ∈ es, e.line ≠ line) :
    renderAt line es = "" := by
  induction es with
  | nil => rfl
  | cons e es ih =>
    obtain ⟨he, hes⟩ := List.forall_mem_cons.1 h
    rw [renderAt, if_neg he, ih hes]

theorem renderAt_of_mem (ha : Ascending es) (he : e ∈ es) : renderAt e.line es = e.render := by
  induction es with
  | nil => cases he
  | cons d es ih =>
    obtain ⟨hhead, ha⟩ := List.pairwise_cons.1 ha
    rw [renderAt]
    rcases List.mem_cons.1 he with rfl | he
    · rw [if_pos rfl]
    · have hlt := hhead e he
      rw [if_neg (by omega), ih ha he]

theorem renderAt_cases (line : Int) (es : List Event) :
    renderAt line es = "" ∨ ∃ e ∈ es, renderAt line es = e.render := by
  induction es with
  | nil => exact .inl rfl
  | cons e es ih =>
    rw [renderAt]
    split
    · exact .inr ⟨e, List.mem_cons_self, rfl⟩
    · rcases ih with h | ⟨d, hd, h⟩
      · exact .inl h
      · exact .inr ⟨d, List.mem_cons_of_mem _ hd, h⟩

theorem length_renderLines (number count : Nat) (es : List Event) :
    (renderLines number count es).length = count := by
  rw [renderLines, List.length_map, List.length_range']

theorem getElem?_renderLines {index : Nat} (h : index < count) :
    (renderLines number count es)[index]? = some (renderAt (number + index : Nat) es) := by
  rw [renderLines, List.getElem?_map, List.getElem?_range' h, Nat.one_mul, Option.map_some]

theorem renderLines_succ (number count : Nat) (es : List Event) :
    renderLines number (count + 1) es =
      renderAt number es :: renderLines (number + 1) count es := by
  unfold renderLines
  rw [List.range'_succ, List.map_cons]

/-- Lines behind that of the first event do not show it. -/
theorem renderLines_cons_of_lt (h : e.line < number) :
    renderLines number count (e :: es) = renderLines number count es := by
  refine List.map_congr_left ?_
  intro line hline
  have hle := (List.mem_range'_1.1 hline).1
  rw [renderAt, if_neg (by omega)]

/-- The events of lines that say some events are these events. -/
theorem ofLinesFrom_renderLines (ha : Ascending es)
    (hlegible : ∀ e ∈ es, ofLine e.line e.render = some e)
    (hlines : ∀ e ∈ es, (number : Int) ≤ e.line ∧ e.line < number + count) :
    ofLinesFrom number (renderLines number count es) = es := by
  induction count generalizing number es with
  | zero =>
    have hnil : es = [] := by
      rw [List.eq_nil_iff_forall_not_mem]
      intro e he
      have := hlines e he
      omega
    rw [hnil]
    rfl
  | succ count ih =>
    rw [renderLines_succ, ofLinesFrom_cons]
    by_cases hlt : ∀ e ∈ es, (number : Int) < e.line
    · -- No event is on the first line.
      have hne : ∀ e ∈ es, e.line ≠ (number : Int) := by
        intro e he
        have := hlt e he
        omega
      rw [renderAt_of_forall_ne hne, ofLine_empty, Option.toList_none, List.nil_append]
      refine ih ha hlegible ?_
      intro e he
      have := hlt e he
      have := hlines e he
      omega
    · -- The first event is on the first line, the others are behind it.
      cases es with
      | nil => exact absurd nofun hlt
      | cons e es =>
        obtain ⟨hhead, ha⟩ := List.pairwise_cons.1 ha
        obtain ⟨he, hlegible⟩ := List.forall_mem_cons.1 hlegible
        obtain ⟨hline, hlines⟩ := List.forall_mem_cons.1 hlines
        have hfirst : e.line = number := by
          by_contra hne
          refine hlt (List.forall_mem_cons.2 ⟨by omega, ?_⟩)
          intro d hd
          have := hhead d hd
          omega
        rw [renderAt, if_pos hfirst, ← hfirst, he, Option.toList_some,
          renderLines_cons_of_lt (by omega), List.singleton_append]
        congr 1
        refine ih ha hlegible ?_
        intro d hd
        have := hhead d hd
        have := hlines d hd
        omega

theorem readable_of_mem_renderLines (hlegible : ∀ e ∈ es, ofLine e.line e.render = some e)
    {text : String} (h : text ∈ renderLines number count es) : Readable text := by
  obtain ⟨line, -, rfl⟩ := List.mem_map.1 h
  rcases renderAt_cases line es with hempty | ⟨e, he, htext⟩
  · rw [hempty]
    exact readable_of_none Directive.classify_empty
  · rw [htext]
    exact readable_of_ofLine (hlegible e he)

end Event

/-! ## Written forests -/

namespace Block

variable {path : Option String} {forest : List Block} {size : Nat}

/-- What a file can say: the lines ascend from the first one on, the conditions have names such as
texts have, and the blocks belong to one file and have composed presence conditions. -/
structure Writable (path : Option String) (forest : List Block) : Prop where
  ascending : Event.Ascending (listingAll forest)
  positive : ∀ e ∈ listingAll forest, 1 ≤ e.line
  named : ∀ b ∈ walkAll forest, b.condition.Named
  composed : Composed path none forest

/-- The lines of a file show a forest: the conditions stand behind `#if` where blocks begin,
`#endif` stands where they end, and the other lines are empty. -/
structure Written (forest : List Block) (lines : List String) : Prop where
  opening : ∀ b ∈ walkAll forest, ∃ index : Nat, b.startLine = index + 1 ∧
    lines[index]? = some ("#if " ++ b.condition.render)
  closing : ∀ b ∈ walkAll forest, ∃ index : Nat, b.endLine = index + 1 ∧
    lines[index]? = some "#endif"
  empty : ∀ (index : Nat) (text : String), lines[index]? = some text →
    (∀ b ∈ walkAll forest, b.startLine ≠ index + 1 ∧ b.endLine ≠ index + 1) → text = ""

/-- The lines of a file that show a forest. -/
def write (forest : List Block) (size : Nat) : List String :=
  Event.renderLines 1 size (listingAll forest)

/-- Some file is long enough. -/
theorem exists_size (forest : List Block) :
    ∃ size : Nat, ∀ b ∈ walkAll forest, b.endLine ≤ size := by
  refine ⟨((walkAll forest).map fun b => b.endLine.toNat).sum, ?_⟩
  intro b hb
  have hle : b.endLine.toNat ≤ ((walkAll forest).map fun b => b.endLine.toNat).sum :=
    List.le_sum_of_mem (List.mem_map_of_mem hb)
  omega

theorem Writable.ofLine_render (h : Writable path forest) :
    ∀ e ∈ listingAll forest, Event.ofLine e.line e.render = some e := by
  intro e he
  obtain ⟨b, hb, rfl | rfl⟩ := exists_of_mem_listingAll he
  · exact Event.ofLine_opening _ (h.named b hb)
  · exact Event.ofLine_closing _

/-- The lines of the listing are among the first ones of the file, if all blocks end there. -/
theorem Writable.line_le (h : Writable path forest)
    (hsize : ∀ b ∈ walkAll forest, b.endLine ≤ size) :
    ∀ e ∈ listingAll forest, e.line ≤ size := by
  intro e he
  obtain ⟨b, hb, rfl | rfl⟩ := exists_of_mem_listingAll he
  · have hlt : b.startLine < b.endLine := (ordered_of_mem_walkAll h.ascending hb).start_lt_end
    exact hlt.le.trans (hsize b hb)
  · exact hsize b hb

/-- The events of a written forest are its own, if all its blocks end on a line of the file. -/
theorem Writable.ofLines_write (h : Writable path forest)
    (hsize : ∀ b ∈ walkAll forest, b.endLine ≤ size) :
    Event.ofLines (write forest size) = listingAll forest := by
  refine Event.ofLinesFrom_renderLines h.ascending h.ofLine_render ?_
  intro e he
  have := h.positive e he
  have := h.line_le hsize e he
  omega

/-- Each event stands on its line. -/
theorem Writable.getElem?_write (h : Writable path forest)
    (hsize : ∀ b ∈ walkAll forest, b.endLine ≤ size) :
    ∀ e ∈ listingAll forest, ∃ index : Nat, e.line = index + 1 ∧
      (write forest size)[index]? = some e.render := by
  intro e he
  have hpositive := h.positive e he
  have hle := h.line_le hsize e he
  refine ⟨(e.line - 1).toNat, by omega, ?_⟩
  have hline : ((1 + (e.line - 1).toNat : Nat) : Int) = e.line := by omega
  rw [write, Event.getElem?_renderLines (by omega), hline, Event.renderAt_of_mem h.ascending he]

theorem Writable.written_write (h : Writable path forest)
    (hsize : ∀ b ∈ walkAll forest, b.endLine ≤ size) : Written forest (write forest size) := by
  refine ⟨?_, ?_, ?_⟩
  · intro b hb
    exact h.getElem?_write hsize _ (opening_mem_listingAll hb)
  · intro b hb
    exact h.getElem?_write hsize _ ((listing_within hb).subset b.closing_mem_listing)
  · intro index text htext hother
    obtain ⟨hlt, -⟩ := List.getElem?_eq_some_iff.1 htext
    rw [write, Event.length_renderLines] at hlt
    rw [write, Event.getElem?_renderLines hlt, Event.renderAt_of_forall_ne] at htext
    · cases htext
      rfl
    · intro e he
      obtain ⟨b, hb, rfl | rfl⟩ := exists_of_mem_listingAll he
      · have := (hother b hb).1
        change b.startLine ≠ _
        omega
      · have := (hother b hb).2
        change b.endLine ≠ _
        omega

theorem Written.endLine_le {lines : List String} (hw : Written forest lines) :
    ∀ b ∈ walkAll forest, b.endLine ≤ lines.length := by
  intro b hb
  obtain ⟨index, hend, htext⟩ := hw.closing b hb
  obtain ⟨hlt, -⟩ := List.getElem?_eq_some_iff.1 htext
  omega

/-- What stands on a line is the same in every file that shows the forest. -/
theorem Written.text_eq {lines others : List String} {index : Nat} {text other : String}
    (hw : Written forest lines) (ho : Written forest others) (htext : lines[index]? = some text)
    (hother : others[index]? = some other) : text = other := by
  by_cases hbound : ∀ b ∈ walkAll forest, b.startLine ≠ index + 1 ∧ b.endLine ≠ index + 1
  · rw [hw.empty index text htext hbound, ho.empty index other hother hbound]
  · have hsame : ∀ said, (∃ i : Nat, (index : Int) + 1 = i + 1 ∧ lines[i]? = some said) →
        (∃ i : Nat, (index : Int) + 1 = i + 1 ∧ others[i]? = some said) → text = other := by
      rintro said ⟨i, hi, hlines⟩ ⟨j, hj, hothers⟩
      obtain rfl : i = index := by omega
      obtain rfl : j = i := by omega
      rw [htext] at hlines
      rw [hother] at hothers
      cases hlines
      cases hothers
      rfl
    simp only [not_forall] at hbound
    obtain ⟨b, hb, hat⟩ := hbound
    by_cases hstart : b.startLine = index + 1
    · rw [← hstart] at hsame
      exact hsame _ (hw.opening b hb) (ho.opening b hb)
    · have hend : b.endLine = index + 1 := by
        by_contra hne
        exact hat ⟨hstart, hne⟩
      rw [← hend] at hsame
      exact hsame _ (hw.closing b hb) (ho.closing b hb)

theorem Written.unique {lines others : List String} (hw : Written forest lines)
    (ho : Written forest others) (hl : lines.length = others.length) : lines = others := by
  refine List.ext_getElem hl ?_
  intro index hlines hothers
  exact hw.text_eq ho (List.getElem?_eq_getElem hlines) (List.getElem?_eq_getElem hothers)

end Block

/-! ## Writing and reading -/

namespace LineSource

open Block (Writable Written write listingAll walkAll)

variable {name path : Option String} {lines : List String} {forest : List Block} {size : Nat}

theorem writable_of_read (h : ((ofLines name lines).readBlocks path).result = .ok forest) :
    Writable (path <|> name) forest := by
  obtain ⟨-, hlisting, hcomposed⟩ := listing_of_read h
  have hlisting : listingAll forest = Event.ofLines lines := hlisting
  refine ⟨?_, ?_, Block.named_condition hlisting, hcomposed⟩
  · rw [hlisting]
    exact Event.ascending_ofLinesFrom 1 lines
  · intro e he
    rw [hlisting] at he
    exact Event.le_line_of_mem he

/-- A file whose lines say a composed forest is read into it. -/
theorem result_of_listing (hr : ∀ text ∈ lines, Readable text)
    (hl : Event.ofLines lines = listingAll forest)
    (hc : Block.Composed (path <|> name) none forest) :
    ((ofLines name lines).readBlocks path).result = .ok forest := by
  have hb : Balanced lines := by
    refine ⟨hr, ?_, ?_⟩
    · rw [hl]
      exact Block.guarded_listingAll forest
    · rw [hl]
      exact Block.openings_listingAll forest
  obtain ⟨other, hother⟩ := @exists_read_of_balanced (ofLines name lines) path .empty rfl hb
  obtain ⟨-, hlisting, hcomposed⟩ := listing_of_read hother
  have houtlines : Block.outlines other = Block.outlines forest :=
    Block.outlines_eq_of_listing (hlisting.trans hl)
  obtain rfl : other = forest := hcomposed.eq_of_outlines hc houtlines
  exact hother

theorem read_write (h : Writable (path <|> name) forest)
    (hsize : ∀ b ∈ walkAll forest, b.endLine ≤ size) :
    ((ofLines name (write forest size)).readBlocks path).result = .ok forest :=
  result_of_listing (fun _ => Event.readable_of_mem_renderLines h.ofLine_render)
    (h.ofLines_write hsize) h.composed

theorem read_of_written (h : Writable (path <|> name) forest) (hw : Written forest lines) :
    ((ofLines name lines).readBlocks path).result = .ok forest := by
  have hsize := hw.endLine_le
  have hlength : lines.length = (write forest lines.length).length :=
    (Event.length_renderLines 1 lines.length (listingAll forest)).symm
  rw [hw.unique (h.written_write hsize) hlength]
  exact read_write h hsize

/-- The forests that are read from files are the writable ones. A writable forest is read from every
file whose lines show it, and there is one such file of each length that its blocks fit in. -/
theorem readBlocks_write (name path : Option String) (forest : List Block) :
    ((∃ lines, ((ofLines name lines).readBlocks path).result = .ok forest) ↔
      Writable (path <|> name) forest) ∧
    (Writable (path <|> name) forest →
      (∀ lines, Written forest lines →
        ((ofLines name lines).readBlocks path).result = .ok forest) ∧
      ∀ size : Nat, (∀ b ∈ walkAll forest, b.endLine ≤ size) →
        (write forest size).length = size ∧ Written forest (write forest size)) := by
  refine ⟨⟨?_, ?_⟩, ?_⟩
  · rintro ⟨lines, h⟩
    exact writable_of_read h
  · intro h
    obtain ⟨size, hsize⟩ := Block.exists_size forest
    exact ⟨write forest size, read_write h hsize⟩
  · intro h
    refine ⟨fun lines hw => read_of_written h hw, ?_⟩
    intro size hsize
    exact ⟨Event.length_renderLines 1 size (listingAll forest), h.written_write hsize⟩

example :
    let lines := ["#ifdef A", "int a;", "#if (B)", "#endif", "#endif"]
    ((ofLines none lines).readBlocks none).result.map (fun forest => write forest 6) =
      .ok ["#if defined(A)", "", "#if B", "#endif", "#endif", ""] := by
  decide +kernel

end LineSource

end Conditionals
