/-
Conditionals.Proofs.Reader.Steps — what one step of a session can do.

* `Session.openBlock_of_parse`, `Session.openBlock_of_parse_error` —
  opening a block either puts one on top of the open ones or changes the
  cache alone, and the text decides which, whatever the cache holds;
* `Session.closeBlock_cons` — closing takes the innermost open block off;
* `Event.ofLine` — the event of a line;
* `Session.readLine_cases` — the step that a line asks for, by its event;
* `Session.readLines_induction` — what both steps keep, reading lines keeps.

`Session.Reachable` are the sessions that any steps lead to, failing ones
included; reading lines leads to no others.
-/
import Conditionals.Proofs.Block.Presence
import Conditionals.Proofs.Condition.Copies
import Conditionals.Reader.Source

namespace Conditionals

/-! ## Steps -/

namespace Session

variable {s : Session} {text : String} {line : Int} {c : Condition}

theorem presenceOf_eq (s : Session) (c : Condition) :
    s.presenceOf c = Formula.under (s.nesting.head?.map OpenBlock.presence) c := by
  unfold presenceOf
  split
  case h_1 hnil => rw [hnil]; rfl
  case h_2 b outer hcons => rw [hcons]; rfl

theorem openBlock_of_parse (h : Condition.parse text = .ok c) :
    s.openBlock text line =
      (.ok (), { s with
        nesting := ⟨line, s.path, c, s.presenceOf c, []⟩ :: s.nesting
        cache := (Condition.parseWith s.cache text).2
        log := s.log ++ [.opening line c] }) := by
  obtain ⟨g, hg, rfl⟩ := (@Condition.exists_parseWith_iff_parse s.cache text c).2 h
  unfold openBlock
  split
  case h_1 cause cache he =>
    rw [he] at hg
    cases hg
  case h_2 f cache hf =>
    rw [hf] at hg
    cases hg
    rw [hf]
    rfl

theorem openBlock_of_parse_error {cause : SyntaxError} (h : Condition.parse text = .error cause) :
    s.openBlock text line =
      (.error (.malformed cause line),
        { s with cache := (Condition.parseWith s.cache text).2 }) := by
  have hparse := (@Condition.parseWith_eq_error_iff s.cache text cause).2 h
  unfold openBlock
  split
  case h_1 cause' cache he =>
    rw [he] at hparse
    cases hparse
    rw [he]
  case h_2 f cache hf =>
    rw [hf] at hparse
    cases hparse

theorem openBlock_of_not_parse (h : ∀ c, Condition.parse text ≠ .ok c) :
    ∃ cause, s.openBlock text line =
      (.error (.malformed cause line),
        { s with cache := (Condition.parseWith s.cache text).2 }) := by
  cases hp : Condition.parse text with
  | error cause => exact ⟨cause, openBlock_of_parse_error hp⟩
  | ok c => exact absurd hp (h c)

theorem closeBlock_nil (h : s.nesting = []) :
    s.closeBlock line = (.error (.unbalanced line), s) := by
  unfold closeBlock
  rw [h]

theorem closeBlock_cons {b : OpenBlock} {outer : List OpenBlock} (h : s.nesting = b :: outer) :
    s.closeBlock line =
      (.ok (), { s with
        nesting := outer
        log := s.log ++ [LogEntry.closing line b.startLine] }.place (b.close line)) := by
  unfold closeBlock
  rw [h]
  rfl

/-- The sessions that opening and closing blocks can lead to, also where some of the steps fail. -/
inductive Reachable (path : Option String) : Session → Prop
  | start (cache : Cache) : Reachable path (.start path cache)
  | openBlock {s : Session} (text : String) (line : Int) :
      Reachable path s → Reachable path (s.openBlock text line).2
  | closeBlock {s : Session} (line : Int) :
      Reachable path s → Reachable path (s.closeBlock line).2

end Session

/-! ## Lines and their events -/

/-- The text of the condition that an opening directive asks for. -/
def Directive.conditionText? (payload : String) : Directive → Option String
  | ifDefined => some ("defined(" ++ payload ++ ")")
  | ifNotDefined => some ("!defined(" ++ payload ++ ")")
  | ifTrue => some payload
  | elseIf => none
  | otherwise => none
  | endIf => none

/-- A line is readable if its directive, should it have one, is neither of the unsupported two, and
if the text behind an opening one is a condition. -/
def Readable (text : String) : Prop :=
  ∀ d payload, Directive.classify text = some (d, payload) →
    d ≠ .elseIf ∧ d ≠ .otherwise ∧
      ∀ t, d.conditionText? payload = some t → ∃ c, Condition.parse t = .ok c

theorem readable_of_none {text : String} (h : Directive.classify text = none) : Readable text := by
  intro d payload hc
  rw [h] at hc
  cases hc

theorem readable_iff_of_some {text payload : String} {d : Directive}
    (h : Directive.classify text = some (d, payload)) :
    Readable text ↔ d ≠ .elseIf ∧ d ≠ .otherwise ∧
      ∀ t, d.conditionText? payload = some t → ∃ c, Condition.parse t = .ok c := by
  constructor
  · intro hr
    exact hr d payload h
  · intro hd d' payload' h'
    rw [h] at h'
    cases h'
    exact hd

namespace Event

/-- The event that a directive stands for: the closing of a block, or the opening of one if the text
behind it is a condition. -/
def ofDirective (line : Int) (d : Directive) (payload : String) : Option Event :=
  if d = .endIf then some (.closing line)
  else match (d.conditionText? payload).map Condition.parse with
    | some (.ok c) => some (.opening line c)
    | _ => none

/-- The event on a line. -/
def ofLine (line : Int) (text : String) : Option Event :=
  match Directive.classify text with
  | none => none
  | some (d, payload) => ofDirective line d payload

/-- The events of the lines of a file whose first line has a given number. -/
def ofLinesFrom (number : Nat) (lines : List String) : List Event :=
  (lines.zipIdx number).filterMap fun (text, line) => ofLine line text

/-- The events of the lines of a file, which are numbered from one. -/
def ofLines (lines : List String) : List Event :=
  ofLinesFrom 1 lines

theorem ofDirective_cases {line : Int} {d : Directive} {payload : String} {e : Event}
    (h : ofDirective line d payload = some e) :
    (d = .endIf ∧ e = .closing line) ∨
      ∃ t c, d.conditionText? payload = some t ∧ Condition.parse t = .ok c ∧
        e = .opening line c := by
  unfold ofDirective at h
  split at h
  case isTrue hd =>
    cases h
    exact .inl ⟨hd, rfl⟩
  case isFalse =>
    split at h
    case h_1 c hc =>
      cases h
      obtain ⟨t, ht, hparse⟩ := Option.map_eq_some_iff.1 hc
      exact .inr ⟨t, c, ht, hparse, rfl⟩
    case h_2 => cases h

theorem classify_of_ofLine {line : Int} {text : String} {e : Event}
    (h : ofLine line text = some e) :
    ∃ d payload, Directive.classify text = some (d, payload) ∧
      ofDirective line d payload = some e := by
  unfold ofLine at h
  split at h
  case h_1 => cases h
  case h_2 d payload hc => exact ⟨d, payload, hc, h⟩

theorem ofLine_cases {line : Int} {text : String} {e : Event} (h : ofLine line text = some e) :
    e = .closing line ∨ ∃ t c, Condition.parse t = .ok c ∧ e = .opening line c := by
  obtain ⟨d, payload, -, hd⟩ := classify_of_ofLine h
  rcases ofDirective_cases hd with ⟨-, rfl⟩ | ⟨t, c, -, hparse, rfl⟩
  · exact .inl rfl
  · exact .inr ⟨t, c, hparse, rfl⟩

/-- A line with an event is readable. -/
theorem readable_of_ofLine {line : Int} {text : String} {e : Event}
    (h : ofLine line text = some e) : Readable text := by
  obtain ⟨d, payload, hc, hd⟩ := classify_of_ofLine h
  rw [readable_iff_of_some hc]
  rcases ofDirective_cases hd with ⟨rfl, -⟩ | ⟨t, c, ht, hparse, -⟩
  · exact ⟨nofun, nofun, nofun⟩
  · refine ⟨?_, ?_, ?_⟩
    · rintro rfl
      cases ht
    · rintro rfl
      cases ht
    · intro t' ht'
      cases ht.symm.trans ht'
      exact ⟨c, hparse⟩

theorem ofLinesFrom_cons (number : Nat) (text : String) (lines : List String) :
    ofLinesFrom number (text :: lines) =
      (ofLine number text).toList ++ ofLinesFrom (number + 1) lines := by
  unfold ofLinesFrom
  rw [List.zipIdx_cons, List.filterMap_cons]
  dsimp only
  cases ofLine number text <;> rfl

/-! ### The lines of events -/

theorem line_of_ofLine {line : Int} {text : String} {e : Event} (h : ofLine line text = some e) :
    e.line = line := by
  rcases ofLine_cases h with rfl | ⟨t, c, -, rfl⟩ <;> rfl

theorem le_line_of_mem {number : Nat} {lines : List String} {e : Event}
    (h : e ∈ ofLinesFrom number lines) : (number : Int) ≤ e.line := by
  induction lines generalizing number with
  | nil => cases h
  | cons text lines ih =>
    rw [ofLinesFrom_cons, List.mem_append, Option.mem_toList] at h
    rcases h with h | h
    · exact Int.le_of_eq (line_of_ofLine h).symm
    · have hle := ih h
      omega

theorem ascending_ofLinesFrom (number : Nat) (lines : List String) :
    Ascending (ofLinesFrom number lines) := by
  induction lines generalizing number with
  | nil => exact .nil
  | cons text lines ih =>
    rw [ofLinesFrom_cons]
    refine List.pairwise_append.2 ⟨?_, ih _, fun d hd e he => ?_⟩
    · cases ofLine number text with
      | none => exact .nil
      | some e => exact List.pairwise_singleton _ e
    · have hline := line_of_ofLine (Option.mem_toList.1 hd)
      have hle := le_line_of_mem he
      omega

/-- An opening event carries what some text was read as. -/
theorem parse_of_opening_mem {number : Nat} {lines : List String} {line : Int} {c : Condition}
    (h : .opening line c ∈ ofLinesFrom number lines) : ∃ t, Condition.parse t = .ok c := by
  obtain ⟨⟨text, n⟩, -, hline⟩ := List.mem_filterMap.1 h
  rcases ofLine_cases hline with heq | ⟨t, f, hparse, heq⟩
  · cases heq
  · cases heq
    exact ⟨t, hparse⟩

end Event

/-! ## Reading lines -/

namespace Session

variable {s : Session} {path : Option String}

/-- A directive with a text opens a block, if the text is a condition. -/
theorem readDirective_of_text {d : Directive} {payload t : String} (line : Int)
    (ht : d.conditionText? payload = some t) :
    (d ≠ .elseIf ∧ d ≠ .otherwise ∧ d ≠ .endIf) ∧
      s.readDirective line d payload = s.openBlock t line := by
  cases d with
  | ifDefined => cases ht; exact ⟨⟨nofun, nofun, nofun⟩, rfl⟩
  | ifNotDefined => cases ht; exact ⟨⟨nofun, nofun, nofun⟩, rfl⟩
  | ifTrue => cases ht; exact ⟨⟨nofun, nofun, nofun⟩, rfl⟩
  | elseIf => cases ht
  | otherwise => cases ht
  | endIf => cases ht

/-- A line is left out, opens a block, closes one, or cannot be read at all. -/
theorem readLine_cases (s : Session) (line : Int) (text : String) :
    (Readable text ∧ Event.ofLine line text = none ∧ s.readLine line text = (.ok (), s)) ∨
    (Readable text ∧ ∃ t c, Condition.parse t = .ok c ∧
      Event.ofLine line text = some (.opening line c) ∧
      s.readLine line text = s.openBlock t line) ∨
    (Readable text ∧ Event.ofLine line text = some (.closing line) ∧
      s.readLine line text = s.closeBlock line) ∨
    (¬ Readable text ∧ ∃ e s', s.readLine line text = (.error e, s')) := by
  cases hc : Directive.classify text with
  | none =>
    refine .inl ⟨readable_of_none hc, ?_, ?_⟩
    · rw [Event.ofLine, hc]
    · rw [readLine, hc]
  | some found =>
    obtain ⟨d, payload⟩ := found
    have hread : s.readLine line text = s.readDirective line d payload := by rw [readLine, hc]
    have hevent : Event.ofLine line text = Event.ofDirective line d payload := by
      rw [Event.ofLine, hc]
    rw [hread, hevent, readable_iff_of_some hc]
    cases ht : d.conditionText? payload with
    | some t =>
      obtain ⟨⟨hne₁, hne₂, hne₃⟩, hopen⟩ := @readDirective_of_text s d payload t line ht
      rw [hopen]
      cases hp : Condition.parse t with
      | ok c =>
        refine .inr (.inl ⟨⟨hne₁, hne₂, ?_⟩, t, c, hp, ?_, rfl⟩)
        · intro t' ht'
          cases ht'
          exact ⟨c, hp⟩
        · rw [Event.ofDirective, if_neg hne₃, ht, Option.map_some, hp]
      | error cause =>
        have hnot : ∀ c, Condition.parse t ≠ .ok c := by
          intro c h
          rw [hp] at h
          cases h
        refine .inr (.inr (.inr ⟨?_, ?_⟩))
        · rintro ⟨-, -, h⟩
          obtain ⟨c, hc⟩ := h t rfl
          exact hnot c hc
        · obtain ⟨cause, herror⟩ := @openBlock_of_not_parse s t line hnot
          exact ⟨_, _, herror⟩
    | none =>
      cases d with
      | ifDefined => cases ht
      | ifNotDefined => cases ht
      | ifTrue => cases ht
      | endIf => exact .inr (.inr (.inl ⟨⟨nofun, nofun, nofun⟩, rfl, rfl⟩))
      | elseIf =>
        refine .inr (.inr (.inr ⟨?_, _, _, rfl⟩))
        rintro ⟨hne, -, -⟩
        exact hne rfl
      | otherwise =>
        refine .inr (.inr (.inr ⟨?_, _, _, rfl⟩))
        rintro ⟨-, hne, -⟩
        exact hne rfl

/-- What opening and closing blocks keep, reading a line keeps. -/
theorem readLine_induction {P : Session → Prop}
    (hopen : ∀ s text line, P s → P (s.openBlock text line).2)
    (hclose : ∀ s line, P s → P (s.closeBlock line).2) (h : P s) (line : Int) (text : String) :
    P (s.readLine line text).2 := by
  unfold Session.readLine
  split
  case h_1 => exact h
  case h_2 d payload _ =>
    cases d with
    | ifDefined => exact hopen s _ line h
    | ifNotDefined => exact hopen s _ line h
    | ifTrue => exact hopen s _ line h
    | elseIf => exact h
    | otherwise => exact h
    | endIf => exact hclose s line h

/-- What opening and closing blocks keep, reading lines keeps. -/
theorem readLines_induction {P : Session → Prop}
    (hopen : ∀ s text line, P s → P (s.openBlock text line).2)
    (hclose : ∀ s line, P s → P (s.closeBlock line).2) (h : P s) (line : Int)
    (lines : List String) : P (s.readLines line lines).2 := by
  induction lines generalizing s line with
  | nil => exact h
  | cons text rest ih =>
    have hstep := readLine_induction hopen hclose h line text
    unfold Session.readLines
    split
    case h_1 e s' hread =>
      rw [hread] at hstep
      exact hstep
    case h_2 s' hread =>
      rw [hread] at hstep
      exact ih hstep (line + 1)

/-- Reading lines is a run of steps. -/
theorem Reachable.readLines (h : Reachable path s) (line : Int) (lines : List String) :
    Reachable path (s.readLines line lines).2 :=
  readLines_induction (fun _ => .openBlock) (fun _ => .closeBlock) h line lines

end Session

end Conditionals
