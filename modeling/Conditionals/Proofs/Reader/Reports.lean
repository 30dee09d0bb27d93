/-
Conditionals.Proofs.Reader.Reports — the log tells what has been read.

* `Event.reports` — the reports on events, with a stack of first lines as
  all that is remembered of the open blocks;
* `Block.Reported` — what the reports on a whole forest are, and
  `Block.reported_listingAll`, that they are it;
* `Session.Traced` — the reports of a session are those on the events that
  it has read. Each step keeps this, a failing one because it makes no
  report and no event (`Session.Reachable.traced`);
* `LineSource.read_cases` — the four ways in which reading a source ends.

`LineSource.log_of_read` is the main statement.
-/
import Mathlib.Data.List.Infix
import Conditionals.Proofs.Reader.Failures
import Conditionals.Proofs.Reader.Outcome

namespace Conditionals

/-! ## Reports on events -/

namespace LogEntry

/-- The event that a report is about; the last report of a reading is about none. -/
def event? : LogEntry → Option Event
  | opening line condition => some (.opening line condition)
  | closing line _ => some (.closing line)
  | found .. => none

def isOpening : LogEntry → Bool
  | opening .. => true
  | _ => false

def isClosing : LogEntry → Bool
  | closing .. => true
  | _ => false

end LogEntry

namespace Event

/-- The first lines of the blocks that are open behind events, the innermost first. -/
def openLines (starts : List Int) : List Event → List Int
  | [] => starts
  | .opening line _ :: es => openLines (line :: starts) es
  | .closing _ :: es => openLines starts.tail es

/-- The reports on events in front of which the blocks with the first lines `starts` are open. Each
closing event closes the innermost one, if there is one. -/
def reports (starts : List Int) : List Event → List LogEntry
  | [] => []
  | .opening line c :: es => .opening line c :: reports (line :: starts) es
  | .closing line :: es => (starts.head?.map (.closing line)).toList ++ reports starts.tail es

theorem openLines_append (starts : List Int) (xs ys : List Event) :
    openLines starts (xs ++ ys) = openLines (openLines starts xs) ys := by
  induction xs generalizing starts with
  | nil => rfl
  | cons e xs ih => cases e <;> exact ih _

theorem reports_append (starts : List Int) (xs ys : List Event) :
    reports starts (xs ++ ys) = reports starts xs ++ reports (openLines starts xs) ys := by
  induction xs generalizing starts with
  | nil => rfl
  | cons e xs ih =>
    cases e with
    | opening line c => exact congrArg _ (ih _)
    | closing line =>
      rw [List.cons_append, reports, reports, openLines, ih, List.append_assoc]

/-- If no event closes a block that is not open, there is one report on each event. -/
theorem map_event?_reports {starts : List Int} {es : List Event} (h : Guarded starts.length es) :
    (reports starts es).map LogEntry.event? = es.map some := by
  induction es generalizing starts with
  | nil => rfl
  | cons e es ih =>
    rw [← List.singleton_append] at h
    cases e with
    | opening line c =>
      have hdepth : starts.length + 1 + closings [.opening line c] =
          starts.length + openings [.opening line c] := rfl
      obtain ⟨-, hes⟩ := (guarded_append_iff hdepth).1 h
      rw [reports, List.map_cons, List.map_cons, @ih (line :: starts) hes]
      rfl
    | closing line =>
      cases starts with
      | nil => exact absurd ((guarded_closing_iff 0 line).1 h.of_append) (Nat.lt_irrefl 0)
      | cons start starts =>
        have hdepth : starts.length + closings [.closing line] =
            (start :: starts).length + openings [.closing line] := rfl
        obtain ⟨-, hes⟩ := (guarded_append_iff hdepth).1 h
        exact congrArg _ (ih hes)

/-- The blocks that are reported to be opened are those that are reported to be closed and those
that are open. -/
theorem countP_reports (starts : List Int) (es : List Event) :
    starts.length + (reports starts es).countP LogEntry.isOpening =
      (openLines starts es).length + (reports starts es).countP LogEntry.isClosing := by
  induction es generalizing starts with
  | nil => rfl
  | cons e es ih =>
    cases e with
    | opening line c =>
      have hes := ih (line :: starts)
      rw [reports, openLines, List.countP_cons_of_pos rfl,
        List.countP_cons_of_neg Bool.false_ne_true]
      rw [List.length_cons] at hes
      omega
    | closing line =>
      cases starts with
      | nil => exact ih []
      | cons start starts =>
        have hes := ih starts
        have hreports : reports (start :: starts) (.closing line :: es) =
            .closing line start :: reports starts es := rfl
        rw [hreports, openLines, List.countP_cons_of_neg Bool.false_ne_true,
          List.countP_cons_of_pos rfl, List.length_cons, List.tail_cons]
        omega

end Event

/-! ## Reports on forests -/

namespace Block

open Event (openLines reports)
open LogEntry (message)

variable {bs : List Block}

/-- Behind a whole forest the same blocks are open as in front of it. -/
theorem openLines_listingAll (starts : List Int) (bs : List Block) :
    openLines starts (listingAll bs) = starts := by
  induction bs using forest_induction generalizing starts with
  | nil => rfl
  | cons b bs ihc ih =>
    rw [listingAll_cons, openLines, Event.openLines_append, ihc, openLines, ih, List.tail_cons]

/-- Behind the children of a block, this is the innermost open one again, so the report on its last
line names its first line. -/
theorem reports_listingAll_cons (starts : List Int) (b : Block) (bs : List Block) :
    reports starts (listingAll (b :: bs)) = .opening b.startLine b.condition ::
      (reports (b.startLine :: starts) (listingAll b.children) ++
        .closing b.endLine b.startLine :: reports starts (listingAll bs)) := by
  rw [listingAll_cons, reports, Event.reports_append, openLines_listingAll]
  rfl

theorem openings_reports (starts : List Int) (bs : List Block) :
    (reports starts (listingAll bs)).filter LogEntry.isOpening =
      (walkAll bs).map fun b => .opening b.startLine b.condition := by
  induction bs using forest_induction generalizing starts with
  | nil => rw [walkAll]; rfl
  | cons b bs ihc ih =>
    rw [reports_listingAll_cons, walkAll_cons, List.filter_cons_of_pos rfl, List.filter_append, ihc,
      List.filter_cons_of_neg Bool.false_ne_true, ih, List.map_cons, List.map_append]

theorem closings_reports (starts : List Int) (bs : List Block) :
    (reports starts (listingAll bs)).filter LogEntry.isClosing =
      (closingOrder bs).map fun b => .closing b.endLine b.startLine := by
  induction bs using forest_induction generalizing starts with
  | nil => rw [closingOrder]; rfl
  | cons b bs ihc ih =>
    rw [reports_listingAll_cons, closingOrder, List.filter_cons_of_neg Bool.false_ne_true,
      List.filter_append, ihc, List.filter_cons_of_pos rfl, ih, List.map_append, List.map_cons]

/-- Reports that tell of all blocks of a forest: where each begins, with its condition, in the order
of the walk; where each ends, and where that block began, in the order of the last lines; and both
together in the order of the lines. -/
structure Reported (forest : List Block) (log : List LogEntry) : Prop where
  length_eq : log.length = 2 * (walkAll forest).length
  openings : (log.filter LogEntry.isOpening).map message = (walkAll forest).map fun b =>
    "Line " ++ toString b.startLine ++ ": opening block with " ++ b.condition.render
  closings : ∃ closed : List Block, closed.Perm (walkAll forest) ∧
    (closed.Pairwise fun b c => b.endLine < c.endLine) ∧
    (log.filter LogEntry.isClosing).map message = closed.map fun b =>
      "Line " ++ toString b.endLine ++ ": closing block opened at " ++ toString b.startLine
  ascending : ∃ es, log.map LogEntry.event? = es.map some ∧ Event.Ascending es

theorem reported_listingAll (h : Event.Ascending (listingAll bs)) :
    Reported bs (reports [] (listingAll bs)) := by
  have hevents := @Event.map_event?_reports [] _ (guarded_listingAll bs)
  refine ⟨?_, ?_, ⟨closingOrder bs, closingOrder_perm bs, pairwise_closingOrder h, ?_⟩,
    ⟨listingAll bs, hevents, h⟩⟩
  · have hlength := congrArg List.length hevents
    rw [List.length_map, List.length_map] at hlength
    rw [hlength, length_listingAll]
  · rw [openings_reports, List.map_map]
    rfl
  · rw [closings_reports, List.map_map]
    rfl

end Block

/-! ## Reports of a session -/

namespace Session

open Event (openLines reports)

variable {s s' : Session} {path : Option String}

/-- The reports are those on the events that have been read, and the blocks that these leave open
are the open ones. -/
structure Traced (s : Session) : Prop where
  log_eq : s.log = reports [] s.listing
  openLines_eq : s.nesting.map OpenBlock.startLine = openLines [] s.listing

theorem log_place (s : Session) (b : Block) : (s.place b).log = s.log := by
  unfold place
  split <;> rfl

theorem startLines_place (s : Session) (b : Block) :
    (s.place b).nesting.map OpenBlock.startLine = s.nesting.map OpenBlock.startLine := by
  unfold place
  split
  case h_1 hn => rw [hn]
  case h_2 around outer hn => rw [hn]; rfl

theorem Traced.openBlock (h : s.Traced) (text : String) (line : Int) :
    (s.openBlock text line).2.Traced := by
  cases hp : Condition.parse text with
  | error cause =>
    rw [openBlock_of_parse_error hp]
    exact ⟨h.log_eq, h.openLines_eq⟩
  | ok c =>
    obtain ⟨s', hopen, ha⟩ := advances_openBlock (s := s) line hp
    rw [hopen]
    rw [openBlock_of_parse hp, Prod.mk.injEq] at hopen
    obtain ⟨-, rfl⟩ := hopen
    refine ⟨?_, ?_⟩
    · rw [ha.listing_eq, Event.reports_append, ← h.log_eq]
      rfl
    · rw [ha.listing_eq, Event.openLines_append, ← h.openLines_eq]
      rfl

theorem Traced.closeBlock (h : s.Traced) (line : Int) : (s.closeBlock line).2.Traced := by
  cases hn : s.nesting with
  | nil =>
    rw [closeBlock_nil hn]
    exact h
  | cons b outer =>
    have hne : s.nesting ≠ [] := by
      rw [hn]
      exact List.cons_ne_nil b outer
    obtain ⟨s', hclose, ha⟩ := advances_closeBlock line hne
    have hopen := h.openLines_eq
    rw [hn, List.map_cons] at hopen
    rw [hclose]
    rw [closeBlock_cons hn, Prod.mk.injEq] at hclose
    obtain ⟨-, rfl⟩ := hclose
    refine ⟨?_, ?_⟩
    · rw [ha.listing_eq, Event.reports_append, ← hopen, ← h.log_eq, log_place]
      rfl
    · rw [ha.listing_eq, Event.openLines_append, ← hopen, startLines_place]
      rfl

/-- Opening and closing blocks keeps the reports true. -/
theorem Reachable.traced (h : Reachable path s) : s.Traced := by
  induction h with
  | start cache => exact ⟨rfl, rfl⟩
  | openBlock text line _ ih => exact ih.openBlock text line
  | closeBlock line _ ih => exact ih.closeBlock line

/-- As many blocks are reported to be opened as are reported to be closed or are open. -/
theorem Traced.countP_log (h : s.Traced) :
    s.log.countP LogEntry.isOpening = s.log.countP LogEntry.isClosing + s.nesting.length := by
  have hcount := Event.countP_reports [] s.listing
  rw [← h.log_eq, ← h.openLines_eq, List.length_map, List.length_nil] at hcount
  omega

/-! ## Reports on the way -/

theorem log_prefix_openBlock (s : Session) (text : String) (line : Int) :
    s.log <+: (s.openBlock text line).2.log := by
  cases hp : Condition.parse text with
  | error cause =>
    rw [openBlock_of_parse_error hp]
  | ok c =>
    rw [openBlock_of_parse hp]
    exact List.prefix_append _ _

theorem log_prefix_closeBlock (s : Session) (line : Int) : s.log <+: (s.closeBlock line).2.log := by
  cases hn : s.nesting with
  | nil =>
    rw [closeBlock_nil hn]
  | cons b outer =>
    rw [closeBlock_cons hn, log_place]
    exact List.prefix_append _ _

theorem log_prefix_readLines (s : Session) (line : Int) (lines : List String) :
    s.log <+: (s.readLines line lines).2.log :=
  readLines_induction (P := fun t => s.log <+: t.log)
    (fun t text line h => h.trans (t.log_prefix_openBlock text line))
    (fun t line h => h.trans (t.log_prefix_closeBlock line)) List.prefix_rfl line lines

theorem readLines_append_of_error {line : Int} {xs : List String} {e : ReadError}
    (ys : List String) (h : s.readLines line xs = (.error e, s')) :
    s.readLines line (xs ++ ys) = (.error e, s') := by
  induction xs generalizing s line with
  | nil => cases h
  | cons text xs ih =>
    rw [readLines] at h
    rw [List.cons_append, readLines]
    split at h
    case h_1 => exact h
    case h_2 => exact ih h

/-- What has been reported behind some lines, the lines that follow do not take back. -/
theorem log_prefix_of_take (s : Session) (line : Int) (n : Nat) (lines : List String) :
    (s.readLines line (lines.take n)).2.log <+: (s.readLines line lines).2.log := by
  have hlines : lines = lines.take n ++ lines.drop n := (List.take_append_drop n lines).symm
  cases htake : s.readLines line (lines.take n) with
  | mk outcome s' =>
    cases outcome with
    | error e =>
      have hall := readLines_append_of_error (lines.drop n) htake
      rw [← hlines] at hall
      rw [hall]
    | ok =>
      have hall := readLines_append_of_ok (lines.drop n) htake
      rw [← hlines] at hall
      rw [hall]
      exact s'.log_prefix_readLines _ _

end Session

/-! ## Lines that cannot be read -/

/-- The number of the line that an error is about. Two errors are about no line that has been read:
a block that remains open and a fault of the source. -/
def ReadError.line? : ReadError → Option Int
  | malformed _ line => some line
  | unsupported _ line => some line
  | unbalanced line => some line
  | unclosed _ => none
  | source _ => none

namespace Session

open Event (ofLines reports)

variable {s s' : Session} {line : Int} {text : String} {e : ReadError}

theorem line?_of_openBlock (h : (s.openBlock text line).1 = .error e) : e.line? = some line := by
  cases hp : Condition.parse text with
  | ok c =>
    rw [openBlock_of_parse hp] at h
    cases h
  | error cause =>
    rw [openBlock_of_parse_error hp] at h
    cases h
    rfl

theorem line?_of_closeBlock (h : (s.closeBlock line).1 = .error e) : e.line? = some line := by
  cases hn : s.nesting with
  | nil =>
    rw [closeBlock_nil hn] at h
    cases h
    rfl
  | cons b outer =>
    rw [closeBlock_cons hn] at h
    cases h

theorem line?_of_readLine (h : (s.readLine line text).1 = .error e) : e.line? = some line := by
  unfold readLine at h
  split at h
  case h_1 => cases h
  case h_2 d payload _ =>
    cases d with
    | ifDefined => exact line?_of_openBlock h
    | ifNotDefined => exact line?_of_openBlock h
    | ifTrue => exact line?_of_openBlock h
    | endIf => exact line?_of_closeBlock h
    | elseIf => cases h; rfl
    | otherwise => cases h; rfl

/-- Lines that are not all read end at one that is refused; those before it are read. -/
theorem readLines_of_error {lines : List String} (h : s.readLines line lines = (.error e, s')) :
    ∃ before text after t, lines = before ++ text :: after ∧
      s.readLines line before = (.ok (), t) ∧
      t.readLine (line + before.length) text = (.error e, s') := by
  induction lines generalizing s line with
  | nil => cases h
  | cons text rest ih =>
    rw [readLines] at h
    split at h
    case h_1 s₁ e' hread =>
      cases h
      exact ⟨[], text, rest, s, rfl, rfl, by simpa using hread⟩
    case h_2 s₁ hread =>
      obtain ⟨before, text', after, t, rfl, hbefore, hline⟩ := ih h
      refine ⟨text :: before, text', after, t, rfl, by rw [readLines, hread]; exact hbefore, ?_⟩
      rw [← hline, List.length_cons]
      congr 1
      omega

/-- Behind lines that have been read stand the reports on their events, one on each. -/
theorem log_of_readLines {path : Option String} {cache : Cache} {lines : List String}
    (h : (start path cache).readLines 1 lines = (.ok (), s)) :
    s.log = reports [] (ofLines lines) ∧ s.log.map LogEntry.event? = (ofLines lines).map some := by
  have hstart : Reachable path (start path cache) := .start cache
  have htraced := (hstart.readLines 1 lines).traced
  rw [h] at htraced
  rcases (start path cache).readLines_spec 1 lines with ⟨⟨-, hg⟩, t, ht, ha⟩ | ⟨-, e, t, he⟩
  · obtain rfl : s = t := congrArg Prod.snd (h.symm.trans ht)
    have hlisting : s.listing = ofLines lines := ha.listing_eq
    have hlog := htraced.log_eq
    rw [hlisting] at hlog
    refine ⟨hlog, ?_⟩
    rw [hlog]
    exact @Event.map_event?_reports [] _ hg
  · cases h.symm.trans he

/-- Behind lines that have not all been read stand the reports on those before the one that is
refused, which makes none. -/
theorem log_of_readLines_error {path : Option String} {cache : Cache} {lines : List String}
    (h : (start path cache).readLines 1 lines = (.error e, s)) :
    ∃ before, before <+: lines ∧ before ≠ lines ∧ e.line? = some ((before.length : Int) + 1) ∧
      s.log = reports [] (ofLines before) ∧
      s.log.map LogEntry.event? = (ofLines before).map some := by
  obtain ⟨before, text, after, t, rfl, hbefore, hline⟩ := readLines_of_error h
  have hfail : (t.readLine (1 + before.length) text).1 = .error e := by rw [hline]
  have hkept := congrArg log (readLine_of_error hfail)
  rw [hline] at hkept
  have hlog : s.log = t.log := hkept
  refine ⟨before, List.prefix_append _ _, ?_, ?_, ?_⟩
  · intro heq
    have hnil : text :: after = [] := List.self_eq_append_right.1 heq
    cases hnil
  · rw [line?_of_readLine hfail, Int.add_comm]
  · rw [hlog]
    exact log_of_readLines hbefore

end Session

/-! ## Reading files -/

namespace LineSource

open Event (reports)

variable {source : LineSource} {path : Option String} {cache : Cache}

/-- Reading a source ends at a line that cannot be read, at the fault of the source, at its end with
a block open, or at its end with none open. Only then is there a report on the whole file. -/
theorem read_cases (source : LineSource) (path : Option String) (cache : Cache) :
    ∃ s, ((Session.start (path <|> source.name) cache).readLines 1 source.lines).2 = s ∧
    ((∃ e, (Session.start (path <|> source.name) cache).readLines 1 source.lines = (.error e, s) ∧
      source.read path cache = ⟨.error e, s, source⟩) ∨
    (Session.start (path <|> source.name) cache).readLines 1 source.lines = (.ok (), s) ∧
      ((∃ fault, source.fault = some fault ∧
        source.read path cache = ⟨.error (.source fault), s, source⟩) ∨
      (∃ b outer, s.nesting = b :: outer ∧
        source.read path cache = ⟨.error (.unclosed b.startLine), s, source⟩) ∨
      (s.nesting = [] ∧ source.read path cache =
        ⟨.ok s.blocks, s.report (.found s.blocks.length s.path), source⟩))) := by
  refine ⟨_, rfl, ?_⟩
  unfold read readAll
  cases hs : (Session.start (path <|> source.name) cache).readLines 1 source.lines with
  | mk outcome s =>
    cases outcome with
    | error e => exact .inl ⟨e, rfl, rfl⟩
    | ok =>
      refine .inr ⟨rfl, ?_⟩
      cases hf : source.fault with
      | some fault => exact .inl ⟨fault, rfl, rfl⟩
      | none =>
        refine .inr ?_
        cases hn : s.nesting with
        | nil =>
          refine .inr ⟨rfl, ?_⟩
          dsimp only
          rw [Session.finish, hn]
        | cons b outer =>
          refine .inl ⟨b, outer, rfl, ?_⟩
          dsimp only
          rw [Session.finish, hn]

theorem log_of_read_ok {forest : List Block} (h : (source.read path cache).result = .ok forest) :
    ∃ log, (source.read path cache).session.log =
        log ++ [.found forest.length (path <|> source.name)] ∧ Block.Reported forest log := by
  obtain ⟨-, hlisting, -⟩ := listing_of_read h
  obtain ⟨s, hs, ⟨e, -, hread⟩ | ⟨hlines, hends⟩⟩ := read_cases source path cache
  · rw [hread] at h
    cases h
  · rcases hends with ⟨fault, -, hread⟩ | ⟨b, outer, -, hread⟩ | ⟨-, hread⟩
    · rw [hread] at h
      cases h
    · rw [hread] at h
      cases h
    · rw [hread] at h ⊢
      obtain rfl : s.blocks = forest := Except.ok.inj h
      have hstart : Session.Reachable (path <|> source.name)
          (.start (path <|> source.name) cache) := .start cache
      have hpath := (hstart.readLines 1 source.lines).composed.path_eq
      rw [hs] at hpath
      refine ⟨s.log, ?_, ?_⟩
      · rw [← hpath]
        rfl
      · rw [(Session.log_of_readLines hlines).1, ← hlisting]
        refine Block.reported_listingAll ?_
        rw [hlisting]
        exact Event.ascending_ofLinesFrom 1 source.lines

theorem log_of_read_error {e : ReadError} (h : (source.read path cache).result = .error e) :
    ∃ before, before <+: source.lines ∧
      (∀ line, e.line? = some line → line = before.length + 1 ∧ before ≠ source.lines) ∧
      (e.line? = none → before = source.lines) ∧
      (source.read path cache).session.log = reports [] (Event.ofLines before) ∧
      (source.read path cache).session.log.map LogEntry.event? =
        (Event.ofLines before).map some := by
  obtain ⟨s, -, ⟨e', hlines, hread⟩ | ⟨hlines, hends⟩⟩ := read_cases source path cache
  · rw [hread] at h ⊢
    obtain rfl : e' = e := Except.error.inj h
    obtain ⟨before, hprefix, hne, hnumber, hlog⟩ := Session.log_of_readLines_error hlines
    refine ⟨before, hprefix, ?_, ?_, hlog⟩
    · intro line hline
      rw [hnumber] at hline
      cases hline
      exact ⟨rfl, hne⟩
    · intro hline
      rw [hnumber] at hline
      cases hline
  · have hall := Session.log_of_readLines hlines
    rcases hends with ⟨fault, -, hread⟩ | ⟨b, outer, -, hread⟩ | ⟨-, hread⟩
    · rw [hread] at h ⊢
      cases h
      exact ⟨source.lines, List.prefix_rfl, nofun, fun _ => rfl, hall⟩
    · rw [hread] at h ⊢
      cases h
      exact ⟨source.lines, List.prefix_rfl, nofun, fun _ => rfl, hall⟩
    · rw [hread] at h
      cases h

theorem log_prefix_read (source : LineSource) (path : Option String) (cache : Cache) :
    ((Session.start (path <|> source.name) cache).readLines 1 source.lines).2.log <+:
      (source.read path cache).session.log := by
  obtain ⟨s, hs, ⟨e, -, hread⟩ | ⟨-, hends⟩⟩ := read_cases source path cache
  · rw [hs, hread]
  · rcases hends with ⟨fault, -, hread⟩ | ⟨b, outer, -, hread⟩ | ⟨-, hread⟩
    · rw [hs, hread]
    · rw [hs, hread]
    · rw [hs, hread]
      exact List.prefix_append _ _

/-- If a file is read, its log tells of all blocks of the forest, and then how many outermost ones
there are and in which file. If it is not, the log has the reports on the lines before the one that
cannot be read, one on each event; on all lines, if there is no such line; and no other report.
Behind any number of lines, a first part of the log has been written, and in it the blocks that are
reported to be opened outnumber those that are reported to be closed by the ones that are open. -/
theorem log_of_read (source : LineSource) (path : Option String) (cache : Cache) :
    (∀ forest, (source.read path cache).result = .ok forest →
      ∃ log final, (source.read path cache).session.log = log ++ [final] ∧
        Block.Reported forest log ∧
        final.message = "Found " ++ toString forest.length ++ " top-level blocks in " ++
          (path <|> source.name).getD "None") ∧
    (∀ e, (source.read path cache).result = .error e →
      ∃ before, before <+: source.lines ∧
        (∀ line, e.line? = some line → line = before.length + 1 ∧ before ≠ source.lines) ∧
        (e.line? = none → before = source.lines) ∧
        (source.read path cache).session.log = reports [] (Event.ofLines before) ∧
        (source.read path cache).session.log.map LogEntry.event? =
          (Event.ofLines before).map some) ∧
    ∀ n, ∃ s, ((Session.start (path <|> source.name) cache).readLines 1
        (source.lines.take n)).2 = s ∧
      s.log <+: (source.read path cache).session.log ∧
      s.log.countP LogEntry.isOpening = s.log.countP LogEntry.isClosing + s.nesting.length := by
  refine ⟨?_, fun e he => log_of_read_error he, ?_⟩
  · intro forest hforest
    obtain ⟨log, hlog, hreported⟩ := log_of_read_ok hforest
    exact ⟨log, _, hlog, hreported, rfl⟩
  · intro n
    have hstart : Session.Reachable (path <|> source.name)
        (.start (path <|> source.name) cache) := .start cache
    refine ⟨_, rfl, ?_, (hstart.readLines 1 (source.lines.take n)).traced.countP_log⟩
    exact (Session.log_prefix_of_take _ 1 n source.lines).trans (log_prefix_read source path cache)

example :
    let lines := ["#ifdef A", "#if !B", "#endif", "#else", "#endif"]
    ((ofLines none lines).read none .empty).session.log.map LogEntry.message =
      ["Line 1: opening block with defined(A)", "Line 2: opening block with !B",
        "Line 3: closing block opened at 2"] := by
  decide +kernel

end LineSource

end Conditionals
