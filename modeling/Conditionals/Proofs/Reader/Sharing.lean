/-
Conditionals.Proofs.Reader.Sharing — several readers that share one cache.

Every reader has its own open blocks, closed blocks and reports; the cache
goes from hand to hand (`Sharing`). A `Request` is one thing that a reader
is asked to do: to read a condition, to open or close a block, to read a
line, to end a file, or to read a whole file.

* `Session.view` — all of a session but its cache;
* `Session.answer_of_view_eq` — sessions with the same view answer alike
  and keep the same view;
* `Sharing.answers_shared_eq_alone` — so each of the readers is answered as
  if it were alone with a cache of its own, and an atom has one copy for
  all of them.
-/
import Conditionals.Proofs.Condition.Interning
import Conditionals.Proofs.Reader.Renumbering
import Mathlib.Logic.Function.Basic

namespace Conditionals

/-! ## Requests and answers -/

/-- What a reader can be asked to do. -/
inductive Request where
  | parse (text : String)
  | openBlock (text : String) (line : Int)
  | closeBlock (line : Int)
  | readLine (line : Int) (text : String)
  | finish
  | readFile (source : LineSource) (path : Option String)

/-- What comes of a request, with all that can then be seen of the session. -/
inductive Answer where
  | condition (result : Except SyntaxError (Formula Interned))
  | step (result : Except ReadError Unit) (view : Session)
  | blocks (result : Except ReadError (List Block)) (view : Session)

/-- The answer without the numbers of the copies, on which no equality of formulas depends. -/
def Answer.plain : Answer → Answer
  | condition result => condition (result.map Formula.erase)
  | step result view => step result view
  | blocks result view => blocks result view

/-- The copies of atoms in the answer. -/
def Answer.copies : Answer → List Interned
  | condition (.ok f) => f.atoms
  | _ => []

namespace Session

/-- The session with another cache. -/
def withCache (s : Session) (cache : Cache) : Session :=
  { s with cache }

/-- All that can be seen of a session: it without its cache. -/
def view (s : Session) : Session :=
  s.withCache .empty

/-- Does what a reader is asked to. A whole file is read by a session of its own, which has the
cache only for that time. -/
def answer (s : Session) : Request → Answer × Session
  | .parse text =>
    let (result, cache) := Condition.parseWith s.cache text
    (.condition result, s.withCache cache)
  | .openBlock text line =>
    let (result, t) := s.openBlock text line
    (.step result t.view, t)
  | .closeBlock line =>
    let (result, t) := s.closeBlock line
    (.step result t.view, t)
  | .readLine line text =>
    let (result, t) := s.readLine line text
    (.step result t.view, t)
  | .finish =>
    let (result, t) := s.finish
    (.blocks result t.view, t)
  | .readFile source path =>
    let reading := source.read path s.cache
    (.blocks reading.result reading.session.view, s.withCache reading.session.cache)

/-- The answers of a reader that is alone. -/
def answers (s : Session) : List Request → List Answer
  | [] => []
  | request :: rest =>
    let (answer, t) := s.answer request
    answer :: t.answers rest

end Session

/-- Readers with one cache for all. -/
structure Sharing (ι : Type) where
  cache : Cache
  /-- The session of each reader. What it says of the cache is out of date. -/
  sessions : ι → Session

namespace Sharing

variable {ι : Type} [DecidableEq ι]

/-- Readers that have not been asked for anything. The cache may have been used before. -/
def start (paths : ι → Option String) (cache : Cache) : Sharing ι :=
  ⟨cache, fun user => .start (paths user) cache⟩

/-- One of the readers does what it is asked to, with the cache as the others have left it. -/
def answer (w : Sharing ι) (user : ι) (request : Request) : Answer × Sharing ι :=
  let (answer, s) := ((w.sessions user).withCache w.cache).answer request
  (answer, ⟨s.cache, Function.update w.sessions user s⟩)

/-- What comes of requests to any of the readers, in any order. -/
def answers (w : Sharing ι) : List (ι × Request) → List (ι × Answer) × Sharing ι
  | [] => ([], w)
  | (user, request) :: rest =>
    let (answer, w') := w.answer user request
    let (others, last) := w'.answers rest
    ((user, answer) :: others, last)

/-- The entries of one of the readers. -/
def ofUser {α : Type} (user : ι) (entries : List (ι × α)) : List α :=
  (entries.filter fun entry => entry.1 = user).map Prod.snd

/-- The copies of atoms that the readers have been given. -/
def copies (given : List (ι × Answer)) : List Interned :=
  given.flatMap fun entry => entry.2.copies

@[simp] theorem ofUser_cons_self {α : Type} (user : ι) (x : α) (entries : List (ι × α)) :
    ofUser user ((user, x) :: entries) = x :: ofUser user entries := by
  simp [ofUser]

theorem ofUser_cons_of_ne {α : Type} {user other : ι} (h : other ≠ user) (x : α)
    (entries : List (ι × α)) : ofUser user ((other, x) :: entries) = ofUser user entries := by
  simp [ofUser, h]

end Sharing

/-! ## Sessions with the same view -/

theorem OpenBlock.renumber_id (b : OpenBlock) : b.renumber id = b := by
  simp [renumber]

theorem LogEntry.renumber_id (entry : LogEntry) : entry.renumber id = entry := by
  cases entry <;> rfl

theorem ReadError.renumber_id (e : ReadError) : e.renumber id = e := by
  cases e <;> rfl

namespace Session

variable {s t : Session}

/-- Sessions with the same view are those of which one follows the other on the same lines. -/
theorem view_eq_iff_follows : s.view = t.view ↔ (start none .empty).Follows id s t := by
  have hopen : OpenBlock.renumber id = id := funext OpenBlock.renumber_id
  have hlog : LogEntry.renumber id = id := funext LogEntry.renumber_id
  constructor
  · intro h
    obtain ⟨hpath, hnesting, hblocks, -, hentries⟩ := Session.mk.inj h
    exact ⟨hpath.symm, by simp [hopen, hnesting], by simp [start, hblocks],
      by simp [start, hlog, hentries]⟩
  · intro h
    have hnesting := h.nesting_eq
    have hblocks := h.blocks_eq
    have hentries := h.log_eq
    simp only [hopen, List.map_id] at hnesting
    simp only [start, List.nil_append, Block.renumberAll_id] at hblocks
    simp only [start, List.nil_append, hlog, List.map_id] at hentries
    simp [view, withCache, h.path_eq, hnesting, hblocks, hentries]

/-- Two outcomes of a step are seen alike. -/
def SeenAlike {α : Type} (x y : Except ReadError α × Session) : Prop :=
  x.1 = y.1 ∧ x.2.view = y.2.view

theorem FollowsBy.seenAlike {x y : Except ReadError Unit × Session}
    (h : (start none .empty).FollowsBy id x y) : SeenAlike x y := by
  refine ⟨?_, view_eq_iff_follows.2 h.2⟩
  rw [h.1]
  cases x.1 with
  | error e => exact congrArg Except.error e.renumber_id.symm
  | ok => rfl

theorem finish_of_view_eq (h : s.view = t.view) : SeenAlike s.finish t.finish := by
  obtain ⟨path, nesting, blocks, cache, log⟩ := s
  obtain ⟨path', nesting', blocks', cache', log'⟩ := t
  obtain ⟨rfl, rfl, rfl, -, rfl⟩ := Session.mk.inj h
  cases nesting <;> exact ⟨rfl, rfl⟩

theorem readAll_of_view_eq (h : s.view = t.view) (source : LineSource) :
    SeenAlike (source.readAll s) (source.readAll t) := by
  have hlines : SeenAlike (s.readLines 1 source.lines) (t.readLines 1 source.lines) :=
    ((view_eq_iff_follows.1 h).readLines_same (fun _ => rfl) source.lines).seenAlike
  unfold LineSource.readAll
  cases hs : s.readLines 1 source.lines with
  | mk x s' =>
    cases ht : t.readLines 1 source.lines with
    | mk y t' =>
      rw [hs, ht] at hlines
      obtain ⟨rfl, hview⟩ : x = y ∧ s'.view = t'.view := hlines
      cases x with
      | error e => exact ⟨rfl, hview⟩
      | ok =>
        cases source.fault with
        | some fault => exact ⟨rfl, hview⟩
        | none => exact finish_of_view_eq hview

/-- Whatever their caches, sessions with the same view answer alike and have the same view then. -/
theorem answer_of_view_eq (h : s.view = t.view) (request : Request) :
    (s.answer request).1.plain = (t.answer request).1.plain ∧
      (s.answer request).2.view = (t.answer request).2.view := by
  have hfollows := view_eq_iff_follows.1 h
  have hstep : ∀ {x y : Except ReadError Unit × Session}, SeenAlike x y →
      (Answer.step x.1 x.2.view).plain = (Answer.step y.1 y.2.view).plain ∧
        x.2.view = y.2.view := by
    intro x y hxy
    rw [hxy.1, hxy.2]
    exact ⟨rfl, rfl⟩
  cases request with
  | parse text =>
    exact ⟨congrArg Answer.condition (Condition.parseWith_erase s.cache t.cache text), h⟩
  | openBlock text line => exact hstep (hfollows.openBlock text line).seenAlike
  | closeBlock line => exact hstep (hfollows.closeBlock line).seenAlike
  | readLine line text => exact hstep (hfollows.readLine line text).seenAlike
  | finish =>
    have hfinish := finish_of_view_eq h
    exact ⟨congrArg₂ Answer.blocks hfinish.1 hfinish.2, hfinish.2⟩
  | readFile source path =>
    have hread := @readAll_of_view_eq (.start (path <|> source.name) s.cache)
      (.start (path <|> source.name) t.cache) rfl source
    exact ⟨congrArg₂ Answer.blocks hread.1 hread.2, h⟩

/-! ## The cache only grows -/

/-- The cache of the second session has what that of the first one has, and under the same numbers. -/
def Grows (s t : Session) : Prop :=
  s.cache.atoms <+: t.cache.atoms

theorem grows_openBlock (s : Session) (text : String) (line : Int) :
    s.Grows (s.openBlock text line).2 := by
  have hgrows := (Condition.keeps_of_parseWith s.cache text).1
  cases hp : Condition.parse text with
  | error cause =>
    rw [openBlock_of_parse_error hp]
    exact hgrows
  | ok c =>
    rw [openBlock_of_parse hp]
    exact hgrows

theorem grows_closeBlock (s : Session) (line : Int) : s.Grows (s.closeBlock line).2 := by
  unfold closeBlock place
  split
  · exact List.prefix_rfl
  · simp only
    split <;> exact List.prefix_rfl

theorem grows_readLine (s : Session) (line : Int) (text : String) :
    s.Grows (s.readLine line text).2 :=
  readLine_induction (fun t text line h => h.trans (t.grows_openBlock text line))
    (fun t line h => h.trans (t.grows_closeBlock line)) List.prefix_rfl line text

theorem grows_readLines (s : Session) (line : Int) (lines : List String) :
    s.Grows (s.readLines line lines).2 :=
  readLines_induction (fun t text line h => h.trans (t.grows_openBlock text line))
    (fun t line h => h.trans (t.grows_closeBlock line)) List.prefix_rfl line lines

theorem grows_finish (s : Session) : s.Grows s.finish.2 := by
  unfold finish
  split <;> exact List.prefix_rfl

theorem grows_readAll (s : Session) (source : LineSource) : s.Grows (source.readAll s).2 := by
  have hlines := s.grows_readLines 1 source.lines
  unfold LineSource.readAll
  split
  case h_1 e t ht =>
    rw [ht] at hlines
    exact hlines
  case h_2 t ht =>
    rw [ht] at hlines
    split
    · exact hlines
    · exact hlines.trans t.grows_finish

/-- No answer takes an atom out of the cache, and the copies in an answer are kept. -/
theorem grows_answer (s : Session) (request : Request) :
    s.Grows (s.answer request).2 ∧
      ∀ x ∈ (s.answer request).1.copies, (s.answer request).2.cache.Keeps x := by
  cases request with
  | parse text =>
    obtain ⟨hgrows, hkeeps⟩ := Condition.keeps_of_parseWith s.cache text
    refine ⟨hgrows, fun x hx => ?_⟩
    have hx : x ∈ (Answer.condition (Condition.parseWith s.cache text).1).copies := hx
    cases hp : (Condition.parseWith s.cache text).1 with
    | error fault =>
      rw [hp] at hx
      cases hx
    | ok f =>
      rw [hp] at hx
      exact hkeeps f hp x hx
  | openBlock text line => exact ⟨s.grows_openBlock text line, nofun⟩
  | closeBlock line => exact ⟨s.grows_closeBlock line, nofun⟩
  | readLine line text => exact ⟨s.grows_readLine line text, nofun⟩
  | finish => exact ⟨s.grows_finish, nofun⟩
  | readFile source path =>
    exact ⟨grows_readAll (.start (path <|> source.name) s.cache) source, nofun⟩

end Session

/-! ## Runs -/

namespace Sharing

variable {ι : Type} [DecidableEq ι]

/-- A reader that has come as far as one that is alone is answered like it from then on. -/
theorem plain_answers_ofUser {w : Sharing ι} {user : ι} {s : Session}
    (h : (w.sessions user).view = s.view) (uses : List (ι × Request)) :
    (ofUser user (w.answers uses).1).map Answer.plain =
      (s.answers (ofUser user uses)).map Answer.plain := by
  induction uses generalizing w s with
  | nil => rfl
  | cons use uses ih =>
    obtain ⟨other, request⟩ := use
    rw [answers]
    by_cases hother : other = user
    case pos =>
      subst hother
      -- The cache is what the others have left, but the view is that of the session alone.
      have hview : ((w.sessions other).withCache w.cache).view = s.view := h
      obtain ⟨hanswer, hnext⟩ := Session.answer_of_view_eq hview request
      have hsession : ((w.answer other request).2.sessions other).view =
          (s.answer request).2.view := by
        simp [answer, hnext]
      simp only [ofUser_cons_self, Session.answers, List.map_cons, ih hsession]
      exact congrArg (· :: _) hanswer
    case neg =>
      have hsession : ((w.answer other request).2.sessions user).view = s.view := by
        simp [answer, Function.update_of_ne (Ne.symm hother), h]
      simp only [ofUser_cons_of_ne hother, ih hsession]

/-- The copies that any reader is given are in the cache at the end. -/
theorem keeps_of_answers (w : Sharing ι) (uses : List (ι × Request)) :
    w.cache.atoms <+: (w.answers uses).2.cache.atoms ∧
      ∀ x ∈ copies (w.answers uses).1, (w.answers uses).2.cache.Keeps x := by
  induction uses generalizing w with
  | nil => exact ⟨List.prefix_rfl, nofun⟩
  | cons use uses ih =>
    obtain ⟨user, request⟩ := use
    obtain ⟨hgrows, hkeeps⟩ := ((w.sessions user).withCache w.cache).grows_answer request
    obtain ⟨hrest, hothers⟩ := ih (w.answer user request).2
    refine ⟨hgrows.trans hrest, fun x hx => ?_⟩
    rw [answers, copies, List.flatMap_cons, List.mem_append] at hx
    rcases hx with hx | hx
    · exact (hkeeps x hx).mono hrest
    · exact hothers x hx

/-- Readers share a cache, whatever is in it, and are asked for anything in any order, also for what
fails. Each of them is answered as it would be alone with a new cache: every condition, error, open
or closed block and report is the same. And whoever mentions an atom is given the same copy of it. -/
theorem answers_shared_eq_alone (paths : ι → Option String) (cache : Cache)
    (uses : List (ι × Request)) :
    (∀ user, (ofUser user ((start paths cache).answers uses).1).map Answer.plain =
      ((Session.start (paths user) .empty).answers (ofUser user uses)).map Answer.plain) ∧
    ∀ x ∈ copies ((start paths cache).answers uses).1,
      ∀ y ∈ copies ((start paths cache).answers uses).1, x.atom = y.atom → x = y := by
  constructor
  · intro user
    exact @plain_answers_ofUser _ _ (start paths cache) user (.start (paths user) .empty) rfl uses
  · intro x hx y hy hatom
    have hkeeps := (keeps_of_answers (start paths cache) uses).2
    exact (hkeeps x hx).eq_of_atom_eq (hkeeps y hy) hatom

end Sharing

end Conditionals
