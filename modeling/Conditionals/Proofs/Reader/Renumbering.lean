/-
Conditionals.Proofs.Reader.Renumbering — two sessions that do the same on
other lines.

* `Session.Follows` — one session has gone on from `base` as the other one
  has gone on from nothing, with its line numbers replaced. What the caches
  hold does not count;
* `Session.Follows.openBlock`, `Session.Follows.closeBlock`,
  `Session.Follows.readLine` — the same step of both has the same outcome,
  up to the line number, and leaves them so;
* `Session.Follows.readLines` — and so have two lists of lines, one of which
  has all directives of the other; `Session.Follows.readLines_same` is the
  case of the same lines.
-/
import Conditionals.Proofs.Block.Renumbering
import Conditionals.Proofs.Reader.Steps

namespace Conditionals

/-! ## Other line numbers -/

/-- The error of the same cause on another line. -/
def ReadError.renumber (r : Int → Int) : ReadError → ReadError
  | malformed cause line => malformed cause (r line)
  | unsupported directive line => unsupported directive (r line)
  | unbalanced line => unbalanced (r line)
  | unclosed startLine => unclosed (r startLine)
  | source fault => source fault

/-- The report of the same step on another line. -/
def LogEntry.renumber (r : Int → Int) : LogEntry → LogEntry
  | opening line condition => opening (r line) condition
  | closing line startLine => closing (r line) (r startLine)
  | found count path => found count path

namespace OpenBlock

variable {r : Int → Int}

def renumber (r : Int → Int) (b : OpenBlock) : OpenBlock :=
  ⟨r b.startLine, b.path, b.condition, b.presence, Block.renumberAll r b.children⟩

theorem renumber_addChild (b : OpenBlock) (child : Block) :
    (b.addChild child).renumber r = (b.renumber r).addChild (child.renumber r) := by
  simp [renumber, addChild, Block.renumberAll]

theorem renumber_close (b : OpenBlock) (line : Int) :
    (b.close line).renumber r = (b.renumber r).close (r line) := rfl

end OpenBlock

namespace Session

variable {base s t : Session} {r : Int → Int}

/-! ## Steps -/

/-- The session `t` has come from `base` to where it is as `s` has come from nothing, on lines that
are renumbered. -/
structure Follows (base : Session) (r : Int → Int) (s t : Session) : Prop where
  path_eq : t.path = s.path
  nesting_eq : t.nesting = s.nesting.map (OpenBlock.renumber r)
  blocks_eq : t.blocks = base.blocks ++ Block.renumberAll r s.blocks
  log_eq : t.log = base.log ++ s.log.map (LogEntry.renumber r)

/-- Two steps have the same outcome, up to the line number, and lead to sessions of which one
follows the other. -/
def FollowsBy (base : Session) (r : Int → Int) (x y : Except ReadError Unit × Session) : Prop :=
  y.1 = x.1.mapError (ReadError.renumber r) ∧ base.Follows r x.2 y.2

/-- A session with no open blocks follows its own start. -/
theorem follows_start {path : Option String} (hp : base.path = path) (hn : base.nesting = [])
    (r : Int → Int) (cache : Cache) : base.Follows r (.start path cache) base :=
  ⟨hp, hn, (List.append_nil _).symm, (List.append_nil _).symm⟩

theorem Follows.presenceOf_eq (h : base.Follows r s t) (c : Condition) :
    t.presenceOf c = s.presenceOf c := by
  rw [presenceOf, presenceOf, h.nesting_eq]
  cases s.nesting <;> rfl

theorem Follows.openBlock (h : base.Follows r s t) (text : String) (line : Int) :
    base.FollowsBy r (s.openBlock text line) (t.openBlock text (r line)) := by
  cases hp : Condition.parse text with
  | error cause =>
    rw [openBlock_of_parse_error hp, openBlock_of_parse_error hp]
    exact ⟨rfl, h.path_eq, h.nesting_eq, h.blocks_eq, h.log_eq⟩
  | ok c =>
    rw [openBlock_of_parse hp, openBlock_of_parse hp]
    refine ⟨rfl, h.path_eq, ?_, h.blocks_eq, ?_⟩
    · simp [OpenBlock.renumber, h.path_eq, h.presenceOf_eq, h.nesting_eq, Block.renumberAll]
    · simp [LogEntry.renumber, h.log_eq]

theorem Follows.place (h : base.Follows r s t) (b : Block) :
    base.Follows r (s.place b) (t.place (b.renumber r)) := by
  have hn := h.nesting_eq
  unfold Session.place
  cases hs : s.nesting with
  | nil =>
    rw [hs] at hn
    rw [hn]
    exact ⟨h.path_eq, rfl, by simp [h.blocks_eq, Block.renumberAll], h.log_eq⟩
  | cons around outer =>
    rw [hs] at hn
    rw [hn]
    exact ⟨h.path_eq, by simp [OpenBlock.renumber_addChild], h.blocks_eq, h.log_eq⟩

theorem Follows.closeBlock (h : base.Follows r s t) (line : Int) :
    base.FollowsBy r (s.closeBlock line) (t.closeBlock (r line)) := by
  have hn := h.nesting_eq
  cases hs : s.nesting with
  | nil =>
    rw [hs] at hn
    rw [closeBlock_nil hs, closeBlock_nil hn]
    exact ⟨rfl, h⟩
  | cons b outer =>
    rw [hs, List.map_cons] at hn
    rw [closeBlock_cons hs, closeBlock_cons hn, ← OpenBlock.renumber_close]
    have hclosed : base.Follows r
        { s with nesting := outer, log := s.log ++ [.closing line b.startLine] }
        { t with
          nesting := outer.map (OpenBlock.renumber r)
          log := t.log ++ [.closing (r line) (b.renumber r).startLine] } :=
      ⟨h.path_eq, rfl, h.blocks_eq, by simp [LogEntry.renumber, OpenBlock.renumber, h.log_eq]⟩
    exact ⟨rfl, hclosed.place (b.close line)⟩

theorem Follows.readDirective (h : base.Follows r s t) (line : Int) (d : Directive)
    (payload : String) :
    base.FollowsBy r (s.readDirective line d payload) (t.readDirective (r line) d payload) := by
  cases d with
  | ifDefined => exact h.openBlock _ line
  | ifNotDefined => exact h.openBlock _ line
  | ifTrue => exact h.openBlock _ line
  | endIf => exact h.closeBlock line
  | elseIf => exact ⟨rfl, h⟩
  | otherwise => exact ⟨rfl, h⟩

theorem Follows.readLine (h : base.Follows r s t) (line : Int) (text : String) :
    base.FollowsBy r (s.readLine line text) (t.readLine (r line) text) := by
  unfold Session.readLine
  cases Directive.classify text with
  | none => exact ⟨rfl, h⟩
  | some found => exact h.readDirective line found.1 found.2

end Session

/-! ## Lines without a directive -/

/-- Whether a numbered line is left out: it is chosen and has no directive. -/
def leftOut (chosen : Nat → Bool) (entry : String × Nat) : Bool :=
  chosen entry.2 && (Directive.classify entry.1).isNone

/-- The numbered lines of a file without the chosen ones that have no directive. -/
def linesWithout (chosen : Nat → Bool) (number : Nat) (lines : List String) :
    List (String × Nat) :=
  (lines.zipIdx number).filter fun entry => !leftOut chosen entry

theorem linesWithout_cons (chosen : Nat → Bool) (number : Nat) (text : String)
    (lines : List String) :
    linesWithout chosen number (text :: lines) =
      if leftOut chosen (text, number) then linesWithout chosen (number + 1) lines
      else (text, number) :: linesWithout chosen (number + 1) lines := by
  unfold linesWithout
  rw [List.zipIdx_cons, List.filter_cons]
  cases leftOut chosen (text, number) <;> rfl

theorem linesWithout_none (number : Nat) (lines : List String) :
    linesWithout (fun _ => false) number lines = lines.zipIdx number := by
  simp [linesWithout, leftOut]

namespace Session

variable {base s t : Session} {r : Int → Int}

/-- A line that is left out changes nothing. -/
theorem readLine_of_leftOut {chosen : Nat → Bool} {text : String} {number : Nat}
    (h : leftOut chosen (text, number) = true) (line : Int) :
    s.readLine line text = (.ok (), s) := by
  rw [leftOut, Bool.and_eq_true] at h
  rw [readLine, Option.isNone_iff_eq_none.1 h.2]

/-- Reading all lines comes to the same as reading them without the ones left out, where `r` sends
the numbers of the others to those that they have in the file. -/
theorem Follows.readLines {chosen : Nat → Bool} {number : Nat} {first : Int} {lines : List String}
    (h : base.Follows r s t)
    (hr : ∀ (i : Nat) (entry : String × Nat), (linesWithout chosen number lines)[i]? = some entry →
      r (first + i) = entry.2) :
    base.FollowsBy r (s.readLines first ((linesWithout chosen number lines).map Prod.fst))
      (t.readLines number lines) := by
  induction lines generalizing s t number first with
  | nil => exact ⟨rfl, h⟩
  | cons text lines ih =>
    rw [linesWithout_cons] at hr ⊢
    rw [Session.readLines.eq_2 t]
    split at hr
    case isTrue hout =>
      -- The line counts in the file, but has no number among those that are left.
      rw [if_pos hout, readLine_of_leftOut hout]
      exact ih h hr
    case isFalse hout =>
      have hfirst : r first = number := by simpa using hr 0 (text, number) rfl
      have hrest : ∀ (i : Nat) (entry : String × Nat),
          (linesWithout chosen (number + 1) lines)[i]? = some entry →
          r (first + 1 + i) = entry.2 := by
        intro i entry hi
        have hnext := hr (i + 1) entry hi
        rwa [Int.natCast_add, Int.add_comm (i : Int), ← Int.add_assoc] at hnext
      obtain ⟨hresult, hnext⟩ := h.readLine first text
      rw [hfirst] at hresult hnext
      rw [if_neg hout, List.map_cons, Session.readLines.eq_2 s]
      cases hs : s.readLine first text with
      | mk x s' =>
        cases ht : t.readLine number text with
        | mk y t' =>
          rw [hs, ht] at hresult hnext
          cases x with
          | error e =>
            obtain rfl : y = .error (e.renumber r) := hresult
            exact ⟨rfl, hnext⟩
          | ok =>
            obtain rfl : y = .ok () := hresult
            exact ih hnext hrest

/-- Two sessions read the same lines alike, each with numbers of its own. -/
theorem Follows.readLines_same {number : Nat} {first : Int} (h : base.Follows r s t)
    (hr : ∀ i : Nat, r (first + i) = number + i) (lines : List String) :
    base.FollowsBy r (s.readLines first lines) (t.readLines number lines) := by
  have hnumbers : ∀ (i : Nat) (entry : String × Nat),
      (linesWithout (fun _ => false) number lines)[i]? = some entry →
      r (first + i) = entry.2 := by
    intro i entry hi
    rw [linesWithout_none, List.getElem?_zipIdx, Option.map_eq_some_iff] at hi
    obtain ⟨text, -, rfl⟩ := hi
    rw [hr, Int.natCast_add]
  have hfollows := h.readLines hnumbers
  rwa [linesWithout_none, List.zipIdx_map_fst] at hfollows

/-! ## The end of the lines -/

/-- What comes of a file whose lines have been read, or have been read up to an error. -/
def conclude : Except ReadError Unit × Session → Except ReadError (List Block)
  | (.error e, _) => .error e
  | (.ok (), s) => s.finish.1

theorem Follows.finish (h : base.Follows r s t) :
    t.finish.1 = (s.finish.1.map fun bs => base.blocks ++ Block.renumberAll r bs).mapError
      (ReadError.renumber r) := by
  have hn := h.nesting_eq
  unfold Session.finish
  cases hs : s.nesting with
  | nil =>
    rw [hs] at hn
    rw [hn]
    exact congrArg Except.ok h.blocks_eq
  | cons b outer =>
    rw [hs] at hn
    rw [hn]
    rfl

theorem FollowsBy.conclude {x y : Except ReadError Unit × Session} (h : base.FollowsBy r x y) :
    conclude y = ((conclude x).map fun bs => base.blocks ++ Block.renumberAll r bs).mapError
      (ReadError.renumber r) := by
  obtain ⟨x, s⟩ := x
  obtain ⟨y, t⟩ := y
  obtain ⟨hresult, hfollows⟩ := h
  cases x with
  | error e =>
    obtain rfl : y = .error (e.renumber r) := hresult
    rfl
  | ok =>
    obtain rfl : y = .ok () := hresult
    exact hfollows.finish

end Session

/-- What comes of lines that arrive without fault. -/
theorem LineSource.result_ofLines (name path : Option String) (lines : List String) :
    ((ofLines name lines).readBlocks path).result =
      Session.conclude ((Session.start (path <|> name) .empty).readLines 1 lines) := by
  have hresult : ((ofLines name lines).readBlocks path).result =
      ((ofLines name lines).readAll (.start (path <|> name) .empty)).1 := rfl
  have hlines : (ofLines name lines).lines = lines := rfl
  rw [hresult, readAll, hlines]
  cases (Session.start (path <|> name) .empty).readLines 1 lines with
  | mk outcome s => cases outcome <;> rfl

end Conditionals
