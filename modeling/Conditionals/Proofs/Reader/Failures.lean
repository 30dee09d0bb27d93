/-
Conditionals.Proofs.Reader.Failures — requests that fail leave no trace.

* `Session.answer_of_isError` — a request that is answered with an error
  changes nothing of a session but its cache;
* `Session.succeeding` — the requests of a run that are answered otherwise;
* `Session.answers_without_failures` — asked for these alone, a session
  gives the answers that it gave to them in the whole run, and ends alike.

The two runs have different caches as soon as a request has been left out,
so the second part rests on `Session.answer_of_view_eq`: no answer depends
on what the cache holds.
-/
import Conditionals.Proofs.Reader.Sharing

namespace Conditionals

/-- The request has failed. -/
def Answer.isError : Answer → Bool
  | condition (.error _) => true
  | step (.error _) _ => true
  | blocks (.error _) _ => true
  | _ => false

namespace Session

variable {s t : Session} {text : String} {line : Int} {e : ReadError}

/-! ## One request -/

theorem openBlock_of_error (h : (s.openBlock text line).1 = .error e) :
    (s.openBlock text line).2 = s.withCache (s.openBlock text line).2.cache := by
  cases hp : Condition.parse text with
  | ok c =>
    rw [openBlock_of_parse hp] at h
    cases h
  | error cause =>
    rw [openBlock_of_parse_error hp]
    rfl

theorem eq_withCache_of_eq (h : t = s) : t = s.withCache t.cache := by
  rw [h]
  rfl

/-- Closing a block fails only where none is open, and then not even the cache is touched. -/
theorem closeBlock_of_error (h : (s.closeBlock line).1 = .error e) : (s.closeBlock line).2 = s := by
  cases hn : s.nesting with
  | nil => rw [closeBlock_nil hn]
  | cons b outer =>
    rw [closeBlock_cons hn] at h
    cases h

theorem readDirective_of_error {d : Directive} {payload : String}
    (h : (s.readDirective line d payload).1 = .error e) :
    (s.readDirective line d payload).2 = s.withCache (s.readDirective line d payload).2.cache := by
  cases d with
  | ifDefined => exact openBlock_of_error h
  | ifNotDefined => exact openBlock_of_error h
  | ifTrue => exact openBlock_of_error h
  | endIf => exact eq_withCache_of_eq (closeBlock_of_error h)
  | elseIf => rfl
  | otherwise => rfl

theorem readLine_of_error (h : (s.readLine line text).1 = .error e) :
    (s.readLine line text).2 = s.withCache (s.readLine line text).2.cache := by
  unfold readLine at h ⊢
  cases hc : Directive.classify text with
  | none => rfl
  | some found =>
    rw [hc] at h
    exact readDirective_of_error h

theorem finish_of_error (h : s.finish.1 = .error e) : s.finish.2 = s := by
  unfold finish at h ⊢
  cases hn : s.nesting with
  | nil =>
    rw [hn] at h
    cases h
  | cons b outer => rfl

theorem exists_error_of_isError {result : Except ReadError Unit} {view : Session}
    (h : (Answer.step result view).isError = true) : ∃ e, result = .error e := by
  cases result with
  | ok => cases h
  | error e => exact ⟨e, rfl⟩

/-- A request that fails leaves all of the session but the cache. -/
theorem answer_of_isError {request : Request} (h : (s.answer request).1.isError = true) :
    (s.answer request).2 = s.withCache (s.answer request).2.cache := by
  cases request with
  | parse text => rfl
  | openBlock text line =>
    obtain ⟨e, he⟩ := exists_error_of_isError h
    exact openBlock_of_error he
  | closeBlock line =>
    obtain ⟨e, he⟩ := exists_error_of_isError h
    exact eq_withCache_of_eq (closeBlock_of_error he)
  | readLine line text =>
    obtain ⟨e, he⟩ := exists_error_of_isError h
    exact readLine_of_error he
  | finish =>
    have h : (Answer.blocks s.finish.1 s.finish.2.view).isError = true := h
    cases hf : s.finish.1 with
    | ok bs =>
      rw [hf] at h
      cases h
    | error e => exact eq_withCache_of_eq (finish_of_error hf)
  | readFile source path => rfl

/-! ## Runs of requests -/

/-- The session after requests. -/
def after (s : Session) : List Request → Session
  | [] => s
  | request :: rest => (s.answer request).2.after rest

/-- The requests of a run that do not fail in it. -/
def succeeding (s : Session) : List Request → List Request
  | [] => []
  | request :: rest =>
    let (answer, t) := s.answer request
    if answer.isError then t.succeeding rest else request :: t.succeeding rest

/-- A session with the same view answers the requests that do not fail as they are answered among
all of them. -/
theorem answers_succeeding (h : s.view = t.view) (requests : List Request) :
    (t.answers (s.succeeding requests)).map Answer.plain =
        ((s.answers requests).filter fun answer => !answer.isError).map Answer.plain ∧
      (t.after (s.succeeding requests)).view = (s.after requests).view := by
  induction requests generalizing s t with
  | nil => exact ⟨rfl, h.symm⟩
  | cons request rest ih =>
    rw [succeeding, answers, after]
    cases hfail : (s.answer request).1.isError with
    | true =>
      -- The other session is not asked. It has the view that the failure has left.
      have hview : (s.answer request).2.view = t.view := by
        rw [answer_of_isError hfail, ← h]
        rfl
      simpa [hfail] using ih hview
    | false =>
      obtain ⟨hanswer, hview⟩ := answer_of_view_eq h request
      obtain ⟨hrest, hafter⟩ := ih hview
      simp only [hfail, Bool.not_false, List.filter_cons_of_pos, List.map_cons, answers, after,
        Bool.false_eq_true, if_false]
      exact ⟨by rw [hrest, hanswer], hafter⟩

/-- In every session, a request that fails, to open or to close a block or any other, changes
nothing but the cache, out of which nothing is taken: the open blocks, the closed ones and the
reports are as they were. So the requests that fail can be left out of a run. Each of the others is
answered as before, with the same outcome, open blocks, closed blocks and reports, and the session
ends with these too. -/
theorem answers_without_failures (s : Session) :
    (∀ text line e, (s.openBlock text line).1 = .error e →
      (s.openBlock text line).2 = s.withCache (s.openBlock text line).2.cache) ∧
    (∀ line e, (s.closeBlock line).1 = .error e → (s.closeBlock line).2 = s) ∧
    (∀ request, (s.answer request).1.isError = true →
      (s.answer request).2 = s.withCache (s.answer request).2.cache ∧
        s.Grows (s.answer request).2) ∧
    ∀ requests,
      (s.answers (s.succeeding requests)).map Answer.plain =
        ((s.answers requests).filter fun answer => !answer.isError).map Answer.plain ∧
      (s.after (s.succeeding requests)).view = (s.after requests).view := by
  refine ⟨?_, ?_, ?_, ?_⟩
  · intro text line e h
    exact openBlock_of_error h
  · intro line e h
    exact closeBlock_of_error h
  · intro request h
    exact ⟨answer_of_isError h, (s.grows_answer request).1⟩
  · intro requests
    exact answers_succeeding rfl requests

end Session

end Conditionals
