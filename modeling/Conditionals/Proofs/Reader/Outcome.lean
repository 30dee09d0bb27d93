/-
Conditionals.Proofs.Reader.Outcome — which error reading a file ends with.

* `Offence` — a line that cannot be read behind the lines before it, and
  the error that says so; `FirstOffence` — the first such line of a file;
* `Session.readLine_of_offence`, `Session.readLine_of_not_offence` — a line
  is refused with the error of its offence, and read if it has none;
* `LineSource.interrupted` — a file of which some lines arrive before a
  fault.

`LineSource.readBlocks_outcome` is the main statement: the first offence
that arrives decides, whatever stands behind it; then the fault of the
source; then the last unmatched opening; and the source is closed in every
case.
-/
import Conditionals.Proofs.Reader.Unmatched

namespace Conditionals

/-! ## Offences -/

/-- The line `text` cannot be read behind the lines `before`: its directive is an unsupported one,
what it says is no condition, or it closes a block where none is open. -/
inductive Offence (before : List String) (text : String) : ReadError → Prop where
  | unsupported {d : Directive} {payload : String} :
      Directive.classify text = some (d, payload) → d = .elseIf ∨ d = .otherwise →
      Offence before text (.unsupported d (before.length + 1))
  | malformed {d : Directive} {payload t : String} {cause : SyntaxError} :
      Directive.classify text = some (d, payload) → d.conditionText? payload = some t →
      Condition.parse t = .error cause →
      Offence before text (.malformed cause (before.length + 1))
  | unbalanced {payload : String} :
      Directive.classify text = some (.endIf, payload) →
      (∀ line, ¬ Event.Unmatched (Event.ofLines before) line) →
      Offence before text (.unbalanced (before.length + 1))

/-- The line at an index cannot be read behind those before it. -/
def OffenceAt (lines : List String) (index : Nat) (e : ReadError) : Prop :=
  ∃ text, lines[index]? = some text ∧ Offence (lines.take index) text e

/-- The line at an index is the first that cannot be read. -/
structure FirstOffence (lines : List String) (index : Nat) (e : ReadError) : Prop where
  here : OffenceAt lines index e
  least : ∀ i < index, ∀ e, ¬ OffenceAt lines i e

/-- Where some line cannot be read, there is a first one. -/
theorem exists_firstOffence {lines : List String} {index : Nat} {e : ReadError}
    (h : OffenceAt lines index e) : ∃ i ≤ index, ∃ e, FirstOffence lines i e := by
  induction index using Nat.strongRecOn generalizing e with
  | ind index ih =>
    by_cases hearlier : ∃ i < index, ∃ e, OffenceAt lines i e
    · obtain ⟨i, hi, e', he'⟩ := hearlier
      obtain ⟨j, hj, hfirst⟩ := ih i hi he'
      exact ⟨j, by omega, hfirst⟩
    · refine ⟨index, Nat.le_refl _, e, h, ?_⟩
      intro i hi e' he'
      exact hearlier ⟨i, hi, e', he'⟩

/-- Whether a line can be read depends on no line behind it. -/
theorem offenceAt_congr {lines others : List String} {index : Nat} {e : ReadError}
    (h : others.take (index + 1) = lines.take (index + 1)) :
    OffenceAt others index e ↔ OffenceAt lines index e := by
  have hat : others[index]? = lines[index]? := by
    rw [← List.getElem?_take_of_lt (Nat.lt_succ_self index), h,
      List.getElem?_take_of_lt (Nat.lt_succ_self index)]
  have hbefore : others.take index = lines.take index := by
    have htake := congrArg (List.take index) h
    simpa [List.take_take] using htake
  rw [OffenceAt, OffenceAt, hat, hbefore]

theorem FirstOffence.congr {lines others : List String} {index : Nat} {e : ReadError}
    (hf : FirstOffence lines index e) (h : others.take (index + 1) = lines.take (index + 1)) :
    FirstOffence others index e := by
  refine ⟨(offenceAt_congr h).2 hf.here, ?_⟩
  intro i hi e' he
  refine hf.least i hi e' ((offenceAt_congr ?_).1 he)
  have htake := congrArg (List.take (i + 1)) h
  have hmin : min (i + 1) (index + 1) = i + 1 := by omega
  rwa [List.take_take, List.take_take, hmin] at htake

/-- A line without offence is readable. -/
theorem readable_of_not_offence {before : List String} {text : String}
    (h : ∀ e, ¬ Offence before text e) : Readable text := by
  intro d payload hc
  refine ⟨?_, ?_, ?_⟩
  · intro hd
    exact h _ (.unsupported hc (.inl hd))
  · intro hd
    exact h _ (.unsupported hc (.inr hd))
  · intro t ht
    cases hp : Condition.parse t with
    | ok c => exact ⟨c, rfl⟩
    | error cause => exact absurd (.malformed hc ht hp) (h _)

namespace Event

/-- A line that closes a block has a closing directive. -/
theorem classify_of_closing {line number : Int} {text : String}
    (h : ofLine line text = some (.closing number)) :
    ∃ payload, Directive.classify text = some (.endIf, payload) := by
  obtain ⟨d, payload, hc, hd⟩ := classify_of_ofLine h
  rcases ofDirective_cases hd with ⟨rfl, -⟩ | ⟨t, c, -, -, heq⟩
  · exact ⟨payload, hc⟩
  · cases heq

theorem ofLines_concat (lines : List String) (text : String) :
    ofLines (lines ++ [text]) =
      ofLines lines ++ (ofLine (lines.length + 1 : Nat) text).toList := by
  unfold ofLines ofLinesFrom
  rw [List.zipIdx_append, List.filterMap_append, Nat.add_comm 1, List.zipIdx_singleton]
  rfl

end Event

/-! ## Reading up to an offence -/

namespace Session

variable {s s' : Session} {before : List String} {text : String} {e : ReadError}

theorem readLine_of_offence (hs : s.listing = Event.ofLines before) (h : Offence before text e) :
    ∃ s', s.readLine (before.length + 1) text = (.error e, s') := by
  cases h with
  | unsupported hc hd =>
    rw [readLine, hc]
    rcases hd with rfl | rfl
    · exact ⟨s, rfl⟩
    · exact ⟨s, rfl⟩
  | malformed hc ht hp =>
    rw [readLine, hc]
    dsimp only
    rw [(readDirective_of_text _ ht).2]
    exact ⟨_, openBlock_of_parse_error hp⟩
  | unbalanced hc hn =>
    rw [readLine, hc]
    rw [← hs] at hn
    exact ⟨s, closeBlock_nil (nesting_eq_nil_iff.2 hn)⟩

theorem readLine_of_not_offence (hs : s.listing = Event.ofLines before)
    (h : ∀ e, ¬ Offence before text e) :
    ∃ s', s.readLine (before.length + 1) text = (.ok (), s') ∧
      s'.listing = Event.ofLines (before ++ [text]) := by
  have hlisting : ∀ s', s.Advances (Event.ofLine (before.length + 1 : Nat) text).toList s' →
      s'.listing = Event.ofLines (before ++ [text]) := by
    intro s' ha
    rw [ha.listing_eq, hs, Event.ofLines_concat]
  rcases s.readLine_cases (before.length + 1 : Nat) text with ⟨-, he, hread⟩ |
    ⟨-, t, c, hparse, he, hread⟩ | ⟨-, he, hread⟩ | ⟨hr, -⟩
  · rw [he] at hlisting
    exact ⟨s, hread, hlisting s s.advances_nil⟩
  · rw [he] at hlisting
    obtain ⟨s', hopen, ha⟩ := advances_openBlock (s := s) (before.length + 1 : Nat) hparse
    exact ⟨s', hread.trans hopen, hlisting s' ha⟩
  · rw [he] at hlisting
    have hn : s.nesting ≠ [] := by
      intro hn
      obtain ⟨payload, hc⟩ := Event.classify_of_closing he
      rw [nesting_eq_nil_iff, hs] at hn
      exact h _ (.unbalanced hc hn)
    obtain ⟨s', hclose, ha⟩ := advances_closeBlock (before.length + 1 : Nat) hn
    exact ⟨s', hread.trans hclose, hlisting s' ha⟩
  · exact absurd (readable_of_not_offence h) hr

theorem readLines_append_of_ok {line : Int} {xs : List String} (ys : List String)
    (h : s.readLines line xs = (.ok (), s')) :
    s.readLines line (xs ++ ys) = s'.readLines (line + xs.length) ys := by
  induction xs generalizing s line with
  | nil =>
    cases h
    simp
  | cons text xs ih =>
    rw [readLines] at h
    rw [List.cons_append, readLines]
    split at h
    case h_1 => cases h
    case h_2 s₁ hread =>
      rw [ih h, List.length_cons]
      congr 1
      omega

/-- Lines without offence are read. -/
theorem readLines_take {lines : List String} {index : Nat}
    (h : ∀ i < index, ∀ e, ¬ OffenceAt lines i e) (path : Option String) (cache : Cache) :
    ∃ s, (start path cache).readLines 1 (lines.take index) = (.ok (), s) ∧
      s.listing = Event.ofLines (lines.take index) := by
  induction index with
  | zero => exact ⟨_, rfl, rfl⟩
  | succ index ih =>
    obtain ⟨s, hs, hl⟩ := ih fun i hi => h i (by omega)
    rw [List.take_add_one]
    cases htext : lines[index]? with
    | none =>
      rw [Option.toList_none, List.append_nil]
      exact ⟨s, hs, hl⟩
    | some text =>
      have hno : ∀ e, ¬ Offence (lines.take index) text e := by
        intro e he
        exact h index (Nat.lt_succ_self index) e ⟨text, htext, he⟩
      obtain ⟨s', hread, hl'⟩ := readLine_of_not_offence hl hno
      refine ⟨s', ?_, hl'⟩
      rw [Option.toList_some, readLines_append_of_ok _ hs, readLines, Int.add_comm, hread]
      rfl

/-- The first offence ends the reading. -/
theorem readLines_of_firstOffence {lines : List String} {index : Nat}
    (h : FirstOffence lines index e) (path : Option String) (cache : Cache) :
    ∃ s, (start path cache).readLines 1 lines = (.error e, s) := by
  obtain ⟨text, htext, ho⟩ := h.here
  obtain ⟨s, hs, hl⟩ := readLines_take h.least path cache
  obtain ⟨s', hread⟩ := readLine_of_offence hl ho
  obtain ⟨hlt, hget⟩ := List.getElem?_eq_some_iff.1 htext
  have hlines : lines = lines.take index ++ text :: lines.drop (index + 1) := by
    rw [← hget, ← List.drop_eq_getElem_cons hlt, List.take_append_drop]
  refine ⟨s', ?_⟩
  rw [hlines, readLines_append_of_ok _ hs, readLines, Int.add_comm, hread]

end Session

/-! ## Files that are cut off -/

/-- The line at an index arrives before the fault, if there is one. -/
def Arrives (failure : Option (Nat × SourceFault)) (index : Nat) : Prop :=
  ∀ n fault, failure = some (n, fault) → index < n

namespace LineSource

/-- A file of which the lines before an index arrive and then a fault, or all lines. -/
def interrupted (name : Option String) (lines : List String) :
    Option (Nat × SourceFault) → LineSource
  | none => ofLines name lines
  | some (index, fault) => ⟨name, lines.take index, some fault, false⟩

theorem take_lines_interrupted {name : Option String} {lines : List String}
    {failure : Option (Nat × SourceFault)} {index : Nat} (h : Arrives failure index) :
    (interrupted name lines failure).lines.take (index + 1) = lines.take (index + 1) := by
  cases failure with
  | none => rfl
  | some cut =>
    have hlt : index < cut.1 := h cut.1 cut.2 rfl
    have hmin : min (index + 1) cut.1 = index + 1 := by omega
    change (lines.take cut.1).take (index + 1) = lines.take (index + 1)
    rw [List.take_take, hmin]

/-! ## The outcome -/

variable {source : LineSource} {index : Nat} {e : ReadError}

theorem result_of_firstOffence (h : FirstOffence source.lines index e) (path : Option String) :
    (source.readBlocks path).result = .error e := by
  obtain ⟨s, hs⟩ := Session.readLines_of_firstOffence h (path <|> source.name) .empty
  have hresult : (source.readBlocks path).result =
      (source.readAll (.start (path <|> source.name) .empty)).1 := rfl
  rw [hresult, readAll, hs]

/-- A source whose lines all are read has come to its fault or to its end. -/
theorem result_of_no_offence (source : LineSource) {lines : List String}
    (hl : source.lines = lines.take index) (h : ∀ i < index, ∀ e, ¬ OffenceAt lines i e)
    (path : Option String) :
    ∃ s : Session, s.listing = Event.ofLines source.lines ∧
      (source.readBlocks path).result =
        match source.fault with
        | some fault => .error (.source fault)
        | none => s.finish.1 := by
  obtain ⟨s, hs, hlisting⟩ := Session.readLines_take h (path <|> source.name) .empty
  have hresult : (source.readBlocks path).result =
      (source.readAll (.start (path <|> source.name) .empty)).1 := rfl
  refine ⟨s, by rw [hl, hlisting], ?_⟩
  rw [hresult, readAll, hl, hs]
  cases source.fault <;> rfl

/-- The first line that cannot be read decides what comes of a file, if it arrives: its error is the
outcome, also of every file that goes on differently behind it. Otherwise it is the fault of the
source, if there is one; otherwise, if blocks remain open, the unmatched opening on the last line
that has one; otherwise the file is read. In every case the source is closed. -/
theorem readBlocks_outcome (name path : Option String) (lines : List String)
    (failure : Option (Nat × SourceFault)) :
    (∀ index e, FirstOffence lines index e → Arrives failure index →
      ((interrupted name lines failure).readBlocks path).result = .error e ∧
      ∀ others failure', others.take (index + 1) = lines.take (index + 1) →
        Arrives failure' index →
        ((interrupted name others failure').readBlocks path).result = .error e) ∧
    (∀ n fault, failure = some (n, fault) → (∀ index e, FirstOffence lines index e → n ≤ index) →
      ((interrupted name lines failure).readBlocks path).result = .error (.source fault)) ∧
    (failure = none → (∀ index e, ¬ FirstOffence lines index e) →
      ((∃ line, Event.Unmatched (Event.ofLines lines) line) →
        ∃ line, IsGreatest {line | Event.Unmatched (Event.ofLines lines) line} line ∧
          ((interrupted name lines failure).readBlocks path).result = .error (.unclosed line)) ∧
      ((¬ ∃ line, Event.Unmatched (Event.ofLines lines) line) →
        ∃ forest, ((interrupted name lines failure).readBlocks path).result = .ok forest)) ∧
    ((interrupted name lines failure).readBlocks path).source.closed = true := by
  refine ⟨?_, ?_, ?_, rfl⟩
  · intro index e hf ha
    refine ⟨result_of_firstOffence (hf.congr (take_lines_interrupted ha)) path, ?_⟩
    intro others failure' hothers ha'
    refine result_of_firstOffence (hf.congr ?_) path
    rw [take_lines_interrupted ha', hothers]
  · rintro n fault rfl hlate
    have hnone : ∀ i < n, ∀ e, ¬ OffenceAt lines i e := by
      intro i hi e he
      obtain ⟨j, hj, e', hfirst⟩ := exists_firstOffence he
      have := hlate j e' hfirst
      omega
    obtain ⟨s, -, hresult⟩ :=
      result_of_no_offence (interrupted name lines (some (n, fault))) rfl hnone path
    exact hresult
  · rintro rfl hno
    have hnone : ∀ i < lines.length, ∀ e, ¬ OffenceAt lines i e := by
      intro i _ e he
      obtain ⟨j, -, e', hfirst⟩ := exists_firstOffence he
      exact hno j e' hfirst
    obtain ⟨s, hlisting, hresult⟩ :=
      result_of_no_offence (interrupted name lines none) List.take_length.symm hnone path
    have hlisting : s.listing = Event.ofLines lines := hlisting
    have hresult : ((interrupted name lines none).readBlocks path).result = s.finish.1 := hresult
    rw [hresult, ← hlisting]
    cases hn : s.nesting with
    | nil =>
      have hnot := Session.nesting_eq_nil_iff.1 hn
      refine ⟨fun ⟨line, hline⟩ => absurd hline (hnot line), fun _ => ⟨s.blocks, ?_⟩⟩
      rw [Session.finish, hn]
    | cons b outer =>
      have hascending : Event.Ascending s.listing := by
        rw [hlisting]
        exact Event.ascending_ofLinesFrom 1 lines
      have hgreatest := Session.isGreatest_unmatched hn hascending
      refine ⟨fun _ => ⟨b.startLine, hgreatest, ?_⟩, fun hnot => ?_⟩
      · rw [Session.finish, hn]
      · exact absurd ⟨b.startLine, hgreatest.1⟩ hnot

end LineSource

end Conditionals
