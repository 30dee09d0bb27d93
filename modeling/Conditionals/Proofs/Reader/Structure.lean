/-
Conditionals.Proofs.Reader.Structure — reading a file rebuilds what its
directives say.

* `Session.listing` — the events a session has read: those of its closed
  blocks, and the first half of those of its open ones;
* `Session.Advances` — what reading some events makes of a session;
* `Event.Guarded` — no event closes a block that is not open;
* `Session.readLine_spec`, `Session.readLines_spec` — a line, and from it a
  list of lines, is read just if it is readable and guarded, and then the
  session advances by its events.

`LineSource.read_ok_iff_balanced` is the main statement: a file is read just
if its events are balanced, into the one forest with these events.
-/
import Conditionals.Proofs.Reader.Presence

namespace Conditionals

/-! ## Counting openings and closings -/

namespace Event

variable {xs ys : List Event} {depth : Nat}

theorem openings_append (xs ys : List Event) :
    openings (xs ++ ys) = openings xs + openings ys :=
  List.countP_append

theorem closings_append (xs ys : List Event) :
    closings (xs ++ ys) = closings xs + closings ys :=
  List.countP_append

/-- With `depth` blocks open at first, no event closes a block that is not open. -/
def Guarded (depth : Nat) (es : List Event) : Prop :=
  ∀ p, p <+: es → closings p ≤ depth + openings p

theorem guarded_nil (depth : Nat) : Guarded depth [] := by
  intro p hp
  rw [List.prefix_nil.1 hp]
  exact Nat.zero_le _

theorem guarded_opening (depth : Nat) (line : Int) (c : Condition) :
    Guarded depth [.opening line c] := by
  intro p hp
  rcases List.prefix_concat_iff.1 (show p <+: [] ++ [.opening line c] from hp) with rfl | hp
  · exact Nat.zero_le _
  · exact guarded_nil depth p hp

theorem guarded_closing_iff (depth : Nat) (line : Int) :
    Guarded depth [.closing line] ↔ 0 < depth := by
  constructor
  · intro h
    exact h _ List.prefix_rfl
  · intro hd p hp
    rcases List.prefix_concat_iff.1 (show p <+: [] ++ [.closing line] from hp) with rfl | hp
    · exact hd
    · exact guarded_nil depth p hp

theorem Guarded.of_append (h : Guarded depth (xs ++ ys)) : Guarded depth xs := by
  intro p hp
  exact h p (hp.trans (List.prefix_append xs ys))

/-- Events in two parts, where `after` blocks are open between them. -/
theorem guarded_append_iff {after : Nat} (h : after + closings xs = depth + openings xs) :
    Guarded depth (xs ++ ys) ↔ Guarded depth xs ∧ Guarded after ys := by
  constructor
  · intro hg
    constructor
    · exact hg.of_append
    · intro q hq
      have hle := hg (xs ++ q) ((List.prefix_append_right_inj xs).2 hq)
      rw [closings_append, openings_append] at hle
      omega
  · rintro ⟨hxs, hys⟩ p hp
    rcases List.prefix_or_prefix_of_prefix hp (List.prefix_append xs ys) with hin | ⟨q, rfl⟩
    · exact hxs p hin
    · have hle := hys q ((List.prefix_append_right_inj xs).1 hp)
      rw [closings_append, openings_append]
      omega

end Event

/-! ## The events that a session has read -/

/-- The events of an open block up to now. -/
def OpenBlock.listing (b : OpenBlock) : List Event :=
  .opening b.startLine b.condition :: Block.listingAll b.children

theorem OpenBlock.listing_addChild (b : OpenBlock) (child : Block) :
    (b.addChild child).listing = b.listing ++ child.listing := by
  unfold listing addChild
  rw [Block.listingAll_append, Block.listingAll_singleton, List.cons_append]

theorem OpenBlock.listing_close (b : OpenBlock) (endLine : Int) :
    (b.close endLine).listing = b.listing ++ [.closing endLine] := by
  unfold listing
  rw [Block.listing_eq, List.cons_append]
  rfl

namespace Session

open Event (Guarded openings closings ofLine ofLinesFrom)

variable {s s' s₁ s₂ : Session} {xs ys : List Event}

/-- The events of a session: its outermost blocks and then its open ones, from the outside. -/
def listing (s : Session) : List Event :=
  Block.listingAll s.blocks ++ s.nesting.reverse.flatMap OpenBlock.listing

theorem listing_of_nesting {b : OpenBlock} {outer : List OpenBlock} (h : s.nesting = b :: outer) :
    s.listing =
      Block.listingAll s.blocks ++ outer.reverse.flatMap OpenBlock.listing ++ b.listing := by
  rw [listing, h, List.reverse_cons, List.flatMap_append, List.flatMap_singleton, List.append_assoc]

theorem listing_place (s : Session) (b : Block) : (s.place b).listing = s.listing ++ b.listing := by
  cases hn : s.nesting with
  | nil =>
    have hplace : s.place b = { s with blocks := s.blocks ++ [b] } := by rw [place, hn]
    rw [hplace, listing, listing, hn, Block.listingAll_append, Block.listingAll_singleton,
      List.reverse_nil, List.flatMap_nil, List.append_nil, List.append_nil]
  | cons around outer =>
    have hplace : s.place b = { s with nesting := around.addChild b :: outer } := by rw [place, hn]
    rw [hplace, listing_of_nesting hn, listing_of_nesting rfl, OpenBlock.listing_addChild,
      ← List.append_assoc]

theorem length_nesting_place (s : Session) (b : Block) :
    (s.place b).nesting.length = s.nesting.length := by
  unfold place
  split
  case h_1 hn => rw [hn]
  case h_2 around outer hn => rw [hn, List.length_cons, List.length_cons]

/-- Reading the events `es` has made `s'` of `s`. -/
structure Advances (s : Session) (es : List Event) (s' : Session) : Prop where
  listing_eq : s'.listing = s.listing ++ es
  depth_eq : s'.nesting.length + closings es = s.nesting.length + openings es

theorem advances_nil (s : Session) : s.Advances [] s :=
  ⟨(List.append_nil _).symm, rfl⟩

theorem Advances.trans (h₁ : s.Advances xs s₁) (h₂ : s₁.Advances ys s₂) :
    s.Advances (xs ++ ys) s₂ := by
  refine ⟨?_, ?_⟩
  · rw [h₂.listing_eq, h₁.listing_eq, List.append_assoc]
  · have hxs := h₁.depth_eq
    have hys := h₂.depth_eq
    rw [Event.closings_append, Event.openings_append]
    omega

theorem advances_openBlock {text : String} {c : Condition} (line : Int)
    (h : Condition.parse text = .ok c) :
    ∃ s', s.openBlock text line = (.ok (), s') ∧ s.Advances [.opening line c] s' := by
  refine ⟨_, openBlock_of_parse h, ?_, rfl⟩
  rw [listing_of_nesting rfl]
  rfl

theorem advances_closeBlock (line : Int) (h : s.nesting ≠ []) :
    ∃ s', s.closeBlock line = (.ok (), s') ∧ s.Advances [.closing line] s' := by
  obtain ⟨b, outer, hn⟩ := List.exists_cons_of_ne_nil h
  refine ⟨_, closeBlock_cons hn, ?_, ?_⟩
  · rw [listing_place, OpenBlock.listing_close, listing_of_nesting hn, ← List.append_assoc]
    rfl
  · rw [length_nesting_place, hn]
    rfl

/-! ## Reading lines -/

/-- A line is read just if it is readable and closes no block that is not open. -/
theorem readLine_spec (s : Session) (line : Int) (text : String) :
    ((Readable text ∧ Guarded s.nesting.length (ofLine line text).toList) ∧
      ∃ s', s.readLine line text = (.ok (), s') ∧ s.Advances (ofLine line text).toList s') ∨
    (¬ (Readable text ∧ Guarded s.nesting.length (ofLine line text).toList) ∧
      ∃ e s', s.readLine line text = (.error e, s')) := by
  rcases s.readLine_cases line text with ⟨hr, he, hread⟩ | ⟨hr, t, c, hparse, he, hread⟩ |
    ⟨hr, he, hread⟩ | ⟨hr, hread⟩
  · rw [he, hread]
    exact .inl ⟨⟨hr, Event.guarded_nil _⟩, s, rfl, s.advances_nil⟩
  · rw [he, hread]
    exact .inl ⟨⟨hr, Event.guarded_opening _ line c⟩, advances_openBlock line hparse⟩
  · rw [he, hread, Option.toList_some, Event.guarded_closing_iff]
    by_cases hn : s.nesting = []
    · refine .inr ⟨?_, _, _, closeBlock_nil hn⟩
      rintro ⟨-, hpos⟩
      rw [hn] at hpos
      exact Nat.lt_irrefl 0 hpos
    · exact .inl ⟨⟨hr, List.length_pos_iff.2 hn⟩, advances_closeBlock line hn⟩
  · refine .inr ⟨?_, hread⟩
    rintro ⟨hreadable, -⟩
    exact hr hreadable

/-- Lines are read just if all are readable and no event closes a block that is not open. -/
theorem readLines_spec (s : Session) (number : Nat) (lines : List String) :
    (((∀ text ∈ lines, Readable text) ∧ Guarded s.nesting.length (ofLinesFrom number lines)) ∧
      ∃ s', s.readLines number lines = (.ok (), s') ∧ s.Advances (ofLinesFrom number lines) s') ∨
    (¬ ((∀ text ∈ lines, Readable text) ∧ Guarded s.nesting.length (ofLinesFrom number lines)) ∧
      ∃ e s', s.readLines number lines = (.error e, s')) := by
  induction lines generalizing s number with
  | nil => exact .inl ⟨⟨nofun, Event.guarded_nil _⟩, s, rfl, s.advances_nil⟩
  | cons text rest ih =>
    rw [Event.ofLinesFrom_cons, List.forall_mem_cons]
    rcases s.readLine_spec number text with ⟨⟨hr, hg⟩, s₁, hread, h₁⟩ | ⟨hnot, e, s₁, hread⟩
    · have hcons : s.readLines number (text :: rest) = s₁.readLines (number + 1 : Nat) rest := by
        rw [readLines, hread]
        rfl
      rw [hcons, Event.guarded_append_iff h₁.depth_eq]
      rcases ih s₁ (number + 1) with ⟨⟨hrs, hgs⟩, s₂, hreads, h₂⟩ | ⟨hnot, hreads⟩
      · exact .inl ⟨⟨⟨hr, hrs⟩, hg, hgs⟩, s₂, hreads, h₁.trans h₂⟩
      · refine .inr ⟨?_, hreads⟩
        rintro ⟨⟨-, hrs⟩, -, hgs⟩
        exact hnot ⟨hrs, hgs⟩
    · refine .inr ⟨?_, e, s₁, by rw [readLines, hread]⟩
      rintro ⟨⟨hr, -⟩, hg⟩
      exact hnot ⟨hr, hg.of_append⟩

end Session

/-! ## Reading files -/

namespace LineSource

open Event (Guarded openings closings)

variable {source : LineSource} {path : Option String} {cache : Cache} {forest : List Block}

/-- The events of a file are balanced: its lines are readable, no event closes a block that is not
open, and as many blocks are closed as are opened. -/
structure Balanced (lines : List String) : Prop where
  readable : ∀ text ∈ lines, Readable text
  guarded : Guarded 0 (Event.ofLines lines)
  openings_eq : openings (Event.ofLines lines) = closings (Event.ofLines lines)

theorem read_eq_ok_iff :
    (source.read path cache).result = .ok forest ↔
      source.fault = none ∧ ∃ s, (Session.start (path <|> source.name) cache).readLines 1
        source.lines = (.ok (), s) ∧ s.nesting = [] ∧ s.blocks = forest := by
  have hresult : (source.read path cache).result =
      (source.readAll (.start (path <|> source.name) cache)).1 := rfl
  rw [hresult, readAll]
  cases (Session.start (path <|> source.name) cache).readLines 1 source.lines with
  | mk outcome s =>
    cases outcome with
    | error e => simp
    | ok =>
      cases hf : source.fault with
      | some fault => simp
      | none =>
        simp only [true_and, Prod.mk.injEq, exists_eq_left']
        unfold Session.finish
        split
        case h_1 b outer hn => simp [hn]
        case h_2 hn => simp [hn]

/-- What is read are the events of the file, put together with the presence conditions. -/
theorem listing_of_read (h : (source.read path cache).result = .ok forest) :
    Balanced source.lines ∧ Block.listingAll forest = Event.ofLines source.lines ∧
      Block.Composed (path <|> source.name) none forest := by
  obtain ⟨-, s, hs, hn, rfl⟩ := read_eq_ok_iff.1 h
  have hstart : Session.Reachable (path <|> source.name) (.start (path <|> source.name) cache) :=
    .start cache
  have hcomposed := (hstart.readLines 1 source.lines).composed
  rw [hs] at hcomposed
  rcases (Session.start (path <|> source.name) cache).readLines_spec 1 source.lines with
    ⟨⟨hr, hg⟩, s₁, hs₁, ha⟩ | ⟨-, e, s₁, he⟩
  · obtain rfl : s = s₁ := congrArg Prod.snd (hs.symm.trans hs₁)
    have hlisting : s.listing = Event.ofLines source.lines := ha.listing_eq
    have hdepth := ha.depth_eq
    rw [Session.listing, hn, List.reverse_nil, List.flatMap_nil, List.append_nil] at hlisting
    rw [hn, Session.start, List.length_nil, Nat.zero_add, Nat.zero_add] at hdepth
    exact ⟨⟨hr, hg, hdepth.symm⟩, hlisting, hcomposed.blocks⟩
  · have heq := hs.symm.trans he
    cases heq

theorem exists_read_of_balanced (hf : source.fault = none) (h : Balanced source.lines) :
    ∃ forest, (source.read path cache).result = .ok forest := by
  rcases (Session.start (path <|> source.name) cache).readLines_spec 1 source.lines with
    ⟨-, s, hs, ha⟩ | ⟨hnot, -⟩
  · have hdepth := ha.depth_eq
    have heq := h.openings_eq
    rw [Event.ofLines] at heq
    rw [heq, Session.start, List.length_nil, Nat.zero_add] at hdepth
    have hn : s.nesting = [] := List.length_eq_zero_iff.1 (by omega)
    exact ⟨s.blocks, read_eq_ok_iff.2 ⟨hf, s, hs, hn, rfl⟩⟩
  · exact absurd ⟨h.readable, h.guarded⟩ hnot

/-- A file is read just if its events are balanced. What is read then is the one forest with these
events, the presence conditions being composed; its blocks are nested as the lines of the file are,
and no line bounds two blocks. -/
theorem read_ok_iff_balanced (name : Option String) (lines : List String) (path : Option String)
    (cache : Cache) :
    ((∃ forest, ((ofLines name lines).read path cache).result = .ok forest) ↔
      (∀ text ∈ lines, Readable text) ∧
      (∀ es, es <+: Event.ofLines lines → closings es ≤ openings es) ∧
      openings (Event.ofLines lines) = closings (Event.ofLines lines)) ∧
    ∀ forest, ((ofLines name lines).read path cache).result = .ok forest →
      Block.listingAll forest = Event.ofLines lines ∧
      (∀ other, Block.listingAll other = Event.ofLines lines →
        Block.outlines other = Block.outlines forest) ∧
      Block.Composed (path <|> name) none forest ∧
      (∀ other, Block.listingAll other = Event.ofLines lines →
        Block.Composed (path <|> name) none other → other = forest) ∧
      (∀ b ∈ Block.walkAll forest, b.Ordered) ∧
      (forest.Pairwise fun c d => c.endLine < d.startLine) ∧
      ((Block.walkAll forest).flatMap fun b => [b.startLine, b.endLine]).Nodup := by
  constructor
  · constructor
    · rintro ⟨forest, h⟩
      obtain ⟨hb, -, -⟩ := listing_of_read h
      refine ⟨hb.readable, ?_, hb.openings_eq⟩
      intro es hes
      have hle := hb.guarded es hes
      omega
    · rintro ⟨hr, hg, heq⟩
      have hguarded : Guarded 0 (Event.ofLines lines) := by
        intro es hes
        have hle := hg es hes
        omega
      exact exists_read_of_balanced rfl ⟨hr, hguarded, heq⟩
  · intro forest h
    obtain ⟨-, hlisting, hcomposed⟩ := listing_of_read h
    have hascending : Event.Ascending (Block.listingAll forest) := by
      rw [hlisting]
      exact Event.ascending_ofLinesFrom 1 lines
    have houtlines : ∀ other, Block.listingAll other = Event.ofLines lines →
        Block.outlines other = Block.outlines forest := by
      intro other hother
      exact Block.outlines_eq_of_listing (hother.trans hlisting.symm)
    refine ⟨hlisting, houtlines, hcomposed, ?_, ?_, Block.apart_of_ascending hascending,
      Block.nodup_bounds hascending⟩
    · intro other hother hc
      exact hc.eq_of_outlines hcomposed (houtlines other hother)
    · intro b hb
      have hb : Event.Ascending b.listing :=
        List.Pairwise.sublist (Block.listing_within hb).sublist hascending
      exact Block.ordered_of_ascending hb

example :
    let lines := ["#ifdef A", "int a;", "  #if !B", "#endif", "#endif"]
    ((ofLines none lines).read none .empty).result.map Block.listingAll =
      .ok [.opening 1 (.atom (.defined "A")), .opening 3 (.neg (.atom (.bare "B"))),
        .closing 4, .closing 5] := by
  decide +kernel

end LineSource

end Conditionals
