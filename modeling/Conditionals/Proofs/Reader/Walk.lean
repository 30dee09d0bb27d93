/-
Conditionals.Proofs.Reader.Walk — the walk through what has been read.

* `Event.exists_opening_mem_iff` — where all lines are readable, the lines
  with an opening event are those with an opening directive;
* `LineSource.walk_in_order` — the walk is at each place of a tree once, each
  block in front of those inside it; so the walk through the blocks of a file
  goes through its opening directives, line by line.
-/
import Conditionals.Proofs.Block.Walk
import Conditionals.Proofs.Reader.NamedMacro

namespace Conditionals

/-! ## Opening lines -/

/-- The directives with a condition behind them are the three that open a block. -/
theorem Directive.exists_conditionText?_iff {d : Directive} {payload : String} :
    (∃ t, d.conditionText? payload = some t) ↔
      d = .ifDefined ∨ d = .ifNotDefined ∨ d = .ifTrue := by
  cases d <;> simp [conditionText?]

namespace Event

variable {lines : List String} {index : Nat} {d : Directive} {payload t : String}

/-- A readable line with an opening directive has an opening event. -/
theorem exists_opening_mem (h : ∀ text ∈ lines, Readable text)
    (hd : DirectiveAt lines index d payload) (ht : d.conditionText? payload = some t) :
    ∃ c, .opening (index + 1) c ∈ ofLines lines := by
  obtain ⟨text, htext, hc⟩ := Option.bind_eq_some_iff.1 hd
  have hne : d ≠ .endIf := by
    rintro rfl
    cases ht
  obtain ⟨-, -, hparse⟩ := h text (List.mem_of_getElem? htext) d payload hc
  obtain ⟨c, hparse⟩ := hparse t ht
  refine ⟨c, List.mem_filterMap.2 ⟨(text, index + 1), ?_, ?_⟩⟩
  · rw [List.mem_zipIdx_iff_le_and_getElem?_sub]
    exact ⟨Nat.le_add_left 1 index, htext⟩
  · change ofLine ((index + 1 : Nat) : Int) text = _
    unfold ofLine
    rw [hc]
    dsimp only
    rw [ofDirective, if_neg hne, ht, Option.map_some, hparse]
    rfl

theorem exists_opening_mem_iff (h : ∀ text ∈ lines, Readable text) {line : Int} :
    (∃ c, .opening line c ∈ ofLines lines) ↔
      ∃ (index : Nat) (d : Directive) (payload : String), line = index + 1 ∧
        DirectiveAt lines index d payload ∧ (d = .ifDefined ∨ d = .ifNotDefined ∨ d = .ifTrue) := by
  constructor
  · rintro ⟨c, hc⟩
    obtain ⟨index, d, payload, t, hline, hd, ht, -⟩ := exists_directive_of_opening hc
    exact ⟨index, d, payload, hline, hd, Directive.exists_conditionText?_iff.1 ⟨t, ht⟩⟩
  · rintro ⟨index, d, payload, rfl, hd, hopens⟩
    obtain ⟨t, ht⟩ := @Directive.exists_conditionText?_iff d payload |>.2 hopens
    exact exists_opening_mem h hd ht

end Event

/-- The first lines of the blocks are the lines of the opening events. -/
theorem Block.exists_startLine_iff {bs : List Block} {line : Int} :
    (∃ b ∈ walkAll bs, b.startLine = line) ↔ ∃ c, .opening line c ∈ listingAll bs := by
  constructor
  · rintro ⟨b, hb, rfl⟩
    exact ⟨b.condition, opening_mem_listingAll hb⟩
  · rintro ⟨c, hc⟩
    obtain ⟨b, hb, heq | heq⟩ := exists_of_mem_listingAll hc
    · cases heq
      exact ⟨b, hb, rfl⟩
    · cases heq

/-! ## Files -/

namespace LineSource

open Block (visit walk)

/-- The walk through a block is the block and the walks through its children, one after another. It
takes the blocks one by one from a list of trees, and that list is empty after as many visits as
there are blocks. It is at each place in the tree once, in lexicographic order. So the blocks that a
file is read into are walked through in the order of their first lines, and these are the lines of
the file with an opening directive. -/
theorem walk_in_order :
    (∀ b : Block, b.walk = b :: b.children.flatMap walk ∧
      (∀ n, b.walk[n]? = (visit^[n] [b]).head? ∧ (visit^[n] [b] = [] ↔ b.count ≤ n)) ∧
      b.places.map Prod.snd = b.walk ∧ (b.places.Pairwise fun x y => x.1 < y.1) ∧
      ∀ p c, (p, c) ∈ b.places ↔ b.at? p = some c) ∧
    ∀ (source : LineSource) (path : Option String) (cache : Cache) (forest : List Block),
      (source.read path cache).result = .ok forest →
      ((forest.flatMap walk).Pairwise fun b c => b.startLine < c.startLine) ∧
      ∀ line : Int, (∃ b ∈ forest.flatMap walk, b.startLine = line) ↔
        ∃ (index : Nat) (d : Directive) (payload : String), line = index + 1 ∧
          DirectiveAt source.lines index d payload ∧
          (d = .ifDefined ∨ d = .ifNotDefined ∨ d = .ifTrue) := by
  constructor
  · intro b
    refine ⟨b.walk_eq, fun n => ⟨Block.getElem?_walkAll [b] n, ?_⟩, b.map_snd_places,
      b.pairwise_places, fun p c => Block.mem_places⟩
    exact Block.iterate_visit_eq_nil_iff
  · intro source path cache forest h
    obtain ⟨hbalanced, hlisting, -⟩ := listing_of_read h
    have hascending : Event.Ascending (Block.listingAll forest) := by
      rw [hlisting]
      exact Event.ascending_ofLinesFrom 1 source.lines
    rw [← Block.walkAll_eq_flatMap]
    refine ⟨Block.pairwise_walkAll hascending, fun line => ?_⟩
    rw [Block.exists_startLine_iff, hlisting, Event.exists_opening_mem_iff hbalanced.readable]

/-- A file with a block inside another one and one behind them. -/
theorem walk_in_order_nested :
    ∃ forest, ((ofLines none ["#ifdef A", "#if B", "#endif", "#endif", "#ifndef C", "#endif"]).read
        none .empty).result = .ok forest ∧
      ((forest.flatMap walk).Pairwise fun b c => b.startLine < c.startLine) ∧
      (∃ b ∈ forest.flatMap walk, b.startLine = 2) ∧ ∃ b ∈ forest.flatMap walk, b.startLine = 5 := by
  have hok : ((ofLines none ["#ifdef A", "#if B", "#endif", "#endif", "#ifndef C", "#endif"]).read
      none .empty).result.isOk = true := by
    decide +kernel
  cases hforest : ((ofLines none ["#ifdef A", "#if B", "#endif", "#endif", "#ifndef C",
      "#endif"]).read none .empty).result with
  | error e =>
    rw [hforest] at hok
    cases hok
  | ok forest =>
    obtain ⟨hpairwise, hlines⟩ := walk_in_order.2 _ _ _ _ hforest
    refine ⟨forest, rfl, hpairwise, ?_, ?_⟩
    · exact (hlines 2).2 ⟨1, .ifTrue, "B", rfl, rfl, .inr (.inr rfl)⟩
    · exact (hlines 5).2 ⟨4, .ifNotDefined, "C", rfl, rfl, .inr (.inl rfl)⟩

end LineSource

end Conditionals
