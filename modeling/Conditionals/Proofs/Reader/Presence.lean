/-
Conditionals.Proofs.Reader.Presence — presence conditions in every state of
a session.

The presence condition of a block is made when the block is opened, from
that of the innermost open block. `Session.Composed` is what the steps keep
of it: along the open blocks each presence condition stands on the one
below, and the closed blocks under an open one, or outermost, form a
composed forest over it. `Session.presence_eq_chain` reads off where every
block stands and what its presence condition is then.
-/
import Conditionals.Proofs.Reader.Steps

namespace Conditionals

open Formula (chain chain? under)

/-! ## Nested open blocks -/

/-- Open blocks, the innermost first, each with a presence condition over the next one's and with a
composed forest over its own. -/
inductive OpenBlock.Nested (path : Option String) : List OpenBlock → Prop
  | nil : Nested path []
  | cons {b : OpenBlock} {outer : List OpenBlock} :
      b.path = path → b.presence = under (outer.head?.map OpenBlock.presence) b.condition →
      Block.Composed path (some b.presence) b.children → Nested path outer →
      Nested path (b :: outer)

namespace OpenBlock

variable {path : Option String} {o : OpenBlock} {inner outer : List OpenBlock}

/-- The innermost presence condition is the chain of all conditions. -/
theorem Nested.head_presence (h : Nested path outer) :
    outer.head?.map presence = chain? (outer.reverse.map condition) := by
  induction h with
  | nil => rfl
  | @cons b outer _ hpresence _ _ ih =>
    rw [List.head?_cons, Option.map_some, hpresence, ih, List.reverse_cons, List.map_append,
      List.map_singleton, Formula.chain?_concat, Formula.chain_concat]

theorem Nested.of_append (h : Nested path (inner ++ o :: outer)) :
    o.path = path ∧ o.presence = chain (outer.reverse.map condition ++ [o.condition]) ∧
      Block.Composed path (chain? (outer.reverse.map condition ++ [o.condition])) o.children := by
  induction inner with
  | nil =>
    cases h with
    | cons hpath hpresence hchildren houter =>
      rw [houter.head_presence, ← Formula.chain_concat] at hpresence
      rw [hpresence, ← Formula.chain?_concat] at hchildren
      exact ⟨hpath, hpresence, hchildren⟩
  | cons b inner ih =>
    cases h with
    | cons _ _ _ hrest => exact ih hrest

/-- The open block at a place that is counted from the outermost one. -/
theorem Nested.of_getElem? {nesting : List OpenBlock} {i : Nat} (h : Nested path nesting)
    (ho : nesting.reverse[i]? = some o) :
    o.path = path ∧ o.presence = chain ((nesting.reverse.take (i + 1)).map condition) ∧
      Block.Composed path (chain? ((nesting.reverse.take (i + 1)).map condition)) o.children := by
  obtain ⟨hlt, hget⟩ := List.getElem?_eq_some_iff.1 ho
  have hsplit : nesting.reverse = nesting.reverse.take i ++ o :: nesting.reverse.drop (i + 1) := by
    rw [← hget, ← List.drop_eq_getElem_cons hlt, List.take_append_drop]
  have hnesting : nesting =
      (nesting.reverse.drop (i + 1)).reverse ++ o :: (nesting.reverse.take i).reverse := by
    have hrev := congrArg List.reverse hsplit
    rw [List.reverse_reverse] at hrev
    rw [List.reverse_append, List.reverse_cons, List.append_assoc, List.singleton_append] at hrev
    exact hrev
  rw [hnesting] at h
  have hat := h.of_append
  rw [List.reverse_reverse] at hat
  rw [List.take_add_one, ho, Option.toList_some, List.map_append, List.map_singleton]
  exact hat

end OpenBlock

/-! ## The invariant of sessions -/

namespace Session

variable {path : Option String} {s : Session}

/-- The presence conditions of all blocks of a session stand on those around them. -/
structure Composed (path : Option String) (s : Session) : Prop where
  path_eq : s.path = path
  nesting : OpenBlock.Nested path s.nesting
  blocks : Block.Composed path none s.blocks

theorem composed_start (path : Option String) (cache : Cache) : (start path cache).Composed path :=
  ⟨rfl, .nil, .nil⟩

theorem Composed.openBlock (h : s.Composed path) (text : String) (line : Int) :
    (s.openBlock text line).2.Composed path := by
  by_cases hparse : ∃ c, Condition.parse text = .ok c
  · obtain ⟨c, hc⟩ := hparse
    rw [openBlock_of_parse hc]
    exact ⟨h.path_eq, .cons h.path_eq (s.presenceOf_eq c) .nil h.nesting, h.blocks⟩
  · have hnot : ∀ c, Condition.parse text ≠ .ok c := by
      intro c hc
      exact hparse ⟨c, hc⟩
    obtain ⟨cause, he⟩ := @openBlock_of_not_parse s text line hnot
    rw [he]
    exact ⟨h.path_eq, h.nesting, h.blocks⟩

/-- A block may be put where its presence condition stands on that of the innermost open one. -/
theorem Composed.place {b : Block} (h : s.Composed path)
    (hb : Block.Composed path (s.nesting.head?.map OpenBlock.presence) [b]) :
    (s.place b).Composed path := by
  unfold Session.place
  split
  case h_1 hnil =>
    rw [hnil] at hb
    exact ⟨h.path_eq, h.nesting, h.blocks.append hb⟩
  case h_2 around outer hcons =>
    have hnesting := h.nesting
    rw [hcons] at hb hnesting
    cases hnesting with
    | cons hpath hpresence hchildren houter =>
      exact ⟨h.path_eq, .cons hpath hpresence (hchildren.append hb) houter, h.blocks⟩

theorem Composed.closeBlock (h : s.Composed path) (line : Int) :
    (s.closeBlock line).2.Composed path := by
  have hnesting := h.nesting
  cases hn : s.nesting with
  | nil =>
    rw [closeBlock_nil hn]
    exact h
  | cons b outer =>
    rw [hn] at hnesting
    rw [closeBlock_cons hn]
    cases hnesting with
    | cons hpath hpresence hchildren houter =>
      refine Composed.place ⟨h.path_eq, houter, h.blocks⟩ ?_
      exact .cons hpath hpresence hchildren .nil

theorem Reachable.composed (h : Reachable path s) : s.Composed path := by
  induction h with
  | start cache => exact composed_start path cache
  | openBlock text line _ ih => exact ih.openBlock text line
  | closeBlock line _ ih => exact ih.closeBlock line

/-! ## The conditions of the blocks around -/

/-- What a block has from its file and from the conditions on the way down to it: their chain is its
presence condition, which is true just where all of them are. -/
structure Inherits (path : Option String) (conditions : List Condition)
    (ownPath : Option String) (presence : Condition) : Prop where
  path_eq : ownPath = path
  presence_eq : presence = chain conditions
  eval_iff : ∀ truth, presence.eval truth = true ↔ ∀ c ∈ conditions, c.eval truth = true

theorem inherits_of_eq {conditions : List Condition} {ownPath : Option String}
    {presence : Condition} (h : ownPath = path ∧ presence = chain conditions) :
    Inherits path conditions ownPath presence := by
  obtain ⟨rfl, rfl⟩ := h
  refine ⟨rfl, rfl, ?_⟩
  intro truth
  exact Formula.eval_chain truth conditions

/-- In every session that steps lead to, an open block has the chain of the conditions of the open
blocks up to itself, from the outermost one, as its presence condition; and a closed block, at
whatever depth under an open one or outermost, that of all conditions on the way down to it. -/
theorem presence_eq_chain (h : Reachable path s) :
    (∀ i o, s.nesting.reverse[i]? = some o →
      Inherits path ((s.nesting.reverse.take (i + 1)).map OpenBlock.condition) o.path o.presence ∧
      ∀ around b, Block.Enclosed o.children around b →
        Inherits path ((s.nesting.reverse.take (i + 1)).map OpenBlock.condition ++
          around.map Block.condition ++ [b.condition]) b.path b.presence) ∧
    ∀ around b, Block.Enclosed s.blocks around b →
      Inherits path (around.map Block.condition ++ [b.condition]) b.path b.presence := by
  have hs := h.composed
  constructor
  · intro i o ho
    obtain ⟨hpath, hpresence, hchildren⟩ := hs.nesting.of_getElem? ho
    refine ⟨inherits_of_eq ⟨hpath, hpresence⟩, ?_⟩
    intro around b hb
    exact inherits_of_eq (hchildren.presence_eq hb)
  · intro around b hb
    have hblocks : Block.Composed path (chain? []) s.blocks := hs.blocks
    exact inherits_of_eq (hblocks.presence_eq hb)

/-- Three blocks opened, with a text between them that is no condition, and the innermost one closed
under the other two. -/
theorem presence_eq_chain_across_failure :
    let outer := (((start none .empty).openBlock "A" 1).2.openBlock "A &&" 2).2.openBlock "!B" 3
    let s := ((outer.2.openBlock "C" 4).2.closeBlock 5).2
    Reachable none s ∧ ∃ o b, s.nesting.reverse[1]? = some o ∧ Block.Enclosed o.children [] b ∧
      o.presence = .conj (.atom (.bare "A")) (.neg (.atom (.bare "B"))) ∧
      b.presence =
        .conj (.conj (.atom (.bare "A")) (.neg (.atom (.bare "B")))) (.atom (.bare "C")) := by
  intro outer s
  have hs : Reachable none s := .closeBlock 5 (.openBlock "C" 4 (.openBlock "!B" 3
    (.openBlock "A &&" 2 (.openBlock "A" 1 (.start _)))))
  have hopen : s.nesting.reverse.map (fun o => (o.condition, o.children.map Block.condition)) =
      [(.atom (.bare "A"), []), (.neg (.atom (.bare "B")), [.atom (.bare "C")])] := by
    decide +kernel
  obtain ⟨a, os, hreverse, ha, hos⟩ := List.map_eq_cons_iff.1 hopen
  obtain ⟨o, rfl, ho⟩ := List.map_eq_singleton_iff.1 hos
  obtain ⟨b, hchildren, hb⟩ := List.map_eq_singleton_iff.1 (Prod.mk.inj ho).2
  have hat : s.nesting.reverse[1]? = some o := by rw [hreverse]; rfl
  have hinside : Block.Enclosed o.children [] b := .root (by rw [hchildren]; exact .head _)
  obtain ⟨hself, hbelow⟩ := (presence_eq_chain hs).1 1 o hat
  have hconditions : (s.nesting.reverse.take (1 + 1)).map OpenBlock.condition =
      [.atom (.bare "A"), .neg (.atom (.bare "B"))] := by
    rw [hreverse, ← (Prod.mk.inj ha).1, ← (Prod.mk.inj ho).1]
    rfl
  refine ⟨hs, o, b, hat, hinside, ?_, ?_⟩
  · rw [hself.presence_eq, hconditions]
    rfl
  · rw [(hbelow [] b hinside).presence_eq, hconditions, hb]
    rfl

end Session

end Conditionals
