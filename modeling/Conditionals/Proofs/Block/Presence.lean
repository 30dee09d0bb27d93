/-
Conditionals.Proofs.Block.Presence — conditions along the way down to a
block.

* `Formula.chain` — the conjunction of several formulas, nested to the
  left;
* `Block.Composed` — every block of a forest belongs to one file and has
  its own condition under the presence condition of the block around it;
* `Block.Enclosed` — a block of a forest with the blocks around it, the
  outermost first.

In a composed forest the presence condition of a block is the chain of the
conditions on the way down to it (`Block.Composed.presence_eq`).
-/
import Conditionals.Proofs.Block.Listing

namespace Conditionals

/-! ## Chains of conjunctions -/

namespace Formula

variable {α : Type}

/-- The conjunction of several formulas, from the left: `((f₁ && f₂) && …) && fₙ`. -/
def chain : List (Formula α) → Formula α
  | [] => .const true
  | f :: fs => fs.foldl conj f

/-- The formula that a chain puts in front of what is added to it: none if it is empty. -/
def chain? : List (Formula α) → Option (Formula α)
  | [] => none
  | f :: fs => some (chain (f :: fs))

/-- A formula under another one, if there is one. -/
def under (above : Option (Formula α)) (f : Formula α) : Formula α :=
  match above with
  | none => f
  | some g => conj g f

theorem chain_concat (fs : List (Formula α)) (f : Formula α) :
    chain (fs ++ [f]) = under (chain? fs) f := by
  cases fs with
  | nil => rfl
  | cons g gs => rw [List.cons_append, chain, List.foldl_append]; rfl

theorem chain?_concat (fs : List (Formula α)) (f : Formula α) :
    chain? (fs ++ [f]) = some (chain (fs ++ [f])) := by
  cases fs <;> rfl

theorem eval_foldl_conj (truth : α → Bool) (fs : List (Formula α)) (f : Formula α) :
    (fs.foldl conj f).eval truth = true ↔
      f.eval truth = true ∧ ∀ g ∈ fs, g.eval truth = true := by
  induction fs generalizing f with
  | nil => simp
  | cons g gs ih =>
    rw [List.foldl_cons, ih, eval, Connective.apply, Bool.and_eq_true, List.forall_mem_cons,
      and_assoc]

/-- A chain is true just if all its formulas are. -/
theorem eval_chain (truth : α → Bool) (fs : List (Formula α)) :
    (chain fs).eval truth = true ↔ ∀ f ∈ fs, f.eval truth = true := by
  cases fs with
  | nil => simp [chain, eval]
  | cons f fs => rw [chain, eval_foldl_conj, List.forall_mem_cons]

end Formula

namespace Block

open Formula (chain chain? under)

variable {path : Option String} {above : Option Condition} {bs cs : List Block} {b : Block}

/-! ## Composed presence conditions -/

/-- The blocks belong to one file, and each is present where its own condition holds as well as what
is `above` it. -/
inductive Composed (path : Option String) : Option Condition → List Block → Prop
  | nil {above : Option Condition} : Composed path above []
  | cons {above : Option Condition} {b : Block} {bs : List Block} :
      b.path = path → b.presence = under above b.condition →
      Composed path (some b.presence) b.children → Composed path above bs →
      Composed path above (b :: bs)

theorem Composed.append (hb : Composed path above bs) (hc : Composed path above cs) :
    Composed path above (bs ++ cs) := by
  induction bs with
  | nil => exact hc
  | cons b bs ih =>
    cases hb with
    | cons hpath hpresence hchildren hbs => exact .cons hpath hpresence hchildren (ih hbs)

theorem Composed.of_mem (h : Composed path above bs) (hb : b ∈ bs) :
    b.path = path ∧ b.presence = under above b.condition ∧
      Composed path (some b.presence) b.children := by
  induction bs with
  | nil => cases hb
  | cons a bs ih =>
    cases h with
    | cons hpath hpresence hchildren hbs =>
      rcases List.mem_cons.1 hb with rfl | hb
      · exact ⟨hpath, hpresence, hchildren⟩
      · exact ih hbs hb

/-- What the lines of a file say about its blocks determines a composed forest. -/
theorem Composed.eq_of_outlines (hb : Composed path above bs) (hc : Composed path above cs)
    (h : outlines bs = outlines cs) : bs = cs := by
  induction bs using forest_induction generalizing above cs with
  | nil =>
    cases cs with
    | nil => rfl
    | cons c cs => cases h
  | cons b bs ihc ih =>
    cases cs with
    | nil => cases h
    | cons c cs =>
      rw [outlines, outlines, outline_eq, outline_eq, List.cons.injEq, Outline.region.injEq] at h
      obtain ⟨⟨hstart, hend, hcondition, hchildren⟩, hrest⟩ := h
      cases hb with
      | cons hbpath hbpresence hbchildren hbs =>
        cases hc with
        | cons hcpath hcpresence hcchildren hcs =>
          have hpath : b.path = c.path := hbpath.trans hcpath.symm
          have hpresence : b.presence = c.presence := by
            rw [hbpresence, hcpresence, hcondition]
          rw [hpresence] at hbchildren
          have hin : b.children = c.children := ihc hbchildren hcchildren hchildren
          have heq : b = c := by
            cases b
            cases c
            simp only [Block.mk.injEq]
            exact ⟨hstart, hend, hpath, hcondition, hpresence, hin⟩
          rw [heq, ih hbs hcs hrest]

/-- What holds of the conditions and goes over to conjunctions holds of the presence conditions. -/
theorem Composed.forall_presence {P : Condition → Prop}
    (hconj : ∀ f g, P f → P g → P (.conj f g)) (h : Composed path above bs)
    (habove : ∀ f ∈ above, P f) (hconditions : ∀ b ∈ walkAll bs, P b.condition) :
    ∀ b ∈ walkAll bs, P b.presence := by
  induction bs using forest_induction generalizing above with
  | nil =>
    intro b hb
    rw [walkAll] at hb
    cases hb
  | cons a bs ihc ih =>
    cases h with
    | cons _ hpresence hchildren hbs =>
      have ha : P a.presence := by
        have hcondition : P a.condition := hconditions a (mem_walkAll_cons.2 (.inl rfl))
        rw [hpresence]
        cases above with
        | none => exact hcondition
        | some f => exact hconj f _ (habove f rfl) hcondition
      intro b hb
      rcases mem_walkAll_cons.1 hb with rfl | hin | hother
      · exact ha
      · refine ihc hchildren ?_ ?_ b hin
        · intro f hf
          cases hf
          exact ha
        · intro c hc
          exact hconditions c (mem_walkAll_cons.2 (.inr (.inl hc)))
      · refine ih hbs habove ?_ b hother
        intro c hc
        exact hconditions c (mem_walkAll_cons.2 (.inr (.inr hc)))

/-! ## The way down to a block -/

/-- `Enclosed bs around b`: going down from the forest `bs` through the blocks `around`, the
outermost first, one comes to the block `b`. -/
inductive Enclosed : List Block → List Block → Block → Prop
  | root {bs : List Block} {b : Block} : b ∈ bs → Enclosed bs [] b
  | inside {bs around : List Block} {a b : Block} :
      a ∈ bs → Enclosed a.children around b → Enclosed bs (a :: around) b

/-- A block's presence condition is the chain of the conditions on the way down to it. -/
theorem Composed.presence_eq {conditions : List Condition} {around : List Block}
    (h : Composed path (chain? conditions) bs) (hb : Enclosed bs around b) :
    b.path = path ∧
      b.presence = chain (conditions ++ around.map Block.condition ++ [b.condition]) := by
  induction hb generalizing conditions with
  | root hmem =>
    obtain ⟨hpath, hpresence, -⟩ := h.of_mem hmem
    refine ⟨hpath, ?_⟩
    rw [hpresence, List.map_nil, List.append_nil, Formula.chain_concat]
  | @inside bs around a b hmem hb ih =>
    obtain ⟨-, hpresence, hchildren⟩ := h.of_mem hmem
    rw [hpresence, ← Formula.chain_concat, ← Formula.chain?_concat] at hchildren
    obtain ⟨hpath, hchain⟩ := ih hchildren
    refine ⟨hpath, ?_⟩
    rw [hchain, List.map_cons, List.append_assoc conditions [a.condition], List.singleton_append]

/-- A forest's blocks are those that one can come down to. -/
theorem exists_enclosed_iff : (∃ around, Enclosed bs around b) ↔ b ∈ walkAll bs := by
  induction bs using forest_induction with
  | nil =>
    rw [walkAll]
    constructor
    · rintro ⟨around, h⟩
      cases h with
      | root hmem => cases hmem
      | inside hmem _ => cases hmem
    · intro h
      cases h
  | cons a bs ihc ih =>
    rw [mem_walkAll_cons, ← ihc, ← ih]
    constructor
    · rintro ⟨around, h⟩
      cases h with
      | root hmem =>
        rcases List.mem_cons.1 hmem with rfl | hmem
        · exact .inl rfl
        · exact .inr (.inr ⟨[], .root hmem⟩)
      | @inside _ around c _ hmem hb =>
        rcases List.mem_cons.1 hmem with rfl | hmem
        · exact .inr (.inl ⟨around, hb⟩)
        · exact .inr (.inr ⟨c :: around, .inside hmem hb⟩)
    · rintro (rfl | ⟨around, h⟩ | ⟨around, h⟩)
      · exact ⟨[], .root List.mem_cons_self⟩
      · exact ⟨a :: around, .inside List.mem_cons_self h⟩
      · cases h with
        | root hmem => exact ⟨[], .root (List.mem_cons_of_mem a hmem)⟩
        | @inside _ around c _ hmem hb =>
          exact ⟨c :: around, .inside (List.mem_cons_of_mem a hmem) hb⟩

end Block

end Conditionals
