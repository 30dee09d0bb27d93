/-
Conditionals.Formula.Store — formulas laid down layer by layer.

A store is a table of layers. The operands of each layer are references
to earlier entries, and beside each layer stands its digest, found once
when the layer is added. `FormulaStore.add` lays down a formula, and
`FormulaStore.graph` is the graph of all formulas laid down.
-/
import Conditionals.Formula.Graph

namespace Conditionals

/-- The digest beside an entry of a table of layers; an entry that is not there counts as the
constant false. -/
def Layer.stampAt {δ : Type} (digest : Layer δ → δ) (entries : Array (Layer Nat × δ)) (i : Nat) :
    δ :=
  match entries[i]? with
  | some entry => entry.2
  | none => digest (.const false)

/-- A table of layers, each after its operands, with their digests. -/
structure FormulaStore (δ : Type) (digest : Layer δ → δ) where
  entries : Array (Layer Nat × δ)
  operands_lt (i : Nat) (l : Layer Nat) (d : δ) :
    entries[i]? = some (l, d) → ∀ c ∈ l.operands, c < i
  stamped (i : Nat) (l : Layer Nat) (d : δ) :
    entries[i]? = some (l, d) → d = digest (l.map (Layer.stampAt digest entries))

namespace FormulaStore

variable {δ : Type} {digest : Layer δ → δ}

/-! ## Reading -/

/-- A store without entries. -/
def empty : FormulaStore δ digest :=
  ⟨#[], by simp, by simp⟩

/-- How many entries a store has. -/
def size (s : FormulaStore δ digest) : Nat :=
  s.entries.size

/-- The layer of an entry; one that is not there counts as the constant false. -/
def layer (s : FormulaStore δ digest) (i : Nat) : Layer Nat :=
  match s.entries[i]? with
  | some entry => entry.1
  | none => .const false

/-- The digest of an entry. -/
def stamp (s : FormulaStore δ digest) (i : Nat) : δ :=
  Layer.stampAt digest s.entries i

/-- The graph of all formulas in a store. -/
def graph (s : FormulaStore δ digest) : FormulaGraph Nat δ digest where
  layer := s.layer
  stamp := s.stamp
  acyclic := .of_rank id fun i c hc => by
    simp only [layer] at hc
    split at hc
    next entry h => exact s.operands_lt i entry.1 entry.2 h c hc
    · cases hc
  stamp_eq i := by
    simp only [layer, stamp, Layer.stampAt]
    split
    next entry h => exact s.stamped i entry.1 entry.2 h
    · rfl

/-! ## Adding -/

/-- Adding an entry changes no digest of an earlier one. -/
theorem stampAt_push (entries : Array (Layer Nat × δ)) (e : Layer Nat × δ) {i : Nat}
    (h : i < entries.size) :
    Layer.stampAt digest (entries.push e) i = Layer.stampAt digest entries i := by
  simp [Layer.stampAt, Array.getElem?_push, Nat.ne_of_lt h]

/-- Adds a layer whose operands are in the store. -/
def push (s : FormulaStore δ digest) (l : Layer Nat) (h : ∀ c ∈ l.operands, c < s.size) :
    FormulaStore δ digest where
  entries := s.entries.push (l, digest (l.map s.stamp))
  operands_lt i m d hi c hc := by
    rw [Array.getElem?_push] at hi
    split at hi
    · cases hi
      subst i
      exact h c hc
    · exact s.operands_lt i m d hi c hc
  stamped i m d hi := by
    rw [Array.getElem?_push] at hi
    split at hi
    · cases hi
      exact congrArg digest (Layer.map_congr fun c hc => (stampAt_push _ _ (h c hc)).symm)
    · rw [s.stamped i m d hi]
      refine congrArg digest (Layer.map_congr fun c hc => (stampAt_push _ _ ?_).symm)
      exact Nat.lt_trans (s.operands_lt i m d hi c hc) (Array.getElem?_eq_some_iff.1 hi).1

@[simp] theorem size_push (s : FormulaStore δ digest) (l : Layer Nat)
    (h : ∀ c ∈ l.operands, c < s.size) : (s.push l h).size = s.size + 1 := by
  simp [push, size]

/-- A store that has grown out of another one, and the reference of what was added last. -/
structure Added (s : FormulaStore δ digest) where
  ref : Nat
  store : FormulaStore δ digest
  ref_lt : ref < store.size
  size_le : s.size ≤ store.size
  /-- The entries that were there have kept their digests. -/
  stamp_eq : ∀ i < s.size, store.stamp i = s.stamp i

/-- Adds a layer and gives its reference. -/
def addLayer (s : FormulaStore δ digest) (l : Layer Nat) (h : ∀ c ∈ l.operands, c < s.size) :
    Added s where
  ref := s.size
  store := s.push l h
  ref_lt := by simp
  size_le := by simp
  stamp_eq _ hi := stampAt_push _ _ hi

/-- The growth from a store to a later one, by way of one in between. -/
def Added.after {s : FormulaStore δ digest} (a : Added s) (b : Added a.store) : Added s where
  ref := b.ref
  store := b.store
  ref_lt := b.ref_lt
  size_le := Nat.le_trans a.size_le b.size_le
  stamp_eq i hi := (b.stamp_eq i (Nat.lt_of_lt_of_le hi a.size_le)).trans (a.stamp_eq i hi)

/-- Lays down a formula, its operands first. -/
def add (s : FormulaStore δ digest) : Condition → Added s
  | .const value => s.addLayer (.const value) (by simp [Layer.operands])
  | .atom a => s.addLayer (.atom a) (by simp [Layer.operands])
  | .neg f =>
    let x := s.add f
    x.after (x.store.addLayer (.neg x.ref) (by simpa [Layer.operands] using x.ref_lt))
  | .join op f g =>
    let x := s.add f
    let y := x.store.add g
    (x.after y).after (y.store.addLayer (.join op x.ref y.ref) (by
      have := y.ref_lt
      have := Nat.lt_of_lt_of_le x.ref_lt y.size_le
      simp_all [Layer.operands]))

end FormulaStore

end Conditionals
