/-
Conditionals.Block.Store — blocks laid down layer by layer.

A store of blocks is a store of formulas and a table of blocks. The
children of each block are references to earlier entries of the table, its
conditions are references to the store of formulas. `BlockStore.add` lays
down a block with all blocks inside, and `BlockStore.graph` is the graph
of all blocks laid down.
-/
import Conditionals.Block.Graph
import Conditionals.Formula.Store

namespace Conditionals

/-- The digest beside an entry of a table of blocks. An entry that is not there counts as a block
without children whose conditions have the digest `absent`. -/
def BlockLayer.stampAt {δ : Type} (digestBlock : BlockLayer δ δ → δ) (absent : δ)
    (entries : Array (BlockLayer Nat Nat × δ)) (k : Nat) : δ :=
  match entries[k]? with
  | some entry => entry.2
  | none => digestBlock ⟨0, 0, none, absent, absent, []⟩

/-- A table of blocks, each after its children, with their digests, and a store of the formulas in
them. -/
structure BlockStore (δ : Type) (digest : Layer δ → δ) (digestBlock : BlockLayer δ δ → δ) where
  formulas : FormulaStore δ digest
  entries : Array (BlockLayer Nat Nat × δ)
  conditions_lt (k : Nat) (b : BlockLayer Nat Nat) (d : δ) :
    entries[k]? = some (b, d) → b.condition < formulas.size ∧ b.presence < formulas.size
  children_lt (k : Nat) (b : BlockLayer Nat Nat) (d : δ) :
    entries[k]? = some (b, d) → ∀ c ∈ b.children, c < k
  stamped (k : Nat) (b : BlockLayer Nat Nat) (d : δ) :
    entries[k]? = some (b, d) → d = digestBlock
      (b.map formulas.stamp (BlockLayer.stampAt digestBlock (digest (.const false)) entries))

namespace BlockStore

variable {δ : Type} {digest : Layer δ → δ} {digestBlock : BlockLayer δ δ → δ}

/-! ## Reading -/

/-- A store without entries. -/
def empty : BlockStore δ digest digestBlock :=
  ⟨.empty, #[], by simp, by simp, by simp⟩

/-- How many blocks a store has. -/
def size (s : BlockStore δ digest digestBlock) : Nat :=
  s.entries.size

/-- The layer of an entry. One that is not there counts as a block without children whose conditions
are no entries of the store of formulas. -/
def layer (s : BlockStore δ digest digestBlock) (k : Nat) : BlockLayer Nat Nat :=
  match s.entries[k]? with
  | some entry => entry.1
  | none => ⟨0, 0, none, s.formulas.size, s.formulas.size, []⟩

/-- The digest of an entry. -/
def stamp (s : BlockStore δ digest digestBlock) (k : Nat) : δ :=
  BlockLayer.stampAt digestBlock (digest (.const false)) s.entries k

/-- The graph of all blocks in a store. -/
def graph (s : BlockStore δ digest digestBlock) : BlockGraph Nat Nat δ digest digestBlock where
  formulas := s.formulas.graph
  layer := s.layer
  stamp := s.stamp
  acyclic := .of_rank id fun k c hc => by
    simp only [layer] at hc
    split at hc
    next entry h => exact s.children_lt k entry.1 entry.2 h c hc
    · cases hc
  stamp_eq k := by
    simp only [layer, stamp, BlockLayer.stampAt]
    split
    next entry h => exact s.stamped k entry.1 entry.2 h
    · simp [BlockLayer.map, FormulaStore.graph, FormulaStore.stamp, Layer.stampAt,
        FormulaStore.size]

/-! ## Adding -/

/-- Adding an entry changes no digest of an earlier one. -/
theorem stampAt_push (absent : δ) (entries : Array (BlockLayer Nat Nat × δ))
    (e : BlockLayer Nat Nat × δ) {k : Nat} (h : k < entries.size) :
    BlockLayer.stampAt digestBlock absent (entries.push e) k =
      BlockLayer.stampAt digestBlock absent entries k := by
  simp [BlockLayer.stampAt, Array.getElem?_push, Nat.ne_of_lt h]

/-- Lets the store of formulas grow. -/
def growFormulas (s : BlockStore δ digest digestBlock) (a : FormulaStore.Added s.formulas) :
    BlockStore δ digest digestBlock where
  formulas := a.store
  entries := s.entries
  conditions_lt k b d h :=
    ⟨Nat.lt_of_lt_of_le (s.conditions_lt k b d h).1 a.size_le,
      Nat.lt_of_lt_of_le (s.conditions_lt k b d h).2 a.size_le⟩
  children_lt := s.children_lt
  stamped k b d h := by
    rw [s.stamped k b d h]
    exact congrArg digestBlock (BlockLayer.map_congr
      (a.stamp_eq _ (s.conditions_lt k b d h).1).symm
      (a.stamp_eq _ (s.conditions_lt k b d h).2).symm fun _ _ => rfl)

/-- Adds a layer whose parts are in the store. -/
def push (s : BlockStore δ digest digestBlock) (b : BlockLayer Nat Nat)
    (hc : b.condition < s.formulas.size ∧ b.presence < s.formulas.size)
    (hk : ∀ c ∈ b.children, c < s.size) : BlockStore δ digest digestBlock where
  formulas := s.formulas
  entries := s.entries.push (b, digestBlock (b.map s.formulas.stamp s.stamp))
  conditions_lt k m d h := by
    rw [Array.getElem?_push] at h
    split at h
    · cases h
      exact hc
    · exact s.conditions_lt k m d h
  children_lt k m d h c hm := by
    rw [Array.getElem?_push] at h
    split at h
    · cases h
      subst k
      exact hk c hm
    · exact s.children_lt k m d h c hm
  stamped k m d h := by
    rw [Array.getElem?_push] at h
    split at h
    · cases h
      exact congrArg digestBlock
        (BlockLayer.map_congr rfl rfl fun c hm => (stampAt_push _ _ _ (hk c hm)).symm)
    · rw [s.stamped k m d h]
      refine congrArg digestBlock
        (BlockLayer.map_congr rfl rfl fun c hm => (stampAt_push _ _ _ ?_).symm)
      exact Nat.lt_trans (s.children_lt k m d h c hm) (Array.getElem?_eq_some_iff.1 h).1

/-- A store that has grown out of another one, and the references of what was added. -/
structure Added (s : BlockStore δ digest digestBlock) where
  refs : List Nat
  store : BlockStore δ digest digestBlock
  refs_lt : ∀ r ∈ refs, r < store.size
  size_le : s.size ≤ store.size

/-- Adds a block whose children are in the store, its conditions first. -/
def addLayer (s : BlockStore δ digest digestBlock) (startLine endLine : Int)
    (path : Option String) (condition presence : Condition) (children : List Nat)
    (h : ∀ c ∈ children, c < s.size) : Added s :=
  let x := s.formulas.add condition
  let y := x.store.add presence
  { refs := [s.size]
    store := (s.growFormulas (x.after y)).push
      ⟨startLine, endLine, path, x.ref, y.ref, children⟩
      ⟨Nat.lt_of_lt_of_le x.ref_lt y.size_le, y.ref_lt⟩ h
    refs_lt := by simp [push, size, growFormulas]
    size_le := by simp [push, size, growFormulas] }

mutual

/-- Lays down a block, the blocks inside it first. -/
def add (s : BlockStore δ digest digestBlock) : Block → Added s
  | ⟨startLine, endLine, path, condition, presence, children⟩ =>
    let kids := s.addAll children
    let self := kids.store.addLayer startLine endLine path condition presence kids.refs kids.refs_lt
    { refs := self.refs
      store := self.store
      refs_lt := self.refs_lt
      size_le := Nat.le_trans kids.size_le self.size_le }

/-- Lays down several blocks. -/
def addAll (s : BlockStore δ digest digestBlock) : List Block → Added s
  | [] => ⟨[], s, by simp, Nat.le_refl _⟩
  | b :: bs =>
    let x := s.add b
    let y := x.store.addAll bs
    { refs := x.refs ++ y.refs
      store := y.store
      refs_lt := by
        intro r hr
        rcases List.mem_append.1 hr with h | h
        · exact Nat.lt_of_lt_of_le (x.refs_lt r h) y.size_le
        · exact y.refs_lt r h
      size_le := Nat.le_trans x.size_le y.size_le }

end

end BlockStore

end Conditionals
