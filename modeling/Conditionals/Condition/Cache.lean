/-
Conditionals.Condition.Cache — one copy of every atom.

A cache numbers the atoms it has met, each once and in the order of their
first appearance. `Cache.intern` gives the copy of an atom: the atom with
its number. Two copies from one cache are the same just if their atoms
are, so sharing a cache never changes which formulas are equal.
-/
import Conditionals.Formula.Basic

namespace Conditionals

/-- The copy of an atom that a cache keeps. -/
structure Interned where
  /-- Which of the cache's atoms it is. -/
  id : Nat
  atom : Atom
  deriving DecidableEq, Repr

/-- The atoms met so far, each once. -/
structure Cache where
  atoms : List Atom
  nodup : atoms.Nodup

namespace Cache

/-- A cache that has met no atom. -/
def empty : Cache :=
  ⟨[], List.nodup_nil⟩

/-- How many different atoms the cache has met. -/
def size (c : Cache) : Nat :=
  c.atoms.length

/-- The cache after meeting an atom. -/
def insert (c : Cache) (a : Atom) : Cache :=
  if h : a ∈ c.atoms then c
  else ⟨c.atoms ++ [a], by
    simp only [List.nodup_append, c.nodup, List.nodup_cons, List.not_mem_nil, not_false_eq_true,
      List.nodup_nil, and_self, List.mem_singleton, true_and]
    rintro b hb _ rfl rfl
    exact h hb⟩

/-- The copy of an atom, and the cache that keeps it. -/
def intern (c : Cache) (a : Atom) : Interned × Cache :=
  (⟨c.atoms.idxOf a, a⟩, c.insert a)

@[simp] theorem mem_insert {c : Cache} {a b : Atom} :
    b ∈ (c.insert a).atoms ↔ b ∈ c.atoms ∨ b = a := by
  unfold insert
  split <;> simp_all

/-- The copy of an atom is the atom that the cache keeps under the copy's number. -/
theorem getElem?_intern (c : Cache) (a : Atom) :
    (c.intern a).2.atoms[(c.intern a).1.id]? = some a := by
  simp only [intern, insert]
  split
  case isTrue h =>
    have hlt := List.idxOf_lt_length_of_mem h
    rw [List.getElem?_eq_getElem hlt, List.getElem_idxOf]
  case isFalse h => simp [List.idxOf_eq_length h]

end Cache

end Conditionals
