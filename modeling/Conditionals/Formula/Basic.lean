/-
Conditionals.Formula.Basic — Boolean formulas over macros.

* `Atom` — what a condition can ask about a macro;
* `Formula` — formulas over any kind of atoms, never simplified: two
  formulas are equal just if they are the same tree;
* `Condition` — formulas over `Atom`, the conditions of a source file;
* `Formula.level` — how tightly a formula binds, for its written form.
-/
namespace Conditionals

/-! ## Atoms -/

/-- A question about one macro. -/
inductive Atom where
  /-- Whether the macro expands to something true. -/
  | bare (name : String)
  /-- Whether the macro is defined. -/
  | defined (name : String)
  deriving DecidableEq, Hashable, Repr

/-- The macro that an atom asks about. -/
def Atom.name : Atom → String
  | bare name => name
  | defined name => name

/-! ## Connectives -/

/-- The connectives of two operands. -/
inductive Connective where
  | conj
  | disj
  deriving DecidableEq, Hashable, Repr

namespace Connective

/-- How tightly a connective binds: conjunction before disjunction. -/
def level : Connective → Nat
  | disj => 1
  | conj => 2

/-- The truth of a join from that of its operands. -/
def apply : Connective → Bool → Bool → Bool
  | conj, a, b => a && b
  | disj, a, b => a || b

end Connective

/-! ## Formulas -/

/-- A Boolean formula over atoms of some kind. -/
inductive Formula (α : Type) where
  | const (value : Bool)
  | atom (a : α)
  | neg (operand : Formula α)
  | join (op : Connective) (left right : Formula α)
  deriving DecidableEq, Repr

/-- A formula about the macros of a source file. -/
abbrev Condition := Formula Atom

namespace Formula

variable {α β : Type}

/-- The conjunction of two formulas. -/
abbrev conj (left right : Formula α) : Formula α :=
  join .conj left right

/-- How tightly negation binds. -/
def negLevel : Nat := 3

/-- How tightly atoms and constants bind. -/
def atomLevel : Nat := 4

/-- How tightly a formula binds. -/
def level : Formula α → Nat
  | const _ => atomLevel
  | atom _ => atomLevel
  | neg _ => negLevel
  | join op _ _ => op.level

/-- The formula with each atom replaced. -/
def map (f : α → β) : Formula α → Formula β
  | const value => const value
  | atom a => atom (f a)
  | neg g => neg (g.map f)
  | join op g h => join op (g.map f) (h.map f)

/-- The truth of a formula under a truth of the atoms. -/
def eval (truth : α → Bool) : Formula α → Bool
  | const value => value
  | atom a => truth a
  | neg g => !g.eval truth
  | join op g h => op.apply (g.eval truth) (h.eval truth)

@[simp] theorem map_id (f : Formula α) : f.map id = f := by
  induction f <;> simp_all [map]

end Formula

end Conditionals
