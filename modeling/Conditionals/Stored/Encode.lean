/-
Conditionals.Stored.Encode — formulas, blocks and files as plain data.

A formula is an object with its kind first, then its name or its operands.
A block is an object with its lines, its two conditions and its children;
the file it belongs to is not written with it. A file is an object with
its path and its blocks.

* `StoredBlock`, `StoredFile` — blocks and files as they are stored. Any
  scalars may be lines, and any value the path of a file without blocks;
* `Formula.toData`, `Block.toData`, `SourceFile.toData` — the writers;
* `Formula.nodeToData`, `Block.nodeToData` — what they write for a node
  whose parts have been written, so that graphs of shared parts
  (`Formula.operandGraph`, `Block.childGraph`) can be written by folding.
-/
import Conditionals.Graph.Fold
import Conditionals.SourceFile
import Conditionals.Stored.Fault

namespace Conditionals

/-! ## Formulas -/

/-- The kinds of stored formulas. -/
inductive FormulaKind where
  | const (value : Bool)
  | bare
  | defined
  | neg
  | join (op : Connective)
  deriving DecidableEq, Repr

namespace FormulaKind

/-- How a kind is written. -/
def name : FormulaKind → String
  | const true => "true"
  | const false => "false"
  | bare => "variable"
  | defined => "defined"
  | neg => "not"
  | join .conj => "and"
  | join .disj => "or"

/-- All kinds. -/
def all : List FormulaKind :=
  [const true, const false, bare, defined, neg, join .conj, join .disj]

/-- The kind that is written so, if there is one. -/
def named? (s : String) : Option FormulaKind :=
  all.find? (·.name = s)

/-- A written kind is read back. -/
theorem named?_name (k : FormulaKind) : named? k.name = some k := by
  rcases k with (_ | _) | _ | _ | _ | (_ | _) <;> decide

/-- The object of a formula of a kind. -/
def object (k : FormulaKind) (fields : List (String × Data)) : Data :=
  .object (("kind", .text k.name) :: fields)

end FormulaKind

/-- A formula as plain data. -/
def Formula.toData : Condition → Data
  | const value => (FormulaKind.const value).object []
  | atom (.bare name) => FormulaKind.bare.object [("name", .text name)]
  | atom (.defined name) => FormulaKind.defined.object [("name", .text name)]
  | neg f => FormulaKind.neg.object [("operand", f.toData)]
  | join op f g => (FormulaKind.join op).object [("left", f.toData), ("right", g.toData)]

/-- A formula, or anything else in its place, as plain data. Only formulas can be stored. -/
def Data.ofFormula? : Condition ⊕ Data → Except StoredFault Data
  | .inl f => .ok f.toData
  | .inr value => .error (.notAFormula value)

namespace Formula

/-- The operands of a formula, in order. -/
def operands : Condition → List Condition
  | const _ => []
  | atom _ => []
  | neg f => [f]
  | join _ f g => [f, g]

/-- Writes a formula whose operands have been written. -/
def nodeToData : Condition → List Data → Except StoredFault Data
  | const value, _ => .ok ((FormulaKind.const value).object [])
  | atom (.bare name), _ => .ok (FormulaKind.bare.object [("name", .text name)])
  | atom (.defined name), _ => .ok (FormulaKind.defined.object [("name", .text name)])
  | neg _, [d] => .ok (FormulaKind.neg.object [("operand", d)])
  | join op _ _, [d, e] => .ok ((FormulaKind.join op).object [("left", d), ("right", e)])
  | _, _ => .error .wrongShape

theorem sizeOf_lt_of_mem_operands {f g : Condition} (h : g ∈ f.operands) :
    sizeOf g < sizeOf f := by
  cases f with
  | const value => cases h
  | atom a => cases h
  | neg f =>
    obtain rfl := List.mem_singleton.1 h
    rw [neg.sizeOf_spec]
    omega
  | join op f f' =>
    rw [operands, List.mem_cons, List.mem_singleton] at h
    rw [join.sizeOf_spec]
    rcases h with rfl | rfl
    · omega
    · omega

/-- How formulas are made of formulas. -/
def operandGraph : Dag Condition StoredFault where
  children f := .ok f.operands
  acyclic := .of_rank sizeOf fun _ _ => sizeOf_lt_of_mem_operands

end Formula

/-! ## Blocks -/

/-- A block as it is stored: scalars of any kind are its lines and its path. -/
abbrev StoredBlock : Type :=
  Block Scalar Scalar

namespace Block

/-- A block of a file as it is stored. -/
def stored (b : Block) : StoredBlock :=
  b.map .int .ofText?

/-- A stored block in one line. -/
def describeStored (b : StoredBlock) : String :=
  b.describeBy Scalar.shown

mutual

/-- A block as plain data. -/
def toData : StoredBlock → Data
  | ⟨startLine, endLine, _, condition, presence, children⟩ =>
    .object [("start_line", startLine.data), ("end_line", endLine.data),
      ("condition", condition.toData), ("presence_condition", presence.toData),
      ("children", .list (allToData children))]

/-- Several blocks as plain data. -/
def allToData : List StoredBlock → List Data
  | [] => []
  | b :: bs => toData b :: allToData bs

end

/-- Writes a block whose children have been written. -/
def nodeToData (b : StoredBlock) (children : List Data) : Except StoredFault Data :=
  .ok (.object [("start_line", b.startLine.data), ("end_line", b.endLine.data),
    ("condition", b.condition.toData), ("presence_condition", b.presence.toData),
    ("children", .list children)])

theorem sizeOf_lt_of_mem_children {b c : StoredBlock} (h : c ∈ b.children) :
    sizeOf c < sizeOf b := by
  have hlt := List.sizeOf_lt_of_mem h
  obtain ⟨startLine, endLine, path, condition, presence, children⟩ := b
  rw [mk.sizeOf_spec]
  dsimp only at hlt
  omega

/-- How blocks are made of blocks. -/
def childGraph : Dag StoredBlock StoredFault where
  children b := .ok b.children
  acyclic := .of_rank sizeOf fun _ _ => sizeOf_lt_of_mem_children

end Block

/-! ## Files -/

/-- A file as it is stored. Nothing is asked of its path as long as it has no blocks. -/
abbrev StoredFile : Type :=
  SourceFile Data StoredBlock

namespace SourceFile

/-- A file with its blocks as it is stored. -/
def stored (f : SourceFile) : StoredFile :=
  ⟨(Scalar.ofText? f.path).data, Block.mapAll .int .ofText? f.blocks⟩

/-- A stored file in one line. -/
def describeStored (f : StoredFile) : String :=
  f.describeBy Data.describe

/-- A file as plain data. -/
def toData (f : StoredFile) : Data :=
  .object [("path", f.path), ("blocks", .list (Block.allToData f.blocks))]

end SourceFile

end Conditionals
