/-
Conditionals.Stored.Decode — formulas, blocks and files from plain data.

Reading folds the places of the data, so its depth does not matter. What
shows the parts of a value is looked at on the way in: the kind of a
formula and the fields of its operands, the children of a block. All else
is looked at on the way out, after the parts, and these are read from last
to first. The lines of a block and its path are taken as they are; that they
are scalars is asked for last. Fields that are not asked for do no harm.

* `Data.toFormula`, `Data.toBlock`, `Data.toSourceFile` — the readers;
* the first fault on the way is the outcome.
-/
import Conditionals.Graph.Unfolding
import Conditionals.Stored.Encode

namespace Conditionals.Data

/-! ## Fields -/

/-- The field of an object. -/
def field (d : Data) (key : String) : Except StoredFault Data :=
  match d with
  | object fields =>
    match fields.lookup key with
    | some value => .ok value
    | none => .error (.missingKey key)
  | _ => .error (.notAnObject d)

/-- The text in a field. -/
def textField (d : Data) (key : String) : Except StoredFault String := do
  match ← d.field key with
  | text value => .ok value
  | _ => .error .wrongShape

/-- The value as a scalar. -/
def toScalar (d : Data) : Except StoredFault Scalar :=
  if h : d.isScalar = true then .ok ⟨d, h⟩ else .error (.notAScalar d)

/-- The items in a field. An empty text and an empty object have none, as an empty list has; what
the others have cannot be read. -/
def itemsField (d : Data) (key : String) : Except StoredFault (List Data) := do
  match ← d.field key with
  | list items => .ok items
  | text "" => .ok []
  | object [] => .ok []
  | text _ => .error .wrongShape
  | object _ => .error .wrongShape
  | value => .error (.notItems value)

theorem sizeOf_lt_of_field {d value : Data} {key : String} (h : d.field key = .ok value) :
    sizeOf value < sizeOf d := by
  unfold field at h
  split at h
  · split at h
    · cases h
      exact sizeOf_lt_of_lookup ‹_›
    · cases h
  · cases h

theorem sizeOf_lt_of_itemsField {d : Data} {key : String} {items : List Data} {item : Data}
    (h : d.itemsField key = .ok items) (hi : item ∈ items) : sizeOf item < sizeOf d := by
  unfold itemsField at h
  cases hf : d.field key with
  | error e => rw [hf] at h; cases h
  | ok value =>
    rw [hf] at h
    simp only [bind, Except.bind] at h
    have := sizeOf_lt_of_field hf
    split at h
    · cases h
      exact Nat.lt_trans (sizeOf_lt_of_mem hi) this
    · cases h; cases hi
    · cases h; cases hi
    · cases h
    · cases h
    · cases h

/-! ## Formulas -/

/-- The kind of a stored formula. -/
def formulaKind (d : Data) : Except StoredFault FormulaKind := do
  match ← d.field "kind" with
  | list items => .error (.notAKind (list items))
  | object fields => .error (.notAKind (object fields))
  | text s =>
    match FormulaKind.named? s with
    | some k => .ok k
    | none => .error (.unknownKind (text s))
  | kind => .error (.unknownKind kind)

/-- The operands of a stored formula. -/
def formulaParts (d : Data) : Except StoredFault (List Data) := do
  match ← d.formulaKind with
  | .neg => return [← d.field "operand"]
  | .join _ => return [← d.field "left", ← d.field "right"]
  | _ => return []

/-- A stored formula whose operands have been read. -/
def combineFormula (d : Data) (operands : List Condition) : Except StoredFault Condition := do
  match ← d.formulaKind, operands with
  | .const value, _ => .ok (.const value)
  | .bare, _ => return .atom (.bare (← d.textField "name"))
  | .defined, _ => return .atom (.defined (← d.textField "name"))
  | .neg, [f] => .ok (.neg f)
  | .join op, [f, g] => .ok (.join op f g)
  | _, _ => .error .wrongShape

/-- Each operand is a field. -/
theorem field_of_mem_formulaParts {d p : Data} {ps : List Data} (h : d.formulaParts = .ok ps)
    (hp : p ∈ ps) : ∃ key, d.field key = .ok p := by
  unfold formulaParts at h
  cases hk : d.formulaKind with
  | error e => rw [hk] at h; cases h
  | ok kind =>
    rw [hk] at h
    simp only [bind, Except.bind, pure, Except.pure] at h
    split at h
    · split at h
      · cases h
      next f hf =>
        cases h
        exact ⟨_, List.mem_singleton.1 hp ▸ hf⟩
    · split at h
      · cases h
      next f hf =>
        split at h
        · cases h
        next g hg =>
          cases h
          simp only [List.mem_cons, List.not_mem_nil, or_false] at hp
          rcases hp with rfl | rfl
          · exact ⟨_, hf⟩
          · exact ⟨_, hg⟩
    · cases h
      cases hp

/-- How stored formulas are made of stored formulas. -/
def formulaGraph : Dag Data StoredFault where
  children := formulaParts
  acyclic := .of_rank sizeOf fun d p hp => by
    unfold childrenOrNil at hp
    split at hp
    · exact (field_of_mem_formulaParts ‹_› hp).elim fun _ => sizeOf_lt_of_field
    · cases hp

/-- Reads a formula. -/
def toFormula (d : Data) : Except StoredFault Condition :=
  formulaGraph.foldUnfolded combineFormula d

/-! ## Blocks -/

/-- The children of a stored block. -/
def blockParts (d : Data) : Except StoredFault (List Data) :=
  d.itemsField "children"

/-- A stored block of a file whose children have been read. -/
def combineBlock (path d : Data) (children : List StoredBlock) :
    Except StoredFault StoredBlock := do
  let startLine ← d.field "start_line"
  let endLine ← d.field "end_line"
  let condition ← (← d.field "condition").toFormula
  let presence ← (← d.field "presence_condition").toFormula
  return ⟨← startLine.toScalar, ← endLine.toScalar, ← path.toScalar, condition, presence, children⟩

/-- How stored blocks are made of stored blocks. -/
def blockGraph : Dag Data StoredFault where
  children := blockParts
  acyclic := .of_rank sizeOf fun d p hp => by
    unfold childrenOrNil at hp
    split at hp
    · exact sizeOf_lt_of_itemsField ‹_› hp
    · cases hp

/-- Reads a block of a file. -/
def toBlock (path d : Data) : Except StoredFault StoredBlock :=
  blockGraph.foldUnfolded (combineBlock path) d

/-! ## Files -/

/-- Reads a file. -/
def toSourceFile (d : Data) : Except StoredFault StoredFile := do
  let path ← d.field "path"
  let items ← d.itemsField "blocks"
  let blocks ← items.mapM (toBlock path)
  return ⟨path, blocks⟩

end Conditionals.Data
