/-
Conditionals.Stored.Fault — why plain data are no stored formula, block
or file.
-/
import Conditionals.Stored.Data

namespace Conditionals

/-- What is wrong with plain data. -/
inductive StoredFault where
  /-- An object lacks a field. -/
  | missingKey (key : String)
  /-- A field is asked of a value that has no fields. -/
  | notAnObject (value : Data)
  /-- Items are asked of a value that has no items. -/
  | notItems (value : Data)
  /-- A list or an object stands where a formula's kind is named. -/
  | notAKind (value : Data)
  /-- A list or an object stands where a block has its lines or its path. -/
  | notAScalar (value : Data)
  /-- A field holds a value of the wrong shape in some other way. -/
  | wrongShape
  /-- No formula is of this kind. -/
  | unknownKind (kind : Data)
  /-- A value to be stored is no formula. -/
  | notAFormula (value : Data)

namespace StoredFault

/-- The fault in words. A value of the wrong shape has none. -/
def message? : StoredFault → Option String
  | missingKey key => some (Text.quote key)
  | notAnObject _ => none
  | notItems _ => none
  | notAKind _ => none
  | notAScalar _ => none
  | wrongShape => none
  | unknownKind kind => some ("Unknown formula kind " ++ kind.describe)
  | notAFormula value => some ("Unsupported formula " ++ value.describe)

end StoredFault

end Conditionals
