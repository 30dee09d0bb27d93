/-
Conditionals.Stored.Data — the plain data that blocks are stored as.

Plain data are nulls, truth values, numbers, texts, lists and objects; the
fields of an object keep their order. Nothing is computed with a number
that is no integer, so it is given by how it is shown. `Data.describe`
shows a value in messages, and `Scalar` is a value without parts.
-/
import Conditionals.Text.Quoted

namespace Conditionals

/-- Plain data. -/
inductive Data where
  | null
  | bool (value : Bool)
  | int (value : Int)
  | real (shown : String)
  | text (value : String)
  | list (items : List Data)
  | object (fields : List (String × Data))

namespace Data

/-! ## Describing -/

mutual

/-- A value as it is shown in messages. -/
def describe : Data → String
  | null => "None"
  | bool true => "True"
  | bool false => "False"
  | int value => toString value
  | real shown => shown
  | text value => Text.quote value
  | list items => "[" ++ ", ".intercalate (describeItems items) ++ "]"
  | object fields => "\x7b" ++ ", ".intercalate (describeFields fields) ++ "\x7d"

/-- The items of a list, each as it is shown in messages. -/
def describeItems : List Data → List String
  | [] => []
  | d :: ds => d.describe :: describeItems ds

/-- The fields of an object, each as it is shown in messages. -/
def describeFields : List (String × Data) → List String
  | [] => []
  | (key, d) :: rest => (Text.quote key ++ ": " ++ d.describe) :: describeFields rest

end

/-! ## Scalars -/

/-- Whether a value is neither a list nor an object. -/
def isScalar : Data → Bool
  | list _ => false
  | object _ => false
  | _ => true

end Data

/-- A value that is neither a list nor an object. -/
@[ext]
structure Scalar where
  data : Data
  isScalar : data.isScalar = true

namespace Scalar

/-- An integer. -/
def int (value : Int) : Scalar :=
  ⟨.int value, rfl⟩

/-- A text, or null where it is missing. -/
def ofText? : Option String → Scalar
  | some value => ⟨.text value, rfl⟩
  | none => ⟨.null, rfl⟩

/-- A scalar as it is shown inside a line of text, where texts have no quotes. -/
def shown (s : Scalar) : String :=
  match s.data with
  | .text value => value
  | d => d.describe

end Scalar

namespace Data

/-! ## Sizes -/

/-- A field's value is smaller than the object. -/
theorem sizeOf_lt_of_lookup {fields : List (String × Data)} {key : String} {d : Data}
    (h : fields.lookup key = some d) : sizeOf d < sizeOf (object fields) := by
  suffices sizeOf d < sizeOf fields by simp; omega
  induction fields with
  | nil => cases h
  | cons field rest ih =>
    obtain ⟨k, v⟩ := field
    rw [List.lookup_cons] at h
    split at h
    · cases h
      simp
      omega
    · have := ih h
      simp
      omega

/-- An item is smaller than the list. -/
theorem sizeOf_lt_of_mem {items : List Data} {d : Data} (h : d ∈ items) :
    sizeOf d < sizeOf (list items) := by
  have := List.sizeOf_lt_of_mem h
  simp
  omega

end Data

end Conditionals
