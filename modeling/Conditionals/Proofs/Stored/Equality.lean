/-
Conditionals.Proofs.Stored.Equality — plain data that are equal, whatever
the order of their fields.

A value is seen through its places: an item of a list, a field of an
object, and so on down. `Data.Same` says that two values have the same
places and that the same is seen at each of them. The order of an object's
fields cannot be seen, nor a field behind another one with its key.

`Data.SameBy` is about data whose scalars may count as equal though they
differ, as numbers of different kinds do. It leaves open which ones: those of
which a given view shows the same.
-/
import Conditionals.Stored.Data
import Mathlib.Data.List.Forall2
import Mathlib.Data.Option.Defs

namespace Conditionals.Data

variable {V : Type} {view : Scalar → V}

/-! ## Places -/

/-- Where one value is in another one. -/
inductive Spot where
  | item (index : Nat)
  | field (key : String)

/-- What is seen of a value without going into it. -/
inductive Face (V : Type) where
  | scalar (seen : V)
  | list
  | object

/-- The face with something else seen of a scalar. -/
def Face.map {W : Type} (f : V → W) : Face V → Face W
  | scalar seen => .scalar (f seen)
  | list => .list
  | object => .object

def face (view : Scalar → V) (d : Data) : Face V :=
  if h : d.isScalar = true then .scalar (view ⟨d, h⟩)
  else
    match d with
    | list _ => .list
    | _ => .object

/-- The part of a value at a spot. -/
def part? : Data → Spot → Option Data
  | list items, .item index => items[index]?
  | object fields, .field key => fields.lookup key
  | _, _ => none

/-- What is seen at a place, to which one goes from spot to spot. -/
def faceAt? (view : Scalar → V) (d : Data) : List Spot → Option (Face V)
  | [] => some (d.face view)
  | spot :: way => (d.part? spot).bind fun p => p.faceAt? view way

/-! ## Equality -/

/-- The same is seen everywhere in two values, if scalars are seen through a view. -/
def SameBy (view : Scalar → V) (d e : Data) : Prop :=
  ∀ way, d.faceAt? view way = e.faceAt? view way

/-- The same is seen everywhere in two values. -/
abbrev Same (d e : Data) : Prop :=
  d.SameBy id e

variable {d e f : Data}

theorem SameBy.refl (d : Data) : d.SameBy view d := fun _ => rfl

theorem SameBy.symm (h : d.SameBy view e) : e.SameBy view d := fun way => (h way).symm

theorem SameBy.trans (hd : d.SameBy view e) (he : e.SameBy view f) : d.SameBy view f :=
  fun way => (hd way).trans (he way)

theorem faceAt?_eq_map (view : Scalar → V) (d : Data) (way : List Spot) :
    d.faceAt? view way = (d.faceAt? id way).map (Face.map view) := by
  induction way generalizing d with
  | nil =>
    refine congrArg some ?_
    unfold face
    split
    · rfl
    · split <;> rfl
  | cons spot way ih =>
    rw [faceAt?, faceAt?]
    cases d.part? spot with
    | none => rfl
    | some p => exact ih p

/-- Values that are the same are so through every view. -/
theorem Same.by (h : d.Same e) (view : Scalar → V) : d.SameBy view e := by
  intro way
  rw [faceAt?_eq_map, h way, ← faceAt?_eq_map]

/-- Values are the same if they look the same and have the same parts. -/
theorem sameBy_of_parts (hface : d.face view = e.face view)
    (hparts : ∀ spot, Option.Rel (SameBy view) (d.part? spot) (e.part? spot)) :
    d.SameBy view e := by
  intro way
  cases way with
  | nil => exact congrArg some hface
  | cons spot way =>
    rw [faceAt?, faceAt?]
    generalize hd : d.part? spot = p, he : e.part? spot = q
    have hrel := hparts spot
    rw [hd, he] at hrel
    cases hrel with
    | none => rfl
    | some h => exact h way

theorem sameBy_scalar {s t : Scalar} (h : view s = view t) : s.data.SameBy view t.data := by
  have hface : ∀ s : Scalar, s.data.face view = .scalar (view s) := fun s => dif_pos s.isScalar
  have hparts : ∀ (s : Scalar) spot, s.data.part? spot = none := by
    rintro ⟨d, hd⟩ spot
    cases d with
    | list items => cases hd
    | object fields => cases hd
    | _ => rfl
  refine sameBy_of_parts ?_ fun spot => ?_
  · rw [hface, hface, h]
  · rw [hparts, hparts]
    exact .none

theorem sameBy_list {items others : List Data} (h : List.Forall₂ (SameBy view) items others) :
    (list items).SameBy view (list others) := by
  refine sameBy_of_parts rfl fun spot => ?_
  cases spot with
  | field key => exact .none
  | item index =>
    have hitems : ∀ index : Nat, Option.Rel (SameBy view) items[index]? others[index]? := by
      induction h with
      | nil => exact fun _ => .none
      | cons hd _ ih =>
        intro index
        cases index with
        | zero => exact .some hd
        | succ index => exact ih index
    exact hitems index

theorem sameBy_object {fields others : List (String × Data)}
    (h : ∀ key, Option.Rel (SameBy view) (fields.lookup key) (others.lookup key)) :
    (object fields).SameBy view (object others) := by
  refine sameBy_of_parts rfl fun spot => ?_
  cases spot with
  | item index => exact .none
  | field key => exact h key

/-- Objects are the same if they have the same values under the same keys, in one order. -/
theorem sameBy_object_of_forall₂ {fields others : List (String × Data)}
    (h : List.Forall₂ (fun x y => x.1 = y.1 ∧ x.2.SameBy view y.2) fields others) :
    (object fields).SameBy view (object others) := by
  refine sameBy_object fun key => ?_
  induction h with
  | nil => exact .none
  | @cons x y _ _ hxy _ ih =>
    obtain ⟨hkey, hvalue⟩ := hxy
    rw [List.lookup_cons, List.lookup_cons, hkey]
    split
    · exact .some hvalue
    · exact ih

end Conditionals.Data
