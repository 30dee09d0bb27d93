/-
Conditionals.Sequence — single elements and stretches of a sequence.

Places count from zero, negative ones from the end. A slice takes every
so many elements between two places, also backwards; places beyond the
ends count as the ends. `Selection` is a choice of one or of several
elements, and `Sequence.select` makes it.
-/
namespace Conditionals

/-! ## Places in a sequence -/

/-- A choice of elements of a sequence. -/
inductive Selection where
  /-- The element at a place. -/
  | item (place : Int)
  /-- Every `step`th element from one place up to another one, which is left out. -/
  | slice (start stop step : Option Int)
  deriving DecidableEq, Repr

/-- Why a choice of elements fails. -/
inductive SelectionError where
  | outOfRange
  | zeroStep
  deriving DecidableEq, Repr

/-- The fault in words. -/
def SelectionError.message : SelectionError → String
  | outOfRange => "tuple index out of range"
  | zeroStep => "slice step cannot be zero"

namespace Sequence

variable {α : Type}

/-- The element at a place; negative places count from the end. -/
def item? (xs : List α) (place : Int) : Option α :=
  let place := if place < 0 then place + xs.length else place
  if place < 0 then none else xs[place.toNat]?

/-- A place moved into the range from `low` to `high`, after a negative one has been counted from
the end of a sequence of `length` elements. -/
def clamp (length low high place : Int) : Int :=
  let place := if place < 0 then place + length else place
  max low (min high place)

/-- The places of a slice going up: `start`, `start + step` and so on below `stop`. -/
def placesUp (start stop step : Int) : List Int :=
  let count := (stop - start + step - 1) / step
  (List.range count.toNat).map fun (k : Nat) => start + k * step

/-- The places of a slice going down: `start`, `start - step` and so on above `stop`. -/
def placesDown (start stop step : Int) : List Int :=
  let count := (start - stop + step - 1) / step
  (List.range count.toNat).map fun (k : Nat) => start - k * step

/-- The places that a slice of a sequence of `length` elements takes, for a step other than zero.
Without bounds it takes all from the side where it begins. -/
def slicePlaces (length : Int) (start stop : Option Int) (step : Int) : List Int :=
  if 0 < step then
    placesUp ((start.map (clamp length 0 length)).getD 0)
      ((stop.map (clamp length 0 length)).getD length) step
  else
    placesDown ((start.map (clamp length (-1) (length - 1))).getD (length - 1))
      ((stop.map (clamp length (-1) (length - 1))).getD (-1)) (-step)

/-- The elements of a slice, for a step other than zero. -/
def slice (xs : List α) (start stop : Option Int) (step : Int) : List α :=
  (slicePlaces xs.length start stop step).filterMap fun place => xs[place.toNat]?

/-- What a choice of elements gives: a single one or several. -/
inductive Selected (α : Type) where
  | one (x : α)
  | several (xs : List α)

/-- The chosen elements of a sequence. -/
def select (xs : List α) : Selection → Except SelectionError (Selected α)
  | .item place =>
    match item? xs place with
    | some x => .ok (.one x)
    | none => .error .outOfRange
  | .slice start stop step =>
    if step = some 0 then .error .zeroStep
    else .ok (.several (slice xs start stop (step.getD 1)))

end Sequence

end Conditionals
