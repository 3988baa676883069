import Crosswalk.Text.Lower

/-!
# Directions and orders

A plan joins two shapes of documents, one on its left and one on its right, and runs from either to
the other.

* `Direction.ofName?`: the direction of a name, case aside.
* `OrderPolicy.along`: the order in which the rules of a plan run in a direction.
-/

namespace Crosswalk

/-- Where a plan takes a document. -/
inductive Direction where
  | toRight
  | toLeft
deriving DecidableEq, Repr

namespace Direction

def inverse : Direction → Direction
  | toRight => toLeft
  | toLeft => toRight

/-- The direction of a name, case aside. -/
def ofName? (name : String) : Option Direction :=
  let name := Text.lower name
  if ["right", "to-right", "ltr", "left-to-right"].contains name then some toRight
  else if ["left", "to-left", "rtl", "right-to-left"].contains name then some toLeft
  else none

def text : Direction → String
  | toRight => "left-to-right"
  | toLeft => "right-to-left"

@[simp] theorem inverse_inverse (d : Direction) : d.inverse.inverse = d := by cases d <;> rfl

end Direction

/-- Whether rules run as they are declared or the other way round. -/
inductive Order where
  | ascending
  | descending
deriving DecidableEq, Repr

namespace Order

/-- The order of a word in a plan. -/
def ofWord? (word : String) : Option Order :=
  if word = "asc" ∨ word = "ASC" then some ascending
  else if word = "desc" ∨ word = "DESC" then some descending
  else none

/-- The word for an order in a plan. -/
def word : Order → String
  | ascending => "asc"
  | descending => "desc"

/-- Declared things in an order. -/
def arrange {α : Type} : Order → List α → List α
  | ascending, as => as
  | descending, as => as.reverse

end Order

/-- An order for each direction. -/
structure OrderPolicy where
  toLeft : Order
  toRight : Order
deriving DecidableEq, Repr

namespace OrderPolicy

/-- Rules run as they are declared unless a plan says otherwise. -/
def declared : OrderPolicy := ⟨.ascending, .ascending⟩

def along (p : OrderPolicy) : Direction → Order
  | .toRight => p.toRight
  | .toLeft => p.toLeft

end OrderPolicy

end Crosswalk
