import Crosswalk.Number

/-!
# JSON trees

A JSON tree is what a JSON text holds. It knows no `undefined`, and its whole numbers reach up to
the largest natural number of 64 bits.

* `ofValue`: the tree of a value. What JSON cannot hold becomes `null`, and members that are
  `undefined` are left out.
* `toValue`: the value of a tree. A whole number beyond the integers of a value becomes a binary64
  number.
-/

namespace Crosswalk

/-- What a JSON text holds. -/
inductive Json where
  | null
  | bool (b : Bool)
  | number (n : Number)
  | string (s : String)
  | array (items : List Json)
  | object (members : List (String × Json))
deriving Inhabited

namespace Json

/-- A member is smaller than the object that holds it. -/
theorem sizeOf_member_lt {ms : List (String × Json)} {m : String × Json} (h : m ∈ ms) :
    sizeOf m.2 < sizeOf ms := by
  have := List.sizeOf_lt_of_mem h
  obtain ⟨name, v⟩ := m
  simp only [Prod.mk.sizeOf_spec] at this ⊢
  omega

end Json

namespace Json

/-- The tree of a value. -/
def ofValue : Value → Json
  | .undefined => null
  | .null => null
  | .bool b => bool b
  | .int n => number (.ofInt64 n)
  | .float x => if x.isFinite then number (.real x) else null
  | .string s => string s
  | .array xs => array (xs.map ofValue)
  | .map ms => object ((ms.filter fun m => !m.2.isUndefined).map fun m => (m.1, ofValue m.2))
decreasing_by
  · have := List.sizeOf_lt_of_mem ‹_›
    simp only [Value.array.sizeOf_spec]; omega
  · have := Value.sizeOf_member_lt ‹_›
    simp only [Value.map.sizeOf_spec]; omega

/-- The value of a tree. -/
def toValue : Json → Value
  | null => .null
  | bool b => .bool b
  | number n => n.toValue
  | string s => .string s
  | array xs => .array (xs.map toValue)
  | object ms => .map (ms.map fun m => (m.1, toValue m.2))
decreasing_by
  · have := List.sizeOf_lt_of_mem ‹_›
    simp only [array.sizeOf_spec]; omega
  · have := sizeOf_member_lt ‹_›
    simp only [object.sizeOf_spec]; omega

end Json

end Crosswalk
