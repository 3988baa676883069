import Crosswalk.Binary64
import Crosswalk.Members

/-!
# Values

A document is a value. A value that is looked for and not there is `undefined`, which no document
text can hold.

* `items`: the elements of an array, none for anything else.
* `member`: a member of a map, `undefined` if there is none.
* `entries`: the elements that a value stands for when it is spread over places.
* `typeName`: the word for the kind of a value in messages.
-/

namespace Crosswalk

/-- The word for a truth value. -/
def boolText (b : Bool) : String := if b then "true" else "false"

/-- A document, or the absence of one. -/
inductive Value where
  | undefined
  | null
  | bool (b : Bool)
  | int (n : Int64)
  | float (x : Binary64)
  | string (s : String)
  | array (items : List Value)
  | map (members : List (String × Value))
deriving Inhabited

namespace Value

def isUndefined : Value → Bool
  | undefined => true
  | _ => false

/-- The word for the kind of a value in messages. -/
def typeName : Value → String
  | undefined => "undefined"
  | null => "null"
  | bool _ => "bool"
  | int _ => "int"
  | float _ => "float"
  | string _ => "string"
  | array _ => "array"
  | map _ => "map"

/-- The elements of an array; anything else has none. -/
def items : Value → List Value
  | array items => items
  | _ => []

/-- The members of a map; anything else has none. -/
def members : Value → Members Value
  | map members => members
  | _ => []

/-- The value of a member, `undefined` if there is none. -/
def member (v : Value) (name : String) : Value := (v.members.get? name).getD undefined

/-- The elements that a value stands for when it is spread over places: those of an array, none
for `undefined`, and the value alone otherwise. -/
def entries : Value → List Value
  | array items => items
  | undefined => []
  | v => [v]

/-! ## Induction -/

/-- A member is smaller than the map that holds it. -/
theorem sizeOf_member_lt {ms : List (String × Value)} {m : String × Value} (h : m ∈ ms) :
    sizeOf m.2 < sizeOf ms := by
  have := List.sizeOf_lt_of_mem h
  obtain ⟨name, v⟩ := m
  simp only [Prod.mk.sizeOf_spec] at this ⊢
  omega

/-- What holds of every value follows from its elements and its members. -/
theorem induct {p : Value → Prop} (undefined : p undefined) (null : p null)
    (bool : ∀ b, p (bool b)) (int : ∀ n, p (int n)) (float : ∀ x, p (float x))
    (string : ∀ s, p (string s)) (array : ∀ xs, (∀ x ∈ xs, p x) → p (array xs))
    (map : ∀ ms, (∀ m ∈ ms, p m.2) → p (map ms)) : ∀ v, p v
  | .undefined => undefined
  | .null => null
  | .bool b => bool b
  | .int n => int n
  | .float x => float x
  | .string s => string s
  | .array xs => array xs fun x _ =>
      induct undefined null bool int float string array map x
  | .map ms => map ms fun m hm =>
      have := sizeOf_member_lt hm
      induct undefined null bool int float string array map m.2
termination_by v => sizeOf v

/-! ## Views -/

@[simp] theorem isUndefined_iff {v : Value} : v.isUndefined = true ↔ v = undefined := by
  cases v <;> simp [isUndefined]

@[simp] theorem isUndefined_eq_false_iff {v : Value} : v.isUndefined = false ↔ v ≠ undefined := by
  cases v <;> simp [isUndefined]

@[simp] theorem items_array (xs : List Value) : (array xs).items = xs := rfl

@[simp] theorem members_map (ms : Members Value) : (map ms).members = ms := rfl

@[simp] theorem entries_array (xs : List Value) : (array xs).entries = xs := rfl

end Value

end Crosswalk
