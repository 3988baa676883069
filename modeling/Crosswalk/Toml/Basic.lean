import Crosswalk.Error

/-!
# TOML trees

A TOML tree is what a TOML document holds. It knows no null, and a document is a table.

* `sorted`: the entries of every table in the order of their names.
* `toValue`: the value of a tree. A moment becomes its text.
* `ofValue?`: the tree of a value, if it has one. Members without a value are left out; elements
  without one cannot be.
* `document?`: the table of a value.
-/

namespace Crosswalk

/-- What a TOML document holds. -/
inductive Toml where
  | bool (b : Bool)
  | int (n : Int64)
  | float (x : Binary64)
  | string (s : String)
  | moment (text : String)
  | array (items : List Toml)
  | table (entries : List (String × Toml))
deriving Inhabited

namespace Toml

/-- An entry is smaller than the table that holds it. -/
theorem sizeOf_entry_lt {es : List (String × Toml)} {e : String × Toml} (h : e ∈ es) :
    sizeOf e.2 < sizeOf es := by
  have := List.sizeOf_lt_of_mem h
  obtain ⟨name, t⟩ := e
  simp only [Prod.mk.sizeOf_spec] at this ⊢
  omega

/-- Characters of a key without quotes. -/
def isBareChar (c : Char) : Bool := c.isAlphanum || c = '_' || c = '-'

/-- Named things in the order of their names. -/
def byName {α : Type} (es : List (String × α)) : List (String × α) :=
  es.mergeSort fun a b => a.1 ≤ b.1

/-- The entries of every table in the order of their names. -/
def sorted : Toml → Toml
  | array ts => array (ts.map sorted)
  | table es => table (byName (es.map fun e => (e.1, sorted e.2)))
  | t => t
decreasing_by
  · have := List.sizeOf_lt_of_mem ‹_›
    simp only [array.sizeOf_spec]; omega
  · have := sizeOf_entry_lt ‹_›
    simp only [table.sizeOf_spec]; omega

/-- The value of a tree. -/
def toValue : Toml → Value
  | bool b => .bool b
  | int n => .int n
  | float x => .float x
  | string s => .string s
  | moment text => .string text
  | array ts => .array (ts.map toValue)
  | table es => .map (es.map fun e => (e.1, toValue e.2))
decreasing_by
  · have := List.sizeOf_lt_of_mem ‹_›
    simp only [array.sizeOf_spec]; omega
  · have := sizeOf_entry_lt ‹_›
    simp only [table.sizeOf_spec]; omega

/-! ## From values -/

/-- The elements of an array, all of which must have a tree; `index` is the place of the first. -/
def elements (index : Nat) : List (Outcome (Option Toml)) → Outcome (List Toml)
  | [] => .ok []
  | .error e :: _ => .error e
  | .ok none :: _ =>
    .error (.unwritable ("TOML cannot represent null array elements (element "
      ++ Decimal.ofNatText index ++ ")"))
  | .ok (some t) :: rest => (elements (index + 1) rest).map (t :: ·)

/-- The entries of a table, without the members that have no tree. -/
def present : List (String × Outcome (Option Toml)) → Outcome (List (String × Toml))
  | [] => .ok []
  | (_, .error e) :: _ => .error e
  | (_, .ok none) :: rest => present rest
  | (name, .ok (some t)) :: rest => (present rest).map ((name, t) :: ·)

/-- The tree of a value; none for what TOML leaves out. -/
def ofValue? : Value → Outcome (Option Toml)
  | .undefined => .ok none
  | .null => .ok none
  | .bool b => .ok (some (bool b))
  | .int n => .ok (some (int n))
  | .float x => .ok (some (float x))
  | .string s => .ok (some (string s))
  | .array xs => (elements 0 (xs.map ofValue?)).map fun ts => some (array ts)
  | .map ms =>
    (present (ms.map fun m => (m.1, ofValue? m.2))).map fun es => some (table (byName es))
decreasing_by
  · have := List.sizeOf_lt_of_mem ‹_›
    simp only [Value.array.sizeOf_spec]; omega
  · have := Value.sizeOf_member_lt ‹_›
    simp only [Value.map.sizeOf_spec]; omega

/-- The table of a value. -/
def document? (v : Value) : Outcome Toml :=
  match ofValue? v with
  | .error e => .error e
  | .ok (some (table es)) => .ok (table es)
  | .ok _ => .error (.unwritable "TOML requires a top-level table (map)")

end Toml

end Crosswalk
