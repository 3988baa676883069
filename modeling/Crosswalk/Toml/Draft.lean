import Crosswalk.Toml.Scan

/-!
# Tables under construction

The entries of one table can be spread over a document: by headers, and by dotted keys. A draft
remembers how each of its tables came about, which decides what may still be added to it.

* `amend`: a change to the table at the end of a path. Tables on the way are made as needed.
* `assign`: an entry under a dotted key.
* `openTable`, `openElement`: the table of a header.
* `finish`: the tree of a draft.
-/

namespace Crosswalk.Toml

/-- How a table came about. -/
inductive Origin where
  /-- It has a header, is an element of an array of tables, or is the document. -/
  | header
  /-- It holds a table that has a header. -/
  | passing
  /-- It is named by the first parts of a dotted key. -/
  | dotted
deriving DecidableEq, Repr

/-- A value, a table, or an array of tables: the last of them, and those before it, the last one
first. -/
inductive Draft where
  | value (t : Toml)
  | table (origin : Origin) (entries : List (String × Draft))
  | tables (earlier : List Toml) (last : List (String × Draft))
deriving Inhabited

namespace Draft

theorem sizeOf_entry_lt {es : List (String × Draft)} {e : String × Draft} (h : e ∈ es) :
    sizeOf e.2 < sizeOf es := by
  have := List.sizeOf_lt_of_mem h
  obtain ⟨name, t⟩ := e
  simp only [Prod.mk.sizeOf_spec] at this ⊢
  omega

/-- The tree of a draft. -/
def finish : Draft → Toml
  | value t => t
  | table _ es => .table (es.map fun e => (e.1, finish e.2))
  | tables earlier last =>
    .array (earlier.reverse ++ [.table (last.map fun e => (e.1, finish e.2))])
decreasing_by
  · have := sizeOf_entry_lt ‹_›
    simp only [table.sizeOf_spec]; omega
  · have := sizeOf_entry_lt ‹_›
    simp only [tables.sizeOf_spec]; omega

/-- The entries of a table. -/
abbrev Entries := Members Draft

def Entries.finish (es : Entries) : Toml := (table .header es).finish

/-- A change to a table that came about in some way. -/
abbrev Change := Origin → Entries → Except Problem Entries

/-- A change to the table at the end of a path from a table. On the way an array of tables stands
for its last element. A dotted key does not lead through a table that has a header. -/
def amend (dotted : Bool) (change : Change) : (path : List String) → Change
  | [], origin, es => change origin es
  | name :: path, _, es =>
    match es.get? name with
    | none =>
      let origin := if dotted then .dotted else .passing
      (amend dotted change path origin []).map fun inner => es.put name (table origin inner)
    | some (value _) => .error (.notTable name)
    | some (tables earlier last) =>
      (amend dotted change path .header last).map fun inner => es.put name (tables earlier inner)
    | some (table origin inner) =>
      if dotted ∧ origin = .header then .error (.repeated name)
      else (amend dotted change path origin inner).map fun inner => es.put name (table origin inner)

/-- A new entry of a table. A dotted key may only add to tables of dotted keys, and a simple one
only to others. -/
def place (isDotted : Bool) (name : String) (t : Toml) : Change := fun origin es =>
  if (origin = .dotted) ≠ isDotted then .error (.repeated name)
  else if (es.get? name).isSome then .error (.repeated name)
  else .ok (es.put name (value t))

/-- A key without its last part, and that part. -/
def splitKey (key : List String) : List String × String := (key.dropLast, key.getLastD "")

/-- An entry under a dotted key. -/
def assign (key : List String) (t : Toml) : Change :=
  let (path, name) := splitKey key
  amend true (place (!path.isEmpty) name t) path

/-- The table of a header. One that only holds others so far becomes a table with a header. -/
def openTable (key : List String) : Change :=
  let (path, name) := splitKey key
  amend false (fun _ es =>
    match es.get? name with
    | none => .ok (es.put name (table .header []))
    | some (table .passing inner) => .ok ((es.erase name).put name (table .header inner))
    | some _ => .error (.repeated name)) path

/-- The next element of the array of tables of a header. -/
def openElement (key : List String) : Change :=
  let (path, name) := splitKey key
  amend false (fun _ es =>
    match es.get? name with
    | none => .ok (es.put name (tables [] []))
    | some (tables earlier last) =>
      .ok (es.put name (tables (Entries.finish last :: earlier) []))
    | some _ => .error (.repeated name)) path

end Draft

end Crosswalk.Toml
