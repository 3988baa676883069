import Crosswalk.Json.Basic

/-!
# Records in documents

A schema says which fields a record has in a document and what each of them adds to it. A schema is
written once, and read by every format that has a `Reader`.

* `Field`: the names of a field, and a reader of its contents.
* `Schema.find?`: the field of a name.
* `Reader`: how a format reads the few kinds of contents of which schemas are made.
-/

namespace Crosswalk

/-- A field of a record. -/
structure Field (D : Type → Type) (σ : Type) where
  /-- A field goes by any of its names, but is given once. -/
  names : List String
  /-- What the contents add to the record. -/
  read : D (σ → σ)

/-- The fields of a record. -/
structure Schema (D : Type → Type) (σ : Type) where
  /-- The record without any fields. -/
  blank : σ
  fields : List (Field D σ)
  /-- Fields of other names are passed over, instead of being refused. -/
  allowsOthers : Bool

/-- The place of the first field with a name in a list, and the field. -/
def findField? {D : Type → Type} {σ : Type} (name : String) : List (Field D σ) →
    Option (Nat × Field D σ)
  | [] => none
  | f :: rest =>
    if f.names.contains name then some (0, f)
    else (findField? name rest).map fun (i, g) => (i + 1, g)

/-- The place of a field and the field itself, by one of its names. -/
def Schema.find? {D : Type → Type} {σ : Type} (s : Schema D σ) (name : String) :
    Option (Nat × Field D σ) :=
  findField? name s.fields

/-- How a format reads contents of a known kind. -/
structure Reader (D : Type → Type) where
  map : {α β : Type} → (α → β) → D α → D β
  /-- A text, or null where the format has one. -/
  optionalText : D (Option String)
  /-- One of some words. -/
  word : {α : Type} → (String → Option α) → D α
  /-- Contents of any kind. -/
  tree : D Json
  list : {α : Type} → D α → D (List α)
  record : {σ : Type} → Schema D σ → D σ

/-- A field that is read and then put into the record. -/
def Reader.field {D : Type → Type} {α σ : Type} (r : Reader D) (names : List String) (read : D α)
    (put : α → σ → σ) : Field D σ :=
  ⟨names, r.map put read⟩

end Crosswalk
