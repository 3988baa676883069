import Crosswalk.Toml.Reader
import Crosswalk.Schema

/-!
# Records in TOML documents

A record is a table, or an array of the contents of its fields in their order.

* `reader`: how TOML trees are read by a schema.
* `decode`: the record of a text.
-/

namespace Crosswalk.Toml

/-- The contents of a tree. -/
abbrev Decode (α : Type) := Toml → Outcome α

def mismatch {α : Type} (expected : String) : Outcome α :=
  .error (.malformed ("invalid TOML: expected " ++ expected) none none)

/-- The name under which the text of a moment stands where entries are asked for. -/
def momentName : String := "$__toml_private_datetime"

/-- The entries of a tree; a moment has one. -/
def entries? : Toml → Option (List (String × Toml))
  | table es => some es
  | moment text => some [(momentName, string text)]
  | _ => none

def decodeText : Decode (Option String)
  | string s => .ok (some s)
  | _ => mismatch "a string"

def isEmptyContainer : Toml → Bool
  | array ts => ts.isEmpty
  | table es => es.isEmpty
  | _ => false

/-- A word is a string, or the only name of a table, with an empty container. -/
def wordOf? : Toml → Option String
  | string s => some s
  | table [(name, t)] => if isEmptyContainer t then some name else none
  | _ => none

def decodeWord {α : Type} (known : String → Option α) : Decode α := fun t =>
  match (wordOf? t).bind known with
  | some a => .ok a
  | none => mismatch "another word"

/-- The JSON tree of a tree. -/
def toJson : Toml → Json
  | bool b => .bool b
  | int n => .number (.ofInt64 n)
  | float x => if x.isFinite then .number (.real x) else .null
  | string s => .string s
  | moment text => .object [(momentName, .string text)]
  | array ts => .array (ts.map toJson)
  | table es => .object (es.map fun e => (e.1, toJson e.2))
decreasing_by
  · have := List.sizeOf_lt_of_mem ‹_›
    simp only [array.sizeOf_spec]; omega
  · have := sizeOf_entry_lt ‹_›
    simp only [table.sizeOf_spec]; omega

def decodeList {α : Type} (item : Decode α) : Decode (List α)
  | array ts => ts.mapM item
  | _ => mismatch "an array"

/-- A record with entries. The names of entries differ, but two of them can name one field. -/
def decodeFields {σ : Type} (schema : Schema Decode σ) :
    (given : List Nat) → σ → List (String × Toml) → Outcome σ
  | _, record, [] => .ok record
  | given, record, (name, t) :: rest =>
    match schema.find? name with
    | none =>
      if schema.allowsOthers then decodeFields schema given record rest
      else mismatch "another name"
    | some (place, f) =>
      if given.contains place then mismatch "another name"
      else
        match f.read t with
        | .error e => .error e
        | .ok change => decodeFields schema (place :: given) (change record) rest

/-- The fields of a record one after the other, as far as there are elements. -/
def decodePositions {σ : Type} : List (Field Decode σ) → σ → List Toml → Outcome σ
  | f :: fields, record, t :: ts =>
    match f.read t with
    | .error e => .error e
    | .ok change => decodePositions fields (change record) ts
  | _, record, _ => .ok record

def decodeRecord {σ : Type} (schema : Schema Decode σ) : Decode σ := fun t =>
  match t.entries?, t with
  | some es, _ => decodeFields schema [] schema.blank es
  | none, array ts => decodePositions schema.fields schema.blank ts
  | none, _ => mismatch "a table"

/-- How TOML trees are read by a schema. -/
def reader : Reader Decode where
  map := fun f decode t => (decode t).map f
  optionalText := decodeText
  word := decodeWord
  tree := fun t => .ok t.toJson
  list := decodeList
  record := decodeRecord

/-- The contents of a text. -/
def decode {α : Type} (contents : Decode α) (text : String) : Outcome α :=
  match ofText? text with
  | .error e => .error e
  | .ok t => contents t

end Crosswalk.Toml
