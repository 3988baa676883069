import Crosswalk.Json.Printer
import Crosswalk.Json.Reader
import Crosswalk.Value.Display
import Crosswalk.Text.Suggestion
import Crosswalk.Plan.Direction

/-!
# Converters

A converter turns values into other values, with one function for each direction. A registry knows
converters by their names.

* `Converter.scalarText`: scalars on the left and their texts on the right.
* `Converter.jsonText`: values on the left and their JSON texts on the right.
* `Registry.find`: the converter of a name, or a message that suggests another one.
-/

namespace Crosswalk

/-- A function on values that can fail with a message. -/
abbrev Conversion := Value → Except String Value

/-- Two functions on values, one for each direction. -/
structure Converter where
  toRight : Conversion
  toLeft : Conversion

namespace Converter

def apply (c : Converter) : Direction → Conversion
  | .toRight => c.toRight
  | .toLeft => c.toLeft

/-! ## Scalars and their texts -/

/-- The text of a scalar. What has no text of its own stays as it is. -/
def writeScalar : Conversion
  | .int n => .ok (.string (Decimal.ofIntText n.toInt))
  | .float x => .ok (.string (x.text Value.plainNumber))
  | .bool b => .ok (.string (boolText b))
  | .array xs => .error ("cannot convert " ++ (Value.array xs).typeName ++ " to string")
  | .map ms => .error ("cannot convert " ++ (Value.map ms).typeName ++ " to string")
  | v => .ok v

/-- The first kind of scalar that a text can be read as: an integer, a binary64 number, or a truth
value. -/
def scalarOfText (s : String) : Value :=
  match Decimal.int64OfText? s with
  | some n => .int n
  | none =>
    match Binary64.ofText? s with
    | some x => .float x
    | none =>
      if s = "true" then .bool true
      else if s = "false" then .bool false
      else .string s

def readScalar : Conversion
  | .string s => .ok (scalarOfText s)
  | v => .ok v

/-- Scalars and their texts. -/
def scalarText : Converter := ⟨writeScalar, readScalar⟩

/-! ## Values and their JSON texts -/

def writeJson : Conversion := fun v => .ok (.string (Json.ofValue v).compact)

def readJson : Conversion
  | .string s =>
    match Json.parse s with
    | .ok j => .ok j.toValue
    | .error (.malformed message _ _) => .error ("invalid JSON text: " ++ message)
    | .error e => .error ("invalid JSON text: " ++ e.message)
  | .undefined => .ok .undefined
  | v => .error ("expected JSON text, found " ++ v.typeName)

/-- Values and their JSON texts. -/
def jsonText : Converter := ⟨writeJson, readJson⟩

end Converter

/-- Converters by their names. -/
structure Registry where
  entries : Members Converter

namespace Registry

def empty : Registry := ⟨[]⟩

/-- The registry with a converter under a name, in place of any that it knew by that name. -/
def register (r : Registry) (name : String) (c : Converter) : Registry := ⟨r.entries.put name c⟩

/-- The registry that every plan can count on. -/
def standard : Registry :=
  (empty.register "string" Converter.scalarText).register "json" Converter.jsonText

def get? (r : Registry) (name : String) : Option Converter := r.entries.get? name

/-- The names in order. -/
def names (r : Registry) : List String := r.entries.names.mergeSort fun a b => a ≤ b

/-- A name is suggested for another one within this many edits. -/
def suggestionBound : Nat := 3

/-- The converter of a name, or a message; `role` is the word for what it is needed as. -/
def find (r : Registry) (role name : String) : Except String Converter :=
  match r.get? name with
  | some c => .ok c
  | none =>
    let unknown := "unknown " ++ role ++ " '" ++ name ++ "'"
    match Text.closest? suggestionBound r.names name with
    | some other => .error (unknown ++ ", did you mean '" ++ other ++ "'?")
    | none => .error unknown

end Registry

end Crosswalk
