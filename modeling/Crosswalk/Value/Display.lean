import Crosswalk.Value.Basic
import Crosswalk.Decimal.Layout

/-!
# Display

* `display`: a value on one line, for people: strings and names in quotes, members and elements
  separated by a comma and a space.
-/

namespace Crosswalk.Value

/-- Numbers for people have no exponent part, and whole ones no point. -/
def plainNumber : Decimal.Layout where
  tie := .up
  positional := none
  keepsPoint := false
  signsExponent := false
  nan := "NaN"
  signsNaN := false

/-- A whole number is written out exactly and keeps one decimal place. -/
def displayFloat (x : Binary64) : String :=
  if x.isIntegral then
    String.ofList (x.signChars ++ Decimal.digits x.wholePart) ++ ".0"
  else x.text plainNumber

/-- A text in double quotes, with a backslash before quotes and backslashes. -/
def quoted (s : String) : String :=
  String.ofList ('"' :: s.toList.flatMap (fun c =>
    if c = '\\' ∨ c = '"' then ['\\', c] else [c]) ++ ['"'])

def display : Value → String
  | undefined => "undefined"
  | null => "null"
  | bool b => boolText b
  | int n => Decimal.ofIntText n.toInt
  | float x => displayFloat x
  | string s => quoted s
  | array xs => "[" ++ ", ".intercalate (xs.map display) ++ "]"
  | map ms =>
    "\x7b" ++ ", ".intercalate (ms.map fun m => quoted m.1 ++ ": " ++ display m.2) ++ "\x7d"
decreasing_by
  · have := List.sizeOf_lt_of_mem ‹_›
    simp only [array.sizeOf_spec]; omega
  · have := sizeOf_member_lt ‹_›
    simp only [map.sizeOf_spec]; omega

end Crosswalk.Value
