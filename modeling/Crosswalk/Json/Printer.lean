import Crosswalk.Json.Basic
import Crosswalk.Decimal.Layout
import Crosswalk.Text.Hex

/-!
# Writing JSON

* `compact`: a tree without any blanks.
* `pretty`: a tree over several lines, two blanks deeper for every level.
-/

namespace Crosswalk

/-- Numbers with a leading exponent from -5 to 15 have no exponent part; whole ones keep `.0`. -/
def jsonNumberLayout : Decimal.Layout where
  tie := .even
  positional := some (-5, 15)
  keepsPoint := true
  signsExponent := true
  nan := "null"
  signsNaN := false

def Number.jsonText : Number → String
  | natural n => Decimal.ofNatText n.toNat
  | negative n => Decimal.ofIntText n.toInt
  | real x => x.text jsonNumberLayout

namespace Json

/-- A character inside a JSON string. -/
def escapeChar (c : Char) : List Char :=
  if c = '"' then ['\\', '"']
  else if c = '\\' then ['\\', '\\']
  else if c = '\x08' then ['\\', 'b']
  else if c = '\x0c' then ['\\', 'f']
  else if c = '\n' then ['\\', 'n']
  else if c = '\r' then ['\\', 'r']
  else if c = '\t' then ['\\', 't']
  else if c.toNat < 32 then
    ['\\', 'u', '0', '0', Text.lowerDigit (c.toNat / 16), Text.lowerDigit (c.toNat % 16)]
  else [c]

/-- A string in double quotes. -/
def quote (s : String) : String :=
  String.ofList ('"' :: (s.toList.flatMap escapeChar ++ ['"']))

/-- A tree without any blanks. -/
def compact : Json → String
  | null => "null"
  | bool b => boolText b
  | number n => n.jsonText
  | string s => quote s
  | array xs => "[" ++ ",".intercalate (xs.map compact) ++ "]"
  | object ms =>
    "\x7b" ++ ",".intercalate (ms.map fun m => quote m.1 ++ ":" ++ compact m.2) ++ "\x7d"
decreasing_by
  · have := List.sizeOf_lt_of_mem ‹_›
    simp only [array.sizeOf_spec]; omega
  · have := sizeOf_member_lt ‹_›
    simp only [object.sizeOf_spec]; omega

/-- A new line at a depth. -/
def newLine (depth : Nat) : String := "\n" ++ String.ofList (List.replicate (2 * depth) ' ')

/-- Parts of a container on lines of their own; an empty one stays on its line. -/
def block (opening closing : String) (depth : Nat) (parts : List String) : String :=
  if parts.isEmpty then opening ++ closing
  else
    opening ++ newLine (depth + 1) ++ (("," ++ newLine (depth + 1)).intercalate parts)
      ++ newLine depth ++ closing

/-- A tree over several lines, its first line at a depth. -/
def prettyAt (depth : Nat) : Json → String
  | null => "null"
  | bool b => boolText b
  | number n => n.jsonText
  | string s => quote s
  | array xs => block "[" "]" depth (xs.map (prettyAt (depth + 1)))
  | object ms =>
    block "\x7b" "\x7d" depth (ms.map fun m => quote m.1 ++ ": " ++ prettyAt (depth + 1) m.2)
termination_by j => sizeOf j
decreasing_by
  · have := List.sizeOf_lt_of_mem ‹_›
    simp only [array.sizeOf_spec]; omega
  · have := sizeOf_member_lt ‹_›
    simp only [object.sizeOf_spec]; omega

/-- A tree over several lines. -/
def pretty (j : Json) : String := prettyAt 0 j

end Json

end Crosswalk
