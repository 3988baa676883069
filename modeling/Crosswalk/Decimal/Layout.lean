import Crosswalk.Decimal.Shortest

/-!
# Layouts of decimal text

A layout fixes how the digits of a shortest decimal are set: where the exponent part begins to be
used, whether a whole number keeps its `.0`, and how ties are broken.

* `positional`: digits with a decimal point and no exponent part.
* `scientific`: one digit, the rest behind a point, and the leading exponent.
* `Binary64.text`: a finite or infinite number in a layout.
-/

namespace Crosswalk

namespace Decimal

/-- How a format writes a number. -/
structure Layout where
  /-- Which of two equally near digits is written. -/
  tie : Tie
  /-- The least and the greatest leading exponent written without an exponent part; all of them
  if there is none. -/
  positional : Option (Int × Int)
  /-- A whole number without an exponent part ends in `.0`. -/
  keepsPoint : Bool
  /-- A positive exponent has a plus sign. -/
  signsExponent : Bool
  /-- The text of what is not a number. -/
  nan : String
  /-- Whether the sign of what is not a number is written. -/
  signsNaN : Bool

/-- The leading exponent of a coefficient with these digits. -/
def leadingExponent (ds : List Char) (exponent : Int) : Int := exponent + (ds.length : Int) - 1

/-- Digits around a decimal point, with zeros where there are no digits. -/
def positionalChars (keepsPoint : Bool) (ds : List Char) (exponent : Int) : List Char :=
  let point := exponent + (ds.length : Int)
  if point ≤ 0 then
    '0' :: '.' :: (List.replicate (-point).toNat '0' ++ ds)
  else if (ds.length : Int) ≤ point then
    ds ++ List.replicate exponent.toNat '0' ++ (if keepsPoint then ['.', '0'] else [])
  else
    ds.take point.toNat ++ '.' :: ds.drop point.toNat

/-- One digit before the point, and the leading exponent after an `e`. -/
def scientificChars (signsExponent : Bool) (ds : List Char) (exponent : Int) : List Char :=
  let lead := leadingExponent ds exponent
  let mantissa := match ds with
    | [] => []
    | [d] => [d]
    | d :: rest => d :: '.' :: rest
  let sign := if signsExponent ∧ 0 ≤ lead then ['+'] else []
  mantissa ++ 'e' :: (sign ++ intDigits lead)

/-- The characters of a decimal in a layout. -/
def Layout.chars (l : Layout) (d : Decimal) : List Char :=
  let ds := digits d.coefficient
  let lead := leadingExponent ds d.exponent
  let inRange := match l.positional with
    | none => true
    | some (least, greatest) => least ≤ lead && lead ≤ greatest
  if inRange then positionalChars l.keepsPoint ds d.exponent
  else scientificChars l.signsExponent ds d.exponent

end Decimal

namespace Binary64

open Decimal

/-- The sign of a negative number, in front of its digits. -/
def signChars (x : Binary64) : List Char := if x.isNegative then ['-'] else []

/-- A finite number in a layout: its sign and its shortest digits. -/
def finiteChars (l : Layout) (x : Binary64) : List Char :=
  x.signChars ++ l.chars (Decimal.ofBinary64 l.tie x)

/-- The text of a number in a layout. -/
def text (l : Layout) (x : Binary64) : String :=
  if x.isFinite then String.ofList (finiteChars l x)
  else if x.isNaN then (if l.signsNaN && x.isNegative then "-" else "") ++ l.nan
  else if x.isNegative then "-inf" else "inf"

end Binary64

end Crosswalk
