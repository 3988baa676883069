import Crosswalk.Decimal.Basic

/-!
# Reading decimal text

* `Binary64.ofText?`: a sign, digits around an optional point, and an optional exponent part; or
  one of the words for infinity and for what is not a number, in any case.
* `intOfText?`: a sign and digits, within a range.
-/

namespace Crosswalk

namespace Decimal

/-- A leading sign, read off: whether it is a minus, and the characters after it. -/
def splitSign : List Char → Bool × List Char
  | '-' :: rest => (true, rest)
  | '+' :: rest => (false, rest)
  | cs => (false, cs)

/-- A nonempty run of digits and nothing else. -/
def natOfChars? (cs : List Char) : Option Nat :=
  if cs ≠ [] ∧ cs.all isDigit then some (readDigits 0 cs) else none

/-- An integer with an optional sign. -/
def intOfChars? (cs : List Char) : Option Int :=
  let (negative, rest) := splitSign cs
  (natOfChars? rest).map fun n => if negative then -(n : Int) else n

/-- The integer of a text, if it fits in 64 bits. -/
def int64OfText? (s : String) : Option Int64 :=
  match intOfChars? s.toList with
  | some n => if -(Nat.pow 2 63) ≤ n ∧ n < Nat.pow 2 63 then some (Int64.ofInt n) else none
  | none => none

/-- The exponent part of a number, from the `e` on; zero if there is none. -/
def exponentOfChars? : List Char → Option Int
  | [] => some 0
  | c :: rest => if c = 'e' ∨ c = 'E' then intOfChars? rest else none

/-- Digits around an optional point, at least one in all, with an optional exponent part. -/
def ofChars? (cs : List Char) : Option Decimal :=
  let whole := cs.takeWhile isDigit
  let afterWhole := cs.dropWhile isDigit
  let (places, rest) := match afterWhole with
    | '.' :: more => (more.takeWhile isDigit, more.dropWhile isDigit)
    | other => ([], other)
  if whole = [] ∧ places = [] then none
  else (exponentOfChars? rest).map fun e =>
    ⟨readDigits 0 (whole ++ places), e - (places.length : Int)⟩

end Decimal

namespace Binary64

open Decimal

/-- The ASCII letters of a word, in lower case. -/
def lowerWord (cs : List Char) : String := String.ofList (cs.map Char.toLower)

/-- The number of an unsigned text. -/
def ofUnsignedChars? (negative : Bool) (cs : List Char) : Option Binary64 :=
  match ofChars? cs with
  | some d => some (d.toBinary64 negative)
  | none =>
    let word := lowerWord cs
    if word = "inf" ∨ word = "infinity" then some (infinity negative)
    else if word = "nan" then some (nan negative)
    else none

/-- The number nearest to a decimal text. -/
def ofText? (s : String) : Option Binary64 :=
  let (negative, rest) := splitSign s.toList
  ofUnsignedChars? negative rest

end Binary64

end Crosswalk
