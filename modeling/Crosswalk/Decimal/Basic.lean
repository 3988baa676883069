import Crosswalk.Binary64

/-!
# Decimal numbers and digits

* `Decimal`: a whole number of units of a power of ten.
* `digits`: the decimal digits of a natural number, most significant first.
* `digitValue?`: the value of an ASCII digit.
* `toBinary64`: the binary64 number nearest to a decimal.
-/

namespace Crosswalk

/-- The number `coefficient * 10 ^ exponent`. -/
structure Decimal where
  coefficient : Nat
  exponent : Int
deriving DecidableEq, Repr, Inhabited

namespace Decimal

/-! ## Digits -/

/-- The value of an ASCII decimal digit. -/
def digitValue? (c : Char) : Option Nat :=
  if '0' ≤ c ∧ c ≤ '9' then some (c.toNat - '0'.toNat) else none

def isDigit (c : Char) : Bool := (digitValue? c).isSome

/-- The ASCII digit of a value below ten. -/
def digitChar (d : Nat) : Char := Char.ofNat ('0'.toNat + d)

/-- The decimal digits of `n`, most significant first, without leading zeros; zero is `0`. -/
def digits (n : Nat) : List Char :=
  if n < 10 then [digitChar n] else digits (n / 10) ++ [digitChar (n % 10)]
termination_by n
decreasing_by omega

/-- The number that a run of digits continues from `start`. Other characters are passed over. -/
def readDigits (start : Nat) (cs : List Char) : Nat :=
  cs.foldl (fun n c => match digitValue? c with
    | some d => n * 10 + d
    | none => n) start

/-- The text of a natural number. -/
def ofNatText (n : Nat) : String := String.ofList (digits n)

/-- The digits of an integer, after a minus sign if it is negative. -/
def intDigits (n : Int) : List Char :=
  if n < 0 then '-' :: digits n.natAbs else digits n.natAbs

/-- The text of an integer. -/
def ofIntText (n : Int) : String := String.ofList (intDigits n)

/-! ## To binary -/

/-- `num / den` is the decimal. -/
def num (d : Decimal) : Nat := d.coefficient * Nat.pow 10 d.exponent.toNat

def den (d : Decimal) : Nat := Nat.pow 10 (-d.exponent).toNat

/-- The binary64 number nearest to a decimal. Decimals far outside the range of binary64 are
decided by their exponents, without forming their powers of ten. -/
def toBinary64 (negative : Bool) (d : Decimal) : Binary64 :=
  if d.coefficient = 0 then Binary64.zero negative
  else if 400 < d.exponent then Binary64.infinity negative
  else if d.exponent + (Nat.log2 d.coefficient / 3 + 1 : Nat) < -400 then Binary64.zero negative
  else Binary64.ofRatio negative d.num d.den

end Decimal

end Crosswalk
