import Crosswalk.Value.Basic

/-!
# Numbers in documents

A number of a document is kept as the narrowest of three kinds: a natural number of 64 bits, a
negative integer of 64 bits, or a binary64 number.

* `Number.ofInt64`: the number of an integer.
* `Number.toValue`: the value of a number.
* `Number.same`: equality of numbers as keys.
-/

namespace Crosswalk

/-- A number as the narrowest of three kinds. -/
inductive Number where
  | natural (n : UInt64)
  | negative (n : Int64)
  | real (x : Binary64)
deriving DecidableEq, Repr

namespace Number

/-- The number of an integer. -/
def ofInt64 (n : Int64) : Number :=
  if n.toInt < 0 then .negative n else .natural (UInt64.ofNat n.toInt.toNat)

/-- The value of a number: an integer where it fits, the nearest binary64 number otherwise. -/
def toValue : Number → Value
  | natural n =>
    if n.toNat < Nat.pow 2 63 then .int (Int64.ofInt n.toNat) else .float (Binary64.ofNat n.toNat)
  | negative n => .int n
  | real x => .float x

/-- Whether two numbers of one kind are equal. The two zeros are, and so is what is not a number. -/
def same : Number → Number → Bool
  | natural m, natural n => m == n
  | negative m, negative n => m == n
  | real x, real y => x == y || (x.isNaN && y.isNaN)
    || (x.isFinite && y.isFinite && x.grains == 0 && y.grains == 0)
  | _, _ => false

end Number

end Crosswalk
