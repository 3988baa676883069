/-!
# Binary64 numbers

A binary64 number is its word of 64 bits: a sign, eleven exponent bits and 52 fraction bits. The
magnitude of a finite number is a whole number of *grains*, one grain being `2 ^ -1074`, so every
rule below is a rule about natural numbers.

* `grains`: the magnitude, `significand * 2 ^ shift`.
* `ofRatio`: the number nearest to a ratio of natural numbers, a half going to the even
  significand, and infinity from half a step above the largest finite number on.
* `mul`, `div`: the exact product and quotient of two magnitudes, rounded once.
-/

namespace Crosswalk

/-- A binary64 number as the word that encodes it. -/
structure Binary64 where
  bits : UInt64
deriving DecidableEq, Repr, Inhabited

namespace Binary64

/-! ## Fields -/

/-- The top bit is the sign. -/
def isNegative (x : Binary64) : Bool := Nat.pow 2 63 ≤ x.bits.toNat

/-- The eleven exponent bits. -/
def exponentField (x : Binary64) : Nat := x.bits.toNat / Nat.pow 2 52 % Nat.pow 2 11

/-- The 52 fraction bits. -/
def fraction (x : Binary64) : Nat := x.bits.toNat % Nat.pow 2 52

/-- All exponent bits are set in infinities and in what is not a number, and nowhere else. -/
def isFinite (x : Binary64) : Bool := x.exponentField != 2047

def isNaN (x : Binary64) : Bool := x.exponentField == 2047 && x.fraction != 0

/-- The fraction, with the hidden bit of a normal number. -/
def significand (x : Binary64) : Nat :=
  if x.exponentField = 0 then x.fraction else x.fraction + Nat.pow 2 52

/-- One unit of the significand is `2 ^ shift` grains. -/
def shift (x : Binary64) : Nat := x.exponentField - 1

/-- The magnitude in grains of `2 ^ -1074`. -/
def grains (x : Binary64) : Nat := x.significand * Nat.pow 2 x.shift

/-- The number of grains in one. -/
def one : Nat := Nat.pow 2 1074

/-- A finite number without a fractional part. -/
def isIntegral (x : Binary64) : Bool := x.isFinite && x.grains % one == 0

/-- The whole part of the magnitude. -/
def wholePart (x : Binary64) : Nat := x.grains / one

/-! ## Construction -/

/-- The word of a magnitude, given as the lower 63 bits, with a sign. -/
def withSign (negative : Bool) (magnitude : Nat) : Binary64 :=
  ⟨UInt64.ofNat (if negative then Nat.pow 2 63 + magnitude else magnitude)⟩

/-- The lower 63 bits of an infinity. -/
def infiniteMagnitude : Nat := 2047 * Nat.pow 2 52

def zero (negative : Bool) : Binary64 := withSign negative 0

def infinity (negative : Bool) : Binary64 := withSign negative infiniteMagnitude

/-- The quiet pattern without a payload stands for what is not a number. -/
def nan (negative : Bool) : Binary64 := withSign negative (infiniteMagnitude + Nat.pow 2 51)

/-- The same number with the opposite sign. -/
def neg (x : Binary64) : Binary64 := ⟨x.bits ^^^ 0x8000000000000000⟩

/-- The whole number nearest to `num / den`; a half goes to the even neighbour. -/
def roundRatio (num den : Nat) : Nat :=
  let below := num / den
  let twice := 2 * (num % den)
  if twice < den then below
  else if den < twice then below + 1
  else below + below % 2

/-- The lower 63 bits of the number nearest to `num / den` grains. The significand and the exponent
are laid out so that a carry out of the significand lands in the exponent. -/
def magnitudeOfGrains (num den : Nat) : Nat :=
  let shift := Nat.log2 (num / den) - 52
  min infiniteMagnitude (shift * Nat.pow 2 52 + roundRatio num (den * Nat.pow 2 shift))

/-- The number nearest to `num / den`, for a positive `den`. -/
def ofRatio (negative : Bool) (num den : Nat) : Binary64 :=
  withSign negative (magnitudeOfGrains (num * one) den)

def ofNat (n : Nat) : Binary64 := ofRatio false n 1

/-! ## Rounded products and quotients of magnitudes -/

/-- The product of two finite magnitudes, rounded to nearest. -/
def mul (x y : Binary64) : Binary64 := ofRatio false (x.grains * y.grains) (one * one)

/-- The quotient of two finite magnitudes, rounded to nearest, for a divisor other than zero. -/
def div (x y : Binary64) : Binary64 := ofRatio false x.grains y.grains

end Binary64

end Crosswalk
