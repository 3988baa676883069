import Crosswalk.Decimal.Basic

/-!
# Shortest decimals

The shortest decimal of a finite binary64 number is the one on the coarsest power of ten that
still reads back as the number.

* `Interval`: the reals that round to a number. Its ends belong to it when the significand is even.
* `hit?`: the multiple of a power of ten in the interval that is nearest to the number.
* `ofBinary64`: the hit on the coarsest power of ten that has one.
-/

namespace Crosswalk

namespace Decimal

/-- Which neighbour stands for a number halfway between two. -/
inductive Tie where
  | up
  | even
deriving DecidableEq, Repr

/-- The reals that round to a number, in quarters of a grain, with the number itself. -/
structure Interval where
  low : Nat
  value : Nat
  high : Nat
  closed : Bool

/-- Half a step lies above a finite number, and half a step below it; below a power of two the
steps are half as wide. -/
def Interval.ofBinary64 (x : Binary64) : Interval :=
  let step := Nat.pow 2 x.shift
  let narrow := x.fraction = 0 ∧ 1 < x.exponentField
  { low := 4 * x.grains - (if narrow then step else 2 * step)
    value := 4 * x.grains
    high := 4 * x.grains + 2 * step
    closed := x.significand % 2 = 0 }

/-- `num / den` quarters of a grain lie in the interval. -/
def Interval.holds (i : Interval) (num den : Nat) : Bool :=
  if i.closed then i.low * den ≤ num ∧ num ≤ i.high * den
  else i.low * den < num ∧ num < i.high * den

/-- Quarters of a grain in `10 ^ k`, as a ratio. -/
def unitNum (k : Int) : Nat := Nat.pow 10 k.toNat * (4 * Binary64.one)

def unitDen (k : Int) : Nat := Nat.pow 10 (-k).toNat

/-- The multiple of `10 ^ k` in the interval that is nearest to the number. -/
def hit? (tie : Tie) (i : Interval) (k : Int) : Option Nat :=
  let num := unitNum k
  let den := unitDen k
  let below := i.value * den / num
  let lower := i.holds (below * num) den
  let upper := i.holds ((below + 1) * num) den
  let twice := 2 * (i.value * den % num)
  match lower, upper with
  | false, false => none
  | true, false => some below
  | false, true => some (below + 1)
  | true, true =>
    if twice < num then some below
    else if num < twice then some (below + 1)
    else match tie with
      | .up => some (below + 1)
      | .even => some (below + below % 2)

/-- The first hit on the powers of ten from `10 ^ k` downward, and the exact value if `steps` of
them have none. -/
def search (tie : Tie) (x : Binary64) (i : Interval) : (steps : Nat) → (k : Int) → Decimal
  | 0, _ => ⟨x.grains * Nat.pow 5 1074, -1074⟩
  | steps + 1, k =>
    match hit? tie i k with
    | some d => ⟨d, k⟩
    | none => search tie x i steps (k - 1)

/-- A power of ten above the interval of a number other than zero. -/
def topExponent (x : Binary64) : Int :=
  let width : Int := (Nat.log2 x.grains : Int) + 2 - 1074
  if 0 ≤ width then width / 3 + 1 else -((-width) / 4)

/-- The shortest decimal of a finite magnitude; of several that are as short, the nearest. -/
def ofBinary64 (tie : Tie) (x : Binary64) : Decimal :=
  if x.grains = 0 then ⟨0, 0⟩
  else
    let top := topExponent x
    search tie x (Interval.ofBinary64 x) (top + 1074).toNat top

end Decimal

end Crosswalk
