import Crosswalk.Value.Basic

/-!
# Slices

A slice addresses a window of consecutive positions of an array: it begins at `start`, counted from
the end of the array if negative, and is `|size|` positions wide, or runs to the end of the array
without a size. A negative size walks the same window backward.

* `window`: the positions of the window from the first element on, and how many lie before it.
* `read`: the elements in the window, in the direction of the slice.
* `write`: the values of the window replaced, in the direction of the slice. A read and a write use
  the same window, so a write of what was read changes nothing.
-/

namespace Crosswalk

/-- The widest gap that a write past the end of an array fills with `null`. A write further out is
left undone. -/
def maxPadding : Nat := 65536

/-- A window of an array with a direction. -/
structure Slice where
  start : Int
  size : Option Int
deriving DecidableEq, Repr

/-- The positions of a slice from the first element of an array on. -/
structure Window where
  /-- The first position that is not before the array. -/
  first : Nat
  /-- The number of positions from there on. -/
  count : Nat
  /-- The number of positions before the array. -/
  overhang : Nat
deriving DecidableEq, Repr

namespace Slice

/-- Whether the slice walks its window backward. -/
def isBackward (s : Slice) : Bool :=
  match s.size with
  | some n => n < 0
  | none => false

/-- Where the window begins in an array of a length; negative if before its first element. -/
def origin (s : Slice) (length : Nat) : Int :=
  if s.start < 0 then length + s.start else s.start

/-- The window in an array of a length. It is cut off at the first element, but not at the last
one if it has a size. -/
def window (s : Slice) (length : Nat) : Window :=
  let origin := s.origin length
  match s.size with
  | none =>
    { first := origin.toNat, count := length - origin.toNat, overhang := 0 }
  | some n =>
    let overhang := min (-origin).toNat n.natAbs
    { first := origin.toNat, count := n.natAbs - overhang, overhang }

/-- Elements in the order of the window, in the direction of the slice. -/
def orient (s : Slice) (vs : List Value) : List Value := if s.isBackward then vs.reverse else vs

/-- The elements in the window. -/
def read (s : Slice) (v : Value) : List Value :=
  let w := s.window v.items.length
  s.orient ((v.items.drop w.first).take w.count)

/-- As many values as the slice is wide, in the order of the window. -/
def lineUp (s : Slice) (vs : List Value) : List Value :=
  s.orient (match s.size with
    | some n => vs.take n.natAbs
    | none => vs)

/-- The values that land in the window: those before the first element are dropped, so that the
last value lands on the last position. -/
def landing (s : Slice) (length : Nat) (vs : List Value) : List Value :=
  let lined := s.lineUp vs
  let w := s.window length
  let count := if s.size.isNone then lined.length else w.count
  (lined.drop (min w.overhang (lined.length - count))).take count

/-- Elements replaced by `middle` from a position on; a gap before it is filled with `null`. -/
def splice (xs : List Value) (first : Nat) (middle : List Value) : List Value :=
  xs.take first ++ List.replicate (first - xs.length) Value.null ++ middle
    ++ xs.drop (first + middle.length)

/-- The elements of an array after a write. -/
def writeItems (s : Slice) (xs vs : List Value) : List Value :=
  let values := s.landing xs.length vs
  let first := (s.window xs.length).first
  if values.isEmpty || xs.length + maxPadding < first then xs else splice xs first values

/-- The window of `v` replaced by the entries of `value`. What is not an array counts as the empty
one. -/
def write (s : Slice) (v value : Value) : Value :=
  .array (s.writeItems v.items value.entries)

end Slice

end Crosswalk
