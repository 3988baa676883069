import Crosswalk.Path.Slice

/-!
# Segments

A segment is one step into a document: a member of a map, a position of an array, or a slice.

* `position?`: the place of a signed index in an array of a length.
* `Segment.read`: what a segment leads to; `undefined` where there is nothing.
* `Segment.write`: a value written where a segment leads. A container of the wrong kind is replaced
  by an empty one of the right kind.
-/

namespace Crosswalk

/-- One step into a document. -/
inductive Segment where
  | field (name : String)
  | index (position : Int)
  | slice (slice : Slice)
deriving DecidableEq, Repr

/-- The place of a signed index in an array, a negative one counted from the end; none if it lies
before the first element. -/
def position? (index : Int) (length : Nat) : Option Nat :=
  if 0 ≤ index then some index.toNat
  else if index.natAbs ≤ length then some (length - index.natAbs)
  else none

/-- The element at a signed index of an array, `undefined` if there is none. -/
def readIndex (index : Int) (v : Value) : Value :=
  match position? index v.items.length with
  | some p => v.items[p]?.getD .undefined
  | none => .undefined

/-- The elements of an array after a write at a signed index. A gap before a position past the end
is filled with `null`; a position before the first element or too far past the end is not
written. -/
def writeIndexItems (index : Int) (xs : List Value) (value : Value) : List Value :=
  match position? index xs.length with
  | none => xs
  | some p =>
    if xs.length + maxPadding < p then xs
    else if p < xs.length then xs.set p value
    else xs ++ List.replicate (p - xs.length) Value.null ++ [value]

/-- A value written at a signed index. What is not an array counts as the empty one. -/
def writeIndex (index : Int) (v value : Value) : Value :=
  .array (writeIndexItems index v.items value)

/-- A value written at a member. What is not a map counts as the empty one, and writing
`undefined` removes the member. -/
def writeField (name : String) (v value : Value) : Value :=
  if value.isUndefined then .map (v.members.erase name)
  else .map (v.members.put name value)

namespace Segment

def isField : Segment → Bool
  | field _ => true
  | _ => false

/-- What the segment leads to. -/
def read : Segment → Value → Value
  | field name, v => v.member name
  | index i, v => readIndex i v
  | slice s, v => .array (s.read v)

/-- The value written where the segment leads. -/
def write : Segment → Value → Value → Value
  | field name, v, value => writeField name v value
  | index i, v, value => writeIndex i v value
  | slice s, v, value => s.write v value

end Segment

end Crosswalk
