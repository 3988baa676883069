import Crosswalk.Path.Segment

/-!
# Reading and writing along paths

A path is walked segment by segment, and both walks fan out over arrays. A slice takes the rest of
the path to each element in its window. A field that meets an array takes itself and the rest of
the path to each of its elements.

* `extract`: what a path leads to, an array where it fans out.
* `inject`: a value written where a path leads. An array is dealt out to the branches where the path
  fans out; anything else is written into each branch of a field. `undefined` is never written.
-/

namespace Crosswalk

namespace Value

/-- A reading taken to the elements of arrays, at every depth. -/
def fan (f : Value → Value) : Value → Value
  | array xs => array (xs.map (fan f))
  | v => f v

/-- A writing taken to the elements of arrays, at every depth: an array of values is dealt out to
the elements one by one, leaving those beyond it; any other value goes to every element. -/
def spread (f : Value → Value → Value) : (v value : Value) → Value
  | array xs, value =>
    match value with
    | undefined => array xs
    | array vs =>
      array (xs.attach.zipWith (fun x w => spread f x.1 w) vs ++ xs.drop vs.length)
    | value => array (xs.map fun x => spread f x value)
  | v, value => if value.isUndefined then v else f v value
termination_by v => sizeOf v
decreasing_by
  · have := List.sizeOf_lt_of_mem x.2
    simp only [array.sizeOf_spec]; omega
  · have := List.sizeOf_lt_of_mem ‹_›
    simp only [array.sizeOf_spec]; omega

@[simp] theorem fan_array (f : Value → Value) (xs : List Value) :
    fan f (array xs) = array (xs.map (fan f)) := by rw [fan]

@[simp] theorem spread_undefined (f : Value → Value → Value) (v : Value) :
    spread f v undefined = v := by
  cases v <;> simp [spread, isUndefined]

theorem spread_array_array (f : Value → Value → Value) (xs vs : List Value) :
    spread f (array xs) (array vs)
      = array (List.zipWith (spread f) xs vs ++ xs.drop vs.length) := by
  rw [spread]
  congr 2
  rw [← List.zipWith_map_left (f := Subtype.val) (g := spread f), List.attach_map_subtype_val]

end Value

/-- Each branch with its current value, `undefined` beyond them. -/
def pairUp (f : Value → Value → Value) (current branches : List Value) : List Value :=
  List.zipWith f (current ++ List.replicate (branches.length - current.length) .undefined) branches

/-- What a path leads to in a document. -/
def extract : List Segment → Value → Value
  | [], v => v
  | .field name :: rest, v => v.fan fun u => extract rest (u.member name)
  | .index i :: rest, v => extract rest (readIndex i v)
  | .slice s :: rest, v => .array ((s.read v).map (extract rest))

/-- A value written where a path leads in a document. Containers on the way are made as needed. -/
def inject : List Segment → (v value : Value) → Value
  | [], v, value => if value.isUndefined then v else value
  | .field name :: rest, v, value =>
    v.spread (fun u w => writeField name u (inject rest (u.member name) w)) value
  | .index i :: rest, v, value =>
    if value.isUndefined then v else writeIndex i v (inject rest (readIndex i v) value)
  | .slice s :: rest, v, value =>
    if value.isUndefined then v
    else s.write v (.array (pairUp (inject rest) (s.read v) value.entries))

end Crosswalk
