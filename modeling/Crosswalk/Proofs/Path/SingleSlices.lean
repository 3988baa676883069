import Crosswalk.Proofs.Path.SliceFrame

/-!
# Slices of one element

An index is the same as a slice that is one position wide, in either direction. The two find their
place in ways of their own: an index counts back from the end and has no place before the front,
while a slice has a window that loses the positions before the front.

* `single`: the slice of an index.
* `window_single`: its window is the place of the index, or empty if there is none.
* `index_eq_single`: the element at the index is the only one that the slice reads, and writing a
  value at the index is writing the value alone through the slice, on the way along a path as well.
-/

namespace Crosswalk

open Value

/-- The element at a signed index of an array, if there is one. -/
def elementAt? (i : Int) (v : Value) : Option Value :=
  (position? i v.items.length).bind (v.items[·]?)

theorem readIndex_eq (i : Int) (v : Value) : readIndex i v = (elementAt? i v).getD undefined := by
  unfold readIndex elementAt?
  cases position? i v.items.length <;> rfl

namespace Slice

/-- The slice of one position at an index, forward or backward. -/
def single (i : Int) (backward : Bool) : Slice := ⟨i, some (if backward then -1 else 1)⟩

variable {i : Int} {backward : Bool} {n p : Nat}

/-- The slice of an index begins at the place of the index. -/
theorem origin_single_of_position? (h : position? i n = some p) :
    (single i backward).origin n = p := by
  simp only [single, origin]
  unfold position? at h
  split at h
  · obtain rfl := Option.some.inj h
    omega
  · split at h
    · obtain rfl := Option.some.inj h
      omega
    · cases h

/-- The slice of an index without a place begins before the first element. -/
theorem origin_single_of_no_position (h : position? i n = none) :
    (single i backward).origin n < 0 := by
  simp only [single, origin]
  unfold position? at h
  split at h
  · cases h
  · split at h
    · cases h
    · omega

/-- The window of the slice is the place of the index. If this is before the first element, the only
position of the window is, too. -/
theorem window_single (i : Int) (backward : Bool) (n : Nat) :
    (single i backward).window n =
      match position? i n with
      | some p => { first := p, count := 1, overhang := 0 }
      | none => { first := 0, count := 0, overhang := 1 } := by
  have hsize : (single i backward).size = some (if backward then -1 else 1) := rfl
  have hwidth : (if backward then -1 else 1 : Int).natAbs = 1 := by cases backward <;> rfl
  simp only [window, hsize, hwidth]
  cases hp : position? i n with
  | some p =>
    rw [origin_single_of_position? hp]
    simp only [Window.mk.injEq]
    omega
  | none =>
    have hbefore : (single i backward).origin n < 0 := origin_single_of_no_position hp
    simp only [Window.mk.injEq]
    omega

/-- One element has no direction. -/
theorem orient_toList (s : Slice) (x? : Option Value) : s.orient x?.toList = x?.toList := by
  cases x? <;> simp [orient]

/-- The slice of an index reads the element there. -/
theorem read_single (i : Int) (backward : Bool) (v : Value) :
    (single i backward).read v = (elementAt? i v).toList := by
  rw [read, window_single, elementAt?]
  cases position? i v.items.length with
  | none => rw [List.take_zero, Option.bind_none]; exact orient_toList _ none
  | some p => rw [List.take_one, List.head?_drop, orient_toList]; rfl

/-- A value alone lands at the place of the index, if there is one. -/
theorem landing_single (i : Int) (backward : Bool) (n : Nat) (value : Value) :
    (single i backward).landing n [value] = if (position? i n).isSome then [value] else [] := by
  have hline : (single i backward).lineUp [value] = [value] := by
    cases backward <;> rfl
  simp only [landing, hline, window_single]
  cases position? i n <;> rfl

/-- One value put in place of an element, or behind the end. -/
theorem splice_singleton (xs : List Value) (p : Nat) (value : Value) :
    splice xs p [value] =
      if p < xs.length then xs.set p value
      else xs ++ List.replicate (p - xs.length) null ++ [value] := by
  unfold splice
  split
  · next h =>
    rw [List.set_eq_take_append_cons_drop, if_pos h, Nat.sub_eq_zero_of_le (Nat.le_of_lt h)]
    simp
  · next h =>
    rw [List.take_of_length_le (by omega), List.drop_of_length_le (by simp; omega),
      List.append_nil]

/-- A value alone is written through the slice of an index as it is written at the index. -/
theorem write_single (i : Int) (backward : Bool) (v value : Value) :
    (single i backward).write v (array [value]) = writeIndex i v value := by
  rw [write, writeIndex, entries_array, writeItems, landing_single, window_single, writeIndexItems]
  cases position? i v.items.length with
  | none => rfl
  | some p => simp [splice_singleton]

/-- The only branch of the slice of an index begins with the element there. -/
theorem pairUp_single (f : Value → Value → Value) (i : Int) (backward : Bool) (v value : Value) :
    pairUp f ((single i backward).read v) [value] = [f (readIndex i v) value] := by
  rw [read_single, readIndex_eq]
  cases elementAt? i v <;> rfl

/-- An index and the slice of one position there, forward or backward, read and write the same. The
slice reads the element at the index alone, or none, and the index reads it, or `undefined`. A value
is written at the index as it is written alone through the slice, whether there is an element, a gap
to be filled, or no place, and `undefined` is no exception. Along a path, the slice takes the rest
of the path to what is at the index. -/
theorem index_eq_single (i : Int) (backward : Bool) (v value : Value) :
    (Segment.index i).read v = (elementAt? i v).getD undefined ∧
    (Segment.slice (single i backward)).read v = array (elementAt? i v).toList ∧
    (Segment.slice (single i backward)).write v (array [value])
      = (Segment.index i).write v value ∧
    ∀ rest, inject (.slice (single i backward) :: rest) v (array [value])
      = (Segment.index i).write v (inject rest ((Segment.index i).read v) value) := by
  refine ⟨readIndex_eq i v, congrArg array (read_single i backward v),
    write_single i backward v value, fun rest => ?_⟩
  rw [inject_slice (by simp), entries_array, pairUp_single, write_single]
  rfl

/-- Two positions past the end, the gap becomes `null`; before the first element, nothing is
written. -/
example : (single 3 true).write (array [int 1]) (array [undefined])
      = array [int 1, null, null, undefined] ∧
    (single (-2) false).write (array [int 1]) (array [int 7]) = array [int 1] := ⟨rfl, rfl⟩

end Slice

end Crosswalk
