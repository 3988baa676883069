import Crosswalk.Path.Segment

/-!
# Laws of one segment

What a read gives after a write through the same segment, and through another one. Writes are
looked at in the places that they reach: a field reaches every value that is not an array, an index
reaches the positions that it may pad up to (`Writable`), and a slice reaches the elements that it
reads.

* `member_writeField`, `readIndex_writeIndex`, `Slice.read_write`: a write reads back.
* `writeField_writeField`, `writeIndex_writeIndex`, `Slice.write_write`: the last write wins.
* `writeField_member`, `writeIndex_readIndex`, `Slice.write_read`: writing what was read changes
  nothing.
* `member_writeField_of_ne`, `readIndex_writeIndex_of_ne`: a write leaves the other places. A
  position past the end may become `null`.
-/

namespace Crosswalk

open Value

/-! ## Fields -/

section Fields

variable {name other : String} {u x y : Value}

theorem writeField_of_defined (h : x ≠ undefined) :
    writeField name u x = map (u.members.put name x) := by
  rw [writeField, if_neg (by simpa using h)]

/-- A value written at a member reads back. -/
theorem member_writeField (h : x ≠ undefined) : (writeField name u x).member name = x := by
  simp [writeField_of_defined h, member]

/-- A write at a member leaves the others. -/
theorem member_writeField_of_ne (hne : other ≠ name) (h : x ≠ undefined) :
    (writeField name u x).member other = u.member other := by
  simp [writeField_of_defined h, member, Members.get?_put_of_ne hne]

/-- The second of two writes at a member wins. -/
theorem writeField_writeField (hx : x ≠ undefined) (hy : y ≠ undefined) :
    writeField name (writeField name u x) y = writeField name u y := by
  simp [writeField_of_defined hx, writeField_of_defined hy]

/-- A member that is there belongs to a map, and writing it again changes nothing. -/
theorem writeField_member (h : u.member name ≠ undefined) :
    writeField name u (u.member name) = u := by
  rw [writeField_of_defined h]
  cases u with
  | map ms =>
    cases hm : Members.get? ms name with
    | none => simp [member, hm] at h
    | some x => simp [member, hm, Members.put_of_get? hm]
  | _ => simp [member, members] at h

end Fields

/-! ## Indices -/

/-- The signed indices that a write to an array of a length reaches: from the first element to as
far past the end as the array is padded. -/
def Writable (index : Int) (length : Nat) : Prop :=
  (0 ≤ index ∧ index ≤ length + maxPadding) ∨ (index < 0 ∧ -index ≤ length)

section Indices

variable {i j : Int} {v x y : Value}

/-- A writable index has a place, and keeps it in an array that is long enough to hold it. -/
theorem Writable.position? {n : Nat} (h : Writable i n) :
    ∃ p, position? i n = some p ∧ p ≤ n + maxPadding ∧
      position? i (max n (p + 1)) = some p := by
  rcases h with ⟨h0, hle⟩ | ⟨h0, hle⟩
  · refine ⟨i.toNat, by simp [Crosswalk.position?, h0], by omega, ?_⟩
    simp [Crosswalk.position?, h0]
  · have hn : max n (n - i.natAbs + 1) = n := by omega
    refine ⟨n - i.natAbs, ?_, by omega, ?_⟩
    · rw [Crosswalk.position?, if_neg (by omega), if_pos (by omega)]
    · rw [hn, Crosswalk.position?, if_neg (by omega), if_pos (by omega)]

/-- The elements of an array after a write at a place within reach. -/
theorem writeIndexItems_of_position? {xs : List Value} {p : Nat}
    (hp : position? i xs.length = some p) (hle : p ≤ xs.length + maxPadding) :
    writeIndexItems i xs x =
      if p < xs.length then xs.set p x
      else xs ++ List.replicate (p - xs.length) null ++ [x] := by
  simp only [writeIndexItems, hp]
  rw [if_neg (by omega)]

theorem length_writeIndexItems {xs : List Value} {p : Nat}
    (hp : position? i xs.length = some p) (hle : p ≤ xs.length + maxPadding) :
    (writeIndexItems i xs x).length = max xs.length (p + 1) := by
  rw [writeIndexItems_of_position? hp hle]
  split <;> simp <;> omega

/-- The element at a place after a write there. -/
theorem getElem?_writeIndexItems {xs : List Value} {p : Nat}
    (hp : position? i xs.length = some p) (hle : p ≤ xs.length + maxPadding) :
    (writeIndexItems i xs x)[p]? = some x := by
  rw [writeIndexItems_of_position? hp hle]
  split
  · next h => simp [h]
  · next h =>
    rw [List.getElem?_append_right (by simp; omega)]
    simp [show p - (xs.length + (p - xs.length)) = 0 by omega]

/-- A value written at an index reads back. -/
theorem readIndex_writeIndex (h : Writable i v.items.length) :
    readIndex i (writeIndex i v x) = x := by
  obtain ⟨p, hp, hle, hkeep⟩ := h.position?
  have hlen := length_writeIndexItems (x := x) hp hle
  simp only [readIndex, writeIndex, items_array, hlen, hkeep]
  rw [getElem?_writeIndexItems hp hle]
  rfl

/-- The second of two writes at an index wins. -/
theorem writeIndex_writeIndex (h : Writable i v.items.length) :
    writeIndex i (writeIndex i v x) y = writeIndex i v y := by
  obtain ⟨p, hp, hle, hkeep⟩ := h.position?
  have hlen := length_writeIndexItems (x := x) hp hle
  have hp' : position? i (writeIndexItems i v.items x).length = some p := by rw [hlen, hkeep]
  simp only [writeIndex, items_array]
  rw [writeIndexItems_of_position? hp' (by omega), if_pos (by omega),
    writeIndexItems_of_position? hp hle, writeIndexItems_of_position? hp hle]
  split
  · rw [List.set_set]
  · next hlt =>
    rw [List.set_append_right _ _ (by simp; omega)]
    simp [show p - (v.items.length + (p - v.items.length)) = 0 by omega]

/-- An element that is there belongs to an array, and writing it again changes nothing. -/
theorem writeIndex_readIndex (h : readIndex i v ≠ undefined) :
    writeIndex i v (readIndex i v) = v := by
  cases hp : position? i v.items.length with
  | none => simp [readIndex, hp] at h
  | some p =>
    have hlt : p < v.items.length := Nat.lt_of_not_le fun hge => by
      simp [readIndex, hp, List.getElem?_eq_none hge] at h
    cases v with
    | array xs =>
      simp only [items_array] at hp hlt
      simp only [readIndex, writeIndex, items_array, hp]
      rw [writeIndexItems_of_position? hp (by omega), if_pos hlt,
        List.getElem?_eq_getElem hlt, Option.getD_some, List.set_getElem_self]
    | _ => simp [items] at hlt

/-- A write at an index from the front leaves the other ones, up to positions that were past the
end: these may be filled with `null`. -/
theorem readIndex_writeIndex_of_ne (hi : 0 ≤ i) (hj : 0 ≤ j) (hne : i ≠ j) :
    readIndex j (writeIndex i v x) = readIndex j v ∨
      (readIndex j (writeIndex i v x) = null ∧ readIndex j v = undefined) := by
  have hpi : position? i v.items.length = some i.toNat := by simp [position?, hi]
  have hpj : ∀ n, position? j n = some j.toNat := by simp [position?, hj]
  have hpq : i.toNat ≠ j.toNat := by omega
  simp only [readIndex, writeIndex, items_array, hpj]
  by_cases hle : i.toNat ≤ v.items.length + maxPadding
  · rw [writeIndexItems_of_position? hpi hle]
    split
    · left; rw [List.getElem?_set_ne hpq]
    · next hlt =>
      rw [List.append_assoc]
      by_cases hold : j.toNat < v.items.length
      · left; rw [List.getElem?_append_left hold]
      · rw [List.getElem?_append_right (by omega),
          List.getElem?_eq_none (l := v.items) (by omega)]
        by_cases hgap : j.toNat - v.items.length < i.toNat - v.items.length
        · right
          rw [List.getElem?_append_left (by simpa using hgap)]
          simp [hgap]
        · left
          rw [List.getElem?_eq_none (by simp; omega)]
  · left
    simp only [writeIndexItems, hpi]
    rw [if_pos (by omega)]

end Indices

/-! ## Slices -/

namespace Slice

variable {s : Slice} {v : Value} {xs vs ws : List Value}

@[simp] theorem orient_orient (s : Slice) (vs : List Value) : s.orient (s.orient vs) = vs := by
  unfold orient; split <;> simp

@[simp] theorem length_orient (s : Slice) (vs : List Value) :
    (s.orient vs).length = vs.length := by
  unfold orient; split <;> simp

/-- The elements of an array before the window of a slice. -/
def before (s : Slice) (xs : List Value) : List Value := xs.take (s.window xs.length).first

/-- The elements of an array in the window of a slice, from first to last. -/
def inside (s : Slice) (xs : List Value) : List Value :=
  (xs.drop (s.window xs.length).first).take (s.window xs.length).count

/-- The elements of an array after the window of a slice. -/
def after (s : Slice) (xs : List Value) : List Value :=
  xs.drop ((s.window xs.length).first + (s.inside xs).length)

theorem read_eq (s : Slice) (v : Value) : s.read v = s.orient (s.inside v.items) := rfl

theorem length_inside (s : Slice) (xs : List Value) :
    (s.inside xs).length
      = min (s.window xs.length).count (xs.length - (s.window xs.length).first) := by
  simp [inside]

@[simp] theorem length_read (s : Slice) (v : Value) :
    (s.read v).length = (s.inside v.items).length := by
  rw [read_eq, length_orient]

/-- The window cuts an array in three. -/
theorem before_inside_after (s : Slice) (xs : List Value) :
    s.before xs ++ s.inside xs ++ s.after xs = xs := by
  have hrest : s.inside xs ++ s.after xs = xs.drop (s.window xs.length).first := by
    rw [after, ← List.drop_drop, inside]
    generalize xs.drop (s.window xs.length).first = ys
    generalize (s.window xs.length).count = n
    rw [List.length_take]
    by_cases h : n ≤ ys.length
    · rw [Nat.min_eq_left h, List.take_append_drop]
    · rw [Nat.min_eq_right (by omega), List.drop_length, List.append_nil,
        List.take_of_length_le (by omega)]
  rw [List.append_assoc, hrest, before, List.take_append_drop]

/-- As many values as a read gives all land in the window. -/
theorem landing_of_length (h : vs.length = (s.inside xs).length) :
    s.landing xs.length vs = s.orient vs := by
  have hlen := length_inside s xs
  cases hs : s.size with
  | none =>
    have hline : s.lineUp vs = s.orient vs := by simp only [lineUp, hs]
    simp only [landing, hline, hs, Option.isNone_none, if_true]
    simp [window, hs, List.take_of_length_le]
  | some n =>
    have hcount : (s.window xs.length).count ≤ n.natAbs := by simp [window, hs]
    have hline : s.lineUp vs = s.orient vs := by
      simp only [lineUp, hs]
      rw [List.take_of_length_le (by omega)]
    simp only [landing, hline, hs, length_orient, Option.isNone_some,
      Bool.false_eq_true, if_false]
    rw [show vs.length - (s.window xs.length).count = 0 by omega, Nat.min_zero, List.drop_zero,
      List.take_of_length_le (by rw [length_orient]; omega)]

/-- As many values as a read gives take the place of the window. -/
theorem writeItems_of_length (h : vs.length = (s.inside xs).length) :
    s.writeItems xs vs = s.before xs ++ s.orient vs ++ s.after xs := by
  have hlen := length_inside s xs
  simp only [writeItems, landing_of_length h]
  by_cases hnil : vs = []
  · subst hnil
    simp only [List.length_nil] at h
    simp [orient, before, after, ← h]
  · have hpos : 0 < vs.length := List.length_pos_iff.mpr hnil
    have hne : (s.orient vs).isEmpty = false := by
      rw [List.isEmpty_eq_false_iff, ← List.length_pos_iff, length_orient]; exact hpos
    rw [hne, Bool.false_or, if_neg (by simp; omega), splice, length_orient, h, before, after,
      show (s.window xs.length).first - xs.length = 0 by omega]
    simp

theorem length_writeItems_of_length (h : vs.length = (s.inside xs).length) :
    (s.writeItems xs vs).length = xs.length := by
  have hcut := congrArg List.length (before_inside_after s xs)
  rw [writeItems_of_length h]
  simp only [List.length_append, length_orient] at hcut ⊢
  omega

/-- As many values as a read gives, once written, stand in the window, between what was around
it. -/
theorem cut_writeItems (h : vs.length = (s.inside xs).length) :
    s.before (s.writeItems xs vs) = s.before xs ∧ s.inside (s.writeItems xs vs) = s.orient vs ∧
      s.after (s.writeItems xs vs) = s.after xs := by
  have hxs := writeItems_of_length h
  by_cases hnil : vs = []
  · subst hnil
    rw [List.length_nil, eq_comm, List.length_eq_zero_iff] at h
    have hcut := before_inside_after s xs
    have hsame : s.writeItems xs [] = xs := by
      rw [h, List.append_nil] at hcut
      rw [hxs, show s.orient [] = [] by simp [orient], List.append_nil, hcut]
    simp [hsame, h, orient]
  · have hpos : 0 < vs.length := List.length_pos_iff.mpr hnil
    have hlen := length_inside s xs
    have hwin := length_writeItems_of_length h
    have hbefore : (s.before xs).length = (s.window xs.length).first := by
      simp [before]; omega
    have hinside : s.inside (s.writeItems xs vs) = s.orient vs := by
      rw [inside, hwin, hxs, List.append_assoc, List.drop_left' hbefore]
      by_cases hfull : vs.length = (s.window xs.length).count
      · rw [List.take_left' (by rw [length_orient, hfull])]
      · rw [after, List.drop_of_length_le (l := xs) (by omega), List.append_nil,
          List.take_of_length_le (by rw [length_orient]; omega)]
    refine ⟨?_, hinside, ?_⟩
    · rw [before, hwin, hxs, List.append_assoc, List.take_left' hbefore]
    · rw [after, hinside, hwin, hxs, List.drop_left' (by simp [hbefore])]

/-- As many values as a read gives, written through a slice, read back. -/
theorem read_write (h : vs.length = (s.read v).length) :
    s.read (s.write v (array vs)) = vs := by
  rw [length_read] at h
  rw [read_eq, write, items_array, entries_array, (cut_writeItems h).2.1, orient_orient]

/-- The second of two writes through a slice of as many values as a read gives wins. -/
theorem write_write (hv : vs.length = (s.read v).length) (hw : ws.length = (s.read v).length) :
    s.write (s.write v (array vs)) (array ws) = s.write v (array ws) := by
  rw [length_read] at hv hw
  obtain ⟨hbefore, hinside, hafter⟩ := cut_writeItems hv
  have hw' : ws.length = (s.inside (s.writeItems v.items vs)).length := by
    rw [hinside, length_orient, hw, hv]
  simp only [write, items_array, entries_array]
  rw [writeItems_of_length hw', writeItems_of_length hw, hbefore, hafter]

/-- Writing what was read from an array changes nothing. -/
theorem write_read (s : Slice) (xs : List Value) :
    s.write (array xs) (array (s.read (array xs))) = array xs := by
  have h : (s.read (array xs)).length = (s.inside xs).length := length_read s _
  rw [write, items_array, entries_array, writeItems_of_length h, read_eq, orient_orient,
    items_array, before_inside_after]

end Slice

end Crosswalk
