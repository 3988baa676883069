import Crosswalk.Proofs.Path.Frame

/-!
# A field of selected rows

A slice pairs the values written through it with the elements that it reads, in its own direction,
and then puts the branches into its window. The two agree only for some numbers of values: a forward
slice drops values that would fall before the first element although they were paired, and a
backward one puts a last value that it was given to the front of the window, whichever element that
value was paired with. Otherwise rows move.

* `landing_of_open`, `landing_of_forward`, `landing_of_backward`: the values that land.
* `getElem?_writeItems`: the elements of an array after a write.
* `KeepsPlaces`: the numbers of values with which every branch lands where it was read.
* `KeepsPlaces.extract_inject`: with such a number, a write of one field leaves the others.
* `extract_inject_slice_iff`: with any other number, it does not for some array.
* `not_extract_inject_slice`: two values for three rows, from the last one on, move the rows.
-/

namespace Crosswalk

open Value

/-! ## Branches of a slice -/

/-- A branch is written into its current value, `undefined` beyond them. -/
theorem getElem?_pairUp (f : Value → Value → Value) (current branches : List Value) (i : Nat) :
    (pairUp f current branches)[i]?
      = branches[i]?.map fun y => f (current[i]?.getD undefined) y := by
  rw [pairUp, List.getElem?_zipWith]
  by_cases hi : i < branches.length
  · have hlen : i < (current ++ List.replicate (branches.length - current.length)
        undefined).length := by simp; omega
    rw [List.getElem?_eq_getElem hi, List.getElem?_eq_getElem hlen]
    by_cases hc : i < current.length
    · simp [List.getElem_append_left hc, List.getElem?_eq_getElem hc]
    · simp [List.getElem_append_right (Nat.le_of_not_lt hc),
        List.getElem?_eq_none (Nat.le_of_not_lt hc)]
  · rw [List.getElem?_eq_none (Nat.le_of_not_lt hi)]
    split <;> simp_all

theorem length_pairUp (f : Value → Value → Value) (current branches : List Value) :
    (pairUp f current branches).length = branches.length := by
  simp [pairUp]; omega

theorem take_pairUp (f : Value → Value → Value) (current branches : List Value) (i : Nat) :
    (pairUp f current branches).take i = pairUp f current (branches.take i) := by
  refine List.ext_getElem? fun j => ?_
  rw [List.getElem?_take, getElem?_pairUp, getElem?_pairUp, List.getElem?_take]
  split <;> rfl

namespace Slice

variable {s : Slice} {n m : Nat} {xs vs : List Value}

/-! ## Where values land -/

theorem count_add_overhang {k : Int} (hs : s.size = some k) :
    (s.window n).count + (s.window n).overhang = k.natAbs := by
  simp only [window, hs]
  omega

theorem landing_of_open (hs : s.size = none) : s.landing n vs = vs := by
  simp [landing, lineUp, orient, isBackward, window, hs]

theorem landing_of_forward {k : Int} (hs : s.size = some k) (hb : s.isBackward = false) :
    s.landing n vs
      = (vs.take k.natAbs).drop (min vs.length k.natAbs - (s.window n).count) := by
  have hspan := count_add_overhang (n := n) hs
  have hline : s.lineUp vs = vs.take k.natAbs := by simp [lineUp, orient, hb, hs]
  simp only [landing, hline, hs, Option.isNone_some, Bool.false_eq_true, if_false]
  rw [List.length_take, Nat.min_comm k.natAbs,
    show min (s.window n).overhang (min vs.length k.natAbs - (s.window n).count)
      = min vs.length k.natAbs - (s.window n).count by omega]
  refine List.take_of_length_le ?_
  rw [List.length_drop, List.length_take]
  omega

theorem landing_of_backward (hb : s.isBackward = true) :
    s.landing n vs = (vs.take (s.window n).count).reverse := by
  obtain ⟨k, hs⟩ : ∃ k, s.size = some k := by
    cases hs : s.size with
    | none => simp [isBackward, hs] at hb
    | some k => exact ⟨k, rfl⟩
  have hspan := count_add_overhang (n := n) hs
  have hline : s.lineUp vs = (vs.take k.natAbs).reverse := by simp [lineUp, orient, hb, hs]
  simp only [landing, hline, hs, Option.isNone_some, Bool.false_eq_true, if_false]
  rw [List.length_reverse, List.length_take, List.drop_reverse, List.length_take, List.take_take]
  rw [List.take_of_length_le (by rw [List.length_reverse, List.length_take]; omega)]
  refine congrArg List.reverse (List.take_eq_take_iff.mpr ?_)
  omega

/-- The number of elements of an array of a length that a slice reaches. -/
def reach (s : Slice) (n : Nat) : Nat := min (s.window n).count (n - (s.window n).first)

theorem length_inside_eq_reach (s : Slice) (xs : List Value) :
    (s.inside xs).length = s.reach xs.length := length_inside s xs

theorem count_of_open (hs : s.size = none) :
    (s.window n).count = n - (s.window n).first := by
  simp [window, hs]

/-- The elements in the window are those of the array from its first position on. -/
theorem getElem?_inside (s : Slice) (xs : List Value) (i : Nat) :
    (s.inside xs)[i]? = if i < (s.window xs.length).count
      then xs[(s.window xs.length).first + i]? else none := by
  rw [inside, List.getElem?_take, List.getElem?_drop]

/-- No more values land than fit into the window. A window without a size takes any number. -/
theorem length_landing_le (hs : s.size ≠ none) :
    (s.landing n vs).length ≤ (s.window n).count := by
  obtain ⟨k, hk⟩ := Option.ne_none_iff_exists'.mp hs
  simp only [landing, hk, Option.isNone_some, Bool.false_eq_true, if_false]
  exact List.length_take_le _ _

theorem length_landing_le_length : (s.landing n vs).length ≤ vs.length := by
  have hline : (s.lineUp vs).length ≤ vs.length := by
    rw [lineUp, length_orient]
    split
    · exact List.length_take_le' _ _
    · exact Nat.le_refl _
  rw [landing, List.length_take, List.length_drop]
  omega

/-- The elements of an array after others were put in their place. -/
theorem getElem?_splice {first j : Nat} {middle : List Value} (hj : j < xs.length) :
    (splice xs first middle)[j]? = if first ≤ j ∧ j < first + middle.length
      then middle[j - first]? else xs[j]? := by
  unfold splice
  by_cases hfirst : first ≤ j
  · have hnil : first - xs.length = 0 := by omega
    have hlen : (xs.take first).length = first := by rw [List.length_take]; omega
    rw [hnil, List.replicate_zero, List.append_nil, List.append_assoc,
      List.getElem?_append_right (by omega), hlen]
    by_cases hmid : j < first + middle.length
    · rw [if_pos ⟨hfirst, hmid⟩, List.getElem?_append_left (by omega)]
    · rw [if_neg (by omega), List.getElem?_append_right (by omega), List.getElem?_drop]
      congr 1
      omega
  · rw [if_neg (by omega), List.append_assoc, List.append_assoc,
      List.getElem?_append_left (by rw [List.length_take]; omega), List.getElem?_take,
      if_pos (by omega)]

/-- The elements of an array after a write: values landed from the first position of the window on,
and the others stayed. -/
theorem getElem?_writeItems {j : Nat} (hj : j < xs.length) :
    (s.writeItems xs vs)[j]? =
      if (s.window xs.length).first ≤ j ∧
        j < (s.window xs.length).first + (s.landing xs.length vs).length
      then (s.landing xs.length vs)[j - (s.window xs.length).first]? else xs[j]? := by
  unfold writeItems
  by_cases hleft : ((s.landing xs.length vs).isEmpty
      || decide (xs.length + maxPadding < (s.window xs.length).first)) = true
  · rw [if_pos hleft, if_neg]
    rintro ⟨hfirst, hlast⟩
    rcases Bool.or_eq_true_iff.mp hleft with hnil | hfar
    · rw [List.isEmpty_iff.mp hnil] at hlast
      simp only [List.length_nil] at hlast
      omega
    · have := of_decide_eq_true hfar
      omega
  · rw [if_neg hleft, getElem?_splice hj]

/-! ## Branches that stay in their places -/

/-- The numbers of values that a slice brings to the places of the elements with which it pairs
them, in an array of a length: any number if it reads no element; forward, any number unless the
window begins before the first element, and then no more than places are left in it; backward, one
for each element that it reads, or more where the window has no place for them. -/
def KeepsPlaces (s : Slice) (n m : Nat) : Prop :=
  s.reach n = 0 ∨ m = 0 ∨
    if s.isBackward then min m (s.window n).count = s.reach n
    else (s.window n).overhang = 0 ∨ m ≤ (s.window n).count

instance : Decidable (s.KeepsPlaces n m) := by
  unfold KeepsPlaces
  infer_instance

/-- A slice that is given a value for each element that it reads keeps the places. -/
theorem keepsPlaces_reach (s : Slice) (n : Nat) : s.KeepsPlaces n (s.reach n) := by
  have hle : s.reach n ≤ (s.window n).count := Nat.min_le_left _ _
  refine .inr (.inr ?_)
  split
  · exact Nat.min_eq_left hle
  · exact .inr hle

variable {f : Value → Value → Value} {ws : List Value}

/-- If the values keep their places, the branches land in the order of the elements in the
window. -/
theorem landing_pairUp (h : s.KeepsPlaces xs.length ws.length) (hreach : s.reach xs.length ≠ 0)
    (hws : ws ≠ []) : ∃ ys, s.landing xs.length (pairUp f (s.read (array xs)) ws)
      = pairUp f (s.inside xs) ys := by
  have hm : ws.length ≠ 0 := by simpa using hws
  have hkeep := (h.resolve_left hreach).resolve_left hm
  have hinside := length_inside_eq_reach s xs
  have hle : s.reach xs.length ≤ (s.window xs.length).count := Nat.min_le_left _ _
  rw [read_eq, items_array]
  cases hb : s.isBackward with
  | true =>
    rw [if_pos hb] at hkeep
    refine ⟨(ws.take (s.window xs.length).count).reverse, ?_⟩
    have hlen : (s.inside xs).length = (ws.take (s.window xs.length).count).length := by
      rw [List.length_take]; omega
    rw [landing_of_backward hb, take_pairUp, orient, if_pos hb,
      pairUp_of_length (by rw [List.length_reverse, hlen]), pairUp_of_length (by simpa using hlen),
      List.reverse_zipWith (by rw [List.length_reverse, hlen]), List.reverse_reverse]
  | false =>
    rw [hb, if_neg (by simp)] at hkeep
    rw [orient, hb, if_neg (by simp)]
    cases hs : s.size with
    | none => exact ⟨ws, landing_of_open hs⟩
    | some k =>
      have hspan := count_add_overhang (n := xs.length) hs
      refine ⟨ws.take k.natAbs, ?_⟩
      rw [landing_of_forward hs hb, length_pairUp, take_pairUp,
        show min ws.length k.natAbs - (s.window xs.length).count = 0 by omega, List.drop_zero]

/-- If the values keep their places, every element of the array stays as it is or has been written
with one of them. -/
theorem KeepsPlaces.getElem?_writeItems (h : s.KeepsPlaces xs.length ws.length) {j : Nat}
    (hj : j < xs.length) :
    (s.writeItems xs (pairUp f (s.read (array xs)) ws))[j]? = some xs[j] ∨
      ∃ y, (s.writeItems xs (pairUp f (s.read (array xs)) ws))[j]? = some (f xs[j] y) := by
  rw [Slice.getElem?_writeItems hj, ← List.getElem?_eq_getElem hj]
  split
  · next hin =>
    obtain ⟨hfirst, hlast⟩ := hin
    generalize hk : j - (s.window xs.length).first = k
    have hj' : (s.window xs.length).first + k = j := by omega
    have hcount : k < (s.window xs.length).count := by
      by_cases hs : s.size = none
      · rw [count_of_open hs]
        omega
      · have hle : (s.landing xs.length (pairUp f (s.read (array xs)) ws)).length
            ≤ (s.window xs.length).count := length_landing_le hs
        omega
    have hreach : s.reach xs.length ≠ 0 := by
      rw [reach]; omega
    have hws : ws ≠ [] := by
      rintro rfl
      have hle : (s.landing xs.length (pairUp f (s.read (array xs)) [])).length
          ≤ (pairUp f (s.read (array xs)) []).length := length_landing_le_length
      rw [length_pairUp, List.length_nil] at hle
      omega
    obtain ⟨ys, hland⟩ := landing_pairUp (f := f) h hreach hws
    rw [hland, length_pairUp] at hlast
    right
    rw [hland, getElem?_pairUp, getElem?_inside, if_pos hcount, hj',
      List.getElem?_eq_getElem hj, List.getElem?_eq_getElem (show k < ys.length by omega)]
    exact ⟨_, rfl⟩
  · exact .inl rfl

/-- At an index from the front, a path goes on from the element. -/
theorem extract_index_natCast (j : Nat) (q : List Segment) (v : Value) :
    extract (.index j :: q) v = extract q (v.items[j]?.getD undefined) := by
  simp [extract, readIndex, position?]

/-- If the values keep their places, a field written through a slice leaves what the other fields of
every element lead to. -/
theorem KeepsPlaces.extract_inject {w : Value} {a b : String} {p q : List Segment} {j : Nat}
    (h : s.KeepsPlaces xs.length w.entries.length) (hne : a ≠ b) (hj : j < xs.length) :
    extract (.index j :: .field b :: q) (inject (.slice s :: .field a :: p) (array xs) w)
      = extract (.index j :: .field b :: q) (array xs) := by
  by_cases hw : w = undefined
  · rw [hw, inject_undefined]
  have hfork : Fork (.field a :: p) (.field b :: q) := .field hne
  rw [inject_slice hw, extract_index_natCast, extract_index_natCast, write, items_array,
    items_array, entries_array]
  rcases h.getElem?_writeItems (f := inject (.field a :: p)) hj with hsame | ⟨y, hwritten⟩
  · rw [hsame, List.getElem?_eq_getElem hj]
  · rw [hwritten, List.getElem?_eq_getElem hj, Option.getD_some, Option.getD_some,
      hfork.extract_inject]

/-! ## Branches that do not -/

/-- An array with a note at one position and nothing at the others. -/
def noted (first n : Nat) : List Value :=
  List.replicate first undefined ++ map [("b", null)] :: List.replicate (n - first - 1) undefined

theorem length_noted {first : Nat} (h : first < n) : (noted first n).length = n := by
  simp [noted]; omega

theorem getElem?_noted_self (first n : Nat) :
    (noted first n)[first]? = some (map [("b", null)]) := by
  simp [noted]

theorem getElem?_noted_of_ne {first j : Nat} (hj : j ≠ first) :
    (noted first n)[j]?.getD undefined = undefined := by
  unfold noted
  rw [List.getElem?_append]
  split
  · next h => simp at h; simp [h]
  · next h =>
    rw [List.getElem?_cons]
    split
    · next h0 => simp at h h0; omega
    · simp [List.getElem?_replicate]; split <;> rfl

/-- If the values do not keep their places, the first position in the window gets a branch that was
not there. -/
theorem getElem?_landing_zero (h : ¬ s.KeepsPlaces xs.length ws.length) :
    ∃ i y, (s.landing xs.length (pairUp f (s.read (array xs)) ws))[0]?
      = some (f ((s.inside xs)[i]?.getD undefined) y) ∧ i ≠ 0 := by
  unfold KeepsPlaces at h
  simp only [not_or] at h
  obtain ⟨hreach, hm, hmove⟩ := h
  have hinside := length_inside_eq_reach s xs
  have hle : s.reach xs.length ≤ (s.window xs.length).count := Nat.min_le_left _ _
  rw [read_eq, items_array]
  cases hb : s.isBackward with
  | true =>
    -- the last value that fits lands in front, but it was paired with another element or with none
    rw [if_pos hb] at hmove
    generalize hlast : min ws.length (s.window xs.length).count - 1 = last
    have hlt : last < ws.length := by omega
    have hR : ((pairUp f (s.inside xs).reverse ws).take (s.window xs.length).count).reverse[0]?
        = some (f ((s.inside xs).reverse[last]?.getD undefined) ws[last]) := by
      rw [List.getElem?_reverse (by rw [List.length_take, length_pairUp]; omega), List.length_take,
        length_pairUp, List.getElem?_take, if_pos (by omega), getElem?_pairUp, Nat.min_comm,
        Nat.sub_zero, hlast, List.getElem?_eq_getElem hlt]
      rfl
    rw [landing_of_backward hb, orient, if_pos hb, hR]
    by_cases hin : last < (s.inside xs).length
    · rw [List.getElem?_reverse hin]
      exact ⟨_, _, rfl, by omega⟩
    · rw [List.getElem?_eq_none (by simpa using hin)]
      exact ⟨(s.inside xs).length, _, by rw [List.getElem?_length], by omega⟩
  | false =>
    rw [hb, if_neg (by simp)] at hmove
    rw [orient, hb, if_neg (by simp)]
    cases hs : s.size with
    | none => exact absurd (.inl (by simp [window, hs])) hmove
    | some k =>
      -- values are dropped in front, so that a later one lands there
      have hspan := count_add_overhang (n := xs.length) hs
      generalize hfirst : min ws.length k.natAbs - (s.window xs.length).count = first
      have hlt : first < ws.length := by omega
      rw [landing_of_forward hs hb, length_pairUp, hfirst, List.getElem?_drop, Nat.add_zero,
        List.getElem?_take, if_pos (by omega), getElem?_pairUp, List.getElem?_eq_getElem hlt]
      exact ⟨_, _, rfl, by omega⟩

/-- Whatever number of values does not keep its places, there are an array and values with which a
field written through the slice changes another field. -/
theorem exists_lost_of_not_keepsPlaces (h : ¬ s.KeepsPlaces n m) :
    ∃ (xs : List Value) (w : Value) (j : Nat), xs.length = n ∧ w.entries.length = m ∧ j < n ∧
      extract [.index j, .field "b"] (inject [.slice s, .field "a"] (array xs) w)
        ≠ extract [.index j, .field "b"] (array xs) := by
  have hreach : s.reach n ≠ 0 := fun h0 => h (.inl h0)
  generalize hfirst : (s.window n).first = first
  have hlt : first < n := by rw [reach] at hreach; omega
  have hlen : (noted first n).length = n := length_noted hlt
  refine ⟨noted first n, array (List.replicate m null), first, hlen, by simp, hlt, ?_⟩
  have hlen' : (List.replicate m null).length = m := List.length_replicate
  obtain ⟨i, y, hland, hi⟩ := getElem?_landing_zero (f := inject [.field "a"])
    (show ¬ s.KeepsPlaces (noted first n).length (List.replicate m null).length by
      rwa [hlen, hlen'])
  have hother : ((s.inside (noted first n))[i]?).getD undefined = undefined := by
    rw [getElem?_inside, hlen, hfirst]
    split
    · exact getElem?_noted_of_ne (by omega)
    · rfl
  have hfork : Fork [.field "a"] [.field "b"] := .field (by decide)
  rw [hlen] at hland
  obtain ⟨hpos, -⟩ := List.getElem?_eq_some_iff.mp hland
  rw [inject_slice (by simp), extract_index_natCast, extract_index_natCast, write, items_array,
    items_array, entries_array, entries_array, getElem?_noted_self, getElem?_writeItems (by omega),
    hlen, hfirst, if_pos ⟨Nat.le_refl _, by omega⟩, Nat.sub_self, hland, hother, Option.getD_some,
    hfork.extract_inject, Option.getD_some, extract_field_of_leaf rfl, extract_field_of_leaf rfl]
  simp [extract, member, members, Members.get?_cons]

/-- A field written through a slice leaves the other fields of every element, in all arrays of a
length and for all series of so many values, exactly if that many values keep their places. -/
theorem extract_inject_slice_iff (s : Slice) (n m : Nat) :
    (∀ (xs : List Value) (w : Value) (a b : String) (p q : List Segment) (j : Nat),
      xs.length = n → w.entries.length = m → a ≠ b → j < n →
        extract (.index j :: .field b :: q) (inject (.slice s :: .field a :: p) (array xs) w)
          = extract (.index j :: .field b :: q) (array xs)) ↔ s.KeepsPlaces n m := by
  constructor
  · intro hall
    by_contra h
    obtain ⟨xs, w, j, hxs, hw, hj, hlost⟩ := exists_lost_of_not_keepsPlaces h
    exact hlost (hall xs w "a" "b" [] [] j hxs hw (by decide) hj)
  · rintro h xs w a b p q j rfl rfl hne hj
    exact h.extract_inject hne hj

/-- Two values for three rows do not keep their places from the last one on, three values do. -/
example : ¬ KeepsPlaces ⟨0, some (-3)⟩ 3 2 ∧ KeepsPlaces ⟨0, some (-3)⟩ 3 3 := by decide

/-- A row with an amount. -/
def amountRow (k : Int64) : Value := map [("k", int k), ("a", int 7)]

/-- An amount that is there already is written. -/
theorem inject_amountRow (k : Int64) : inject [.field "a"] (amountRow k) (int 7) = amountRow k := by
  rw [inject_field_of_leaf rfl (by simp), inject]
  rfl

theorem extract_amountRow (k : Int64) : extract [.field "k"] (amountRow k) = int k := by
  rw [extract_field_of_leaf rfl, extract]
  rfl

/-- Two amounts, written from the last of three rows on, move two rows to the front. -/
theorem inject_amountRows :
    inject [.slice ⟨0, some (-3)⟩, .field "a"] (array [amountRow 0, amountRow 1, amountRow 2])
        (array [int 7, int 7])
      = array [amountRow 1, amountRow 2, amountRow 2] := by
  have hread : Slice.read ⟨0, some (-3)⟩ (array [amountRow 0, amountRow 1, amountRow 2])
      = [amountRow 2, amountRow 1, amountRow 0] := rfl
  have hpairs : pairUp (inject [.field "a"]) [amountRow 2, amountRow 1, amountRow 0] [int 7, int 7]
      = [amountRow 2, amountRow 1] := by
    simp [pairUp, inject_amountRow]
  rw [inject_slice (by simp), hread, entries_array, hpairs]
  rfl

/-- A field written through a slice does not leave the other fields of every element, whatever
number of values is written: the first row loses its own. -/
theorem not_extract_inject_slice :
    ¬ ∀ (xs : List Value) (s : Slice) (w : Value) (a b : String) (p q : List Segment) (j : Nat),
      a ≠ b → j < xs.length →
        extract (.index j :: .field b :: q) (inject (.slice s :: .field a :: p) (array xs) w)
          = extract (.index j :: .field b :: q) (array xs) := by
  intro hall
  have hsame := hall [amountRow 0, amountRow 1, amountRow 2] ⟨0, some (-3)⟩ (array [int 7, int 7])
    "a" "k" [] [] 0 (by decide) (by decide)
  rw [inject_amountRows, extract_index_natCast, extract_index_natCast, items_array, items_array,
    List.getElem?_cons_zero, List.getElem?_cons_zero, Option.getD_some, Option.getD_some,
    extract_amountRow, extract_amountRow] at hsame
  exact absurd (int.inj hsame) (by decide)

end Slice

end Crosswalk
