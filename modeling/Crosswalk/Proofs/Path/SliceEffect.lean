import Crosswalk.Proofs.Path.SliceWords
import Mathlib.Data.List.DropRight

/-!
# Effect of a slice write

What a write through a slice leaves, said without its window. The values are cut to the width of the
slice and turned around if it goes backward; those that would stand before the first element are cut
off in front, and the rest is put over the array, behind a filling of `null` if it begins past the
end. Reads and writes address the same positions, so either one undoes the other as far as the array
reaches.

* `placed`: the values that are put in place, and `landing_eq_placed`: they are those that land.
* `write_effect`: the array after a write, its length and the positions that stay, computed in
  machine words.
* `inside_writeItems`: values that fill the window stand in it after the write.
* `inverse_on_window`: writing what was read changes nothing, and reading what was written gives it
  back, without the values before the first element.
-/

namespace Crosswalk

open Value

namespace Slice

variable {s : Slice} {n : Nat} {xs vs : List Value} {k : Int}

/-! ## Values in place -/

/-- How many of the positions that a slice with a size addresses are not before the first
element. -/
def reserve (s : Slice) (n : Nat) (k : Int) : Nat :=
  k.natAbs - min k.natAbs (-(s.origin n)).toNat

/-- The values that a write puts in place: all of them without a size; with one, as many as the
slice is wide, in the order of the array, and of these the last ones that have a position. -/
def placed (s : Slice) (n : Nat) (vs : List Value) : List Value :=
  match s.size with
  | none => vs
  | some k =>
    let lined := if k < 0 then (vs.take k.natAbs).reverse else vs.take k.natAbs
    lined.rtake (s.reserve n k)

theorem isBackward_eq (hs : s.size = some k) : s.isBackward = decide (k < 0) := by
  simp only [isBackward, hs]

theorem count_eq_reserve (hs : s.size = some k) : (s.window n).count = s.reserve n k := by
  simp only [window, hs, reserve]
  omega

/-- The values that a write puts in place are those that land in the window. -/
theorem landing_eq_placed (s : Slice) (n : Nat) (vs : List Value) :
    s.landing n vs = s.placed n vs := by
  cases hs : s.size with
  | none => rw [landing_of_open hs, placed, hs]
  | some k =>
    by_cases hk : k < 0
    · have hle : s.reserve n k ≤ k.natAbs := Nat.sub_le _ _
      rw [landing_of_backward (by rw [isBackward_eq hs, decide_eq_true hk]), count_eq_reserve hs]
      simp only [placed, hs, if_pos hk]
      rw [List.rtake_eq_reverse_take_reverse, List.reverse_reverse, List.take_take,
        Nat.min_eq_left hle]
    · rw [landing_of_forward hs (by rw [isBackward_eq hs, decide_eq_false hk]),
        count_eq_reserve hs]
      simp only [placed, hs, if_neg hk]
      rw [List.rtake, List.length_take, Nat.min_comm]

/-! ## The array after a write -/

/-- A write puts the values in place over the array, unless there are none or they begin too far
past the end. -/
theorem writeItems_eq (s : Slice) (xs vs : List Value) :
    s.writeItems xs vs =
      if s.placed xs.length vs = [] ∨ xs.length + maxPadding < (s.origin xs.length).toNat then xs
      else splice xs (s.origin xs.length).toNat (s.placed xs.length vs) := by
  simp only [writeItems, landing_eq_placed, first_eq, Bool.or_eq_true, List.isEmpty_iff,
    decide_eq_true_eq]

theorem length_splice (xs : List Value) (first : Nat) (middle : List Value) :
    (splice xs first middle).length = max xs.length (first + middle.length) := by
  simp only [splice, List.length_append, List.length_take, List.length_replicate, List.length_drop]
  omega

theorem length_writeItems (s : Slice) (xs vs : List Value) :
    (s.writeItems xs vs).length =
      if s.placed xs.length vs = [] ∨ xs.length + maxPadding < (s.origin xs.length).toNat
      then xs.length
      else max xs.length ((s.origin xs.length).toNat + (s.placed xs.length vs).length) := by
  rw [writeItems_eq]
  split
  · rfl
  · exact length_splice xs _ _

/-- A write leaves the positions before and behind the values in place. -/
theorem getElem?_writeItems_of_outside {p : Nat} (hp : p < xs.length)
    (hout : p < (s.origin xs.length).toNat ∨
      (s.origin xs.length).toNat + (s.placed xs.length vs).length ≤ p) :
    (s.writeItems xs vs)[p]? = xs[p]? := by
  rw [getElem?_writeItems hp, landing_eq_placed, first_eq, if_neg (by omega)]

/-- The array after a write through a slice. It is as it was if no value is in place or they begin
too far past the end; otherwise the values stand from their first position on, behind a filling of
`null` if there is a gap. The array becomes longer only if the values end behind it, and the
positions before and behind them stay. No step leaves the machine words or goes beyond the array. -/
theorem write_effect (s : Slice) (v value : Value) :
    let xs := v.items
    let first := (s.origin xs.length).toNat
    let values := s.placed xs.length value.entries
    s.write v value = array
      (if values = [] ∨ xs.length + maxPadding < first then xs
        else xs.take first ++ List.replicate (first - xs.length) null ++ values
          ++ xs.drop (first + values.length)) ∧
    (s.write v value).items.length =
      (if values = [] ∨ xs.length + maxPadding < first then xs.length
        else max xs.length (first + values.length)) ∧
    (∀ p < xs.length, p < first ∨ first + values.length ≤ p →
      (s.write v value).items[p]? = xs[p]?) ∧
    (s.InWords → xs.length ≤ maxWord → value.entries.length ≤ maxWord →
      s.writeInWords v value = some (s.write v value)) :=
  ⟨congrArg array (writeItems_eq s v.items value.entries),
    length_writeItems s v.items value.entries,
    fun _ hp hout => getElem?_writeItems_of_outside hp hout,
    writeInWords_eq⟩

/-- Three positions, of which the first is before the first element of three rows, backward. -/
def overhanging : Slice := ⟨-4, some (-3)⟩

def threeRows : List Value := [int 10, int 20, int 30]

def threeValues : List Value := [int 1, int 2, int 3]

theorem write_effect_overhanging :
    (2 < threeRows.length ∧ (overhanging.origin threeRows.length).toNat
        + (overhanging.placed threeRows.length threeValues).length ≤ 2) ∧
      (overhanging.InWords ∧ threeRows.length ≤ maxWord ∧ threeValues.length ≤ maxWord) ∧
      overhanging.write (array threeRows) (array threeValues) = array [int 2, int 1, int 30] ∧
      (overhanging.write (array threeRows) (array threeValues)).items[2]? = some (int 30) ∧
      overhanging.writeInWords (array threeRows) (array threeValues)
        = some (array [int 2, int 1, int 30]) := by
  obtain ⟨hwrite, -, hstay, hinWords⟩ :=
    write_effect overhanging (array threeRows) (array threeValues)
  have hp : 2 < threeRows.length := by decide
  have hbehind : (overhanging.origin threeRows.length).toNat
      + (overhanging.placed threeRows.length threeValues).length ≤ 2 := by decide
  have hwords : overhanging.InWords := inWords_mk (by decide) (by decide)
  have hrows : threeRows.length ≤ maxWord := by decide
  have hvalues : threeValues.length ≤ maxWord := by decide
  have hresult := hwrite.trans (show _ = array [int 2, int 1, int 30] from rfl)
  exact ⟨⟨hp, hbehind⟩, ⟨hwords, hrows, hvalues⟩, hresult, (hstay 2 hp (.inr hbehind)).trans rfl,
    (hinWords hwords hrows hvalues).trans (congrArg some hresult)⟩

/-! ## Reads and writes undo each other -/

/-- Values for every position of a slice leave as many in place as there are positions that are not
before the first element. -/
theorem length_placed_of_width (hs : s.size = some k) (hvs : vs.length = k.natAbs) :
    (s.placed n vs).length = s.reserve n k := by
  have hlined : (if k < 0 then (vs.take k.natAbs).reverse else vs.take k.natAbs).length
      = k.natAbs := by
    split <;> simp [hvs]
  have hle : s.reserve n k ≤ k.natAbs := Nat.sub_le _ _
  simp only [placed, hs]
  rw [List.rtake, List.length_drop, hlined]
  omega

/-- In the direction of the slice, the values in place are the last ones of a forward slice and the
first ones of a backward one. -/
theorem orient_placed_of_width (hs : s.size = some k) (hvs : vs.length = k.natAbs) :
    s.orient (s.placed n vs)
      = if k < 0 then vs.take (s.reserve n k) else vs.rtake (s.reserve n k) := by
  simp only [placed, hs, orient, isBackward_eq hs, List.take_of_length_le (Nat.le_of_eq hvs),
    decide_eq_true_eq]
  split
  · rw [List.rtake_eq_reverse_take_reverse, List.reverse_reverse, List.reverse_reverse]
  · rfl

/-- A slice begins at the same position of a longer array, if it is counted from the front. -/
theorem origin_of_nonneg (h : 0 ≤ s.start) (m n : Nat) : s.origin m = s.origin n := by
  rw [origin, origin, if_neg (by omega), if_neg (by omega)]

/-- Values that fill the window stand in the window of the array after the write, if it begins
within reach and is counted from the front or does not go beyond the array. -/
theorem inside_writeItems (hs : s.size = some k)
    (hreach : s.origin xs.length ≤ xs.length + maxPadding)
    (hroom : 0 ≤ s.start ∨ s.origin xs.length + k.natAbs ≤ xs.length)
    (hfull : (s.placed xs.length vs).length = s.reserve xs.length k) :
    s.inside (s.writeItems xs vs) = s.placed xs.length vs := by
  by_cases hnil : s.placed xs.length vs = []
  · have hcount : (s.window xs.length).count = 0 := by
      rw [count_eq_reserve hs, ← hfull, hnil]
      rfl
    rw [writeItems_eq, if_pos (.inl hnil), inside, hcount, hnil, List.take_zero]
  · have hnear : ¬ (s.placed xs.length vs = [] ∨
        xs.length + maxPadding < (s.origin xs.length).toNat) := by
      rintro (h | h)
      · exact hnil h
      · omega
    have horigin : s.origin (s.writeItems xs vs).length = s.origin xs.length := by
      rcases hroom with hfront | hinside
      · exact origin_of_nonneg hfront _ _
      · -- the values end within the array, so it does not become longer
        rw [length_writeItems, if_neg hnear, hfull, reserve]
        congr 1
        omega
    have hreserve : s.reserve (s.writeItems xs vs).length k = s.reserve xs.length k := by
      rw [reserve, reserve, horigin]
    have hfront : (xs.take (s.origin xs.length).toNat
        ++ List.replicate ((s.origin xs.length).toNat - xs.length) null).length
        = (s.origin xs.length).toNat := by
      rw [List.length_append, List.length_take, List.length_replicate]
      omega
    rw [inside, first_eq, count_eq_reserve hs, horigin, hreserve, ← hfull, writeItems_eq,
      if_neg hnear, splice, List.append_assoc, List.drop_left' hfront, List.take_left' rfl]

/-- Reading and writing through a slice are inverse. Writing what was read from an array changes
nothing. Values for all positions of a slice read back after they were written, without those before
the first element, if the slice begins within reach and is counted from the front or does not go
beyond the array. -/
theorem inverse_on_window (s : Slice) (xs : List Value) :
    s.write (array xs) (array (s.read (array xs))) = array xs ∧
    ∀ (k : Int) (vs : List Value), s.size = some k → vs.length = k.natAbs →
      s.origin xs.length ≤ xs.length + maxPadding →
      (0 ≤ s.start ∨ s.origin xs.length + k.natAbs ≤ xs.length) →
      s.read (s.write (array xs) (array vs))
        = if k < 0 then vs.take (s.reserve xs.length k) else vs.rtake (s.reserve xs.length k) := by
  refine ⟨write_read s xs, fun k vs hs hvs hreach hroom => ?_⟩
  rw [read_eq, write, items_array, items_array, entries_array,
    inside_writeItems hs hreach hroom (length_placed_of_width hs hvs),
    orient_placed_of_width hs hvs]

theorem inverse_on_window_overhanging :
    overhanging.size = some (-3) ∧ threeValues.length = (-3 : Int).natAbs ∧
      overhanging.origin threeRows.length ≤ threeRows.length + maxPadding ∧
      overhanging.origin threeRows.length + (-3 : Int).natAbs ≤ threeRows.length ∧
      overhanging.read (overhanging.write (array threeRows) (array threeValues))
        = [int 1, int 2] := by
  have hsize : overhanging.size = some (-3) := rfl
  have hwidth : threeValues.length = (-3 : Int).natAbs := rfl
  have hreach : overhanging.origin threeRows.length ≤ threeRows.length + maxPadding := by decide
  have hroom : overhanging.origin threeRows.length + (-3 : Int).natAbs ≤ threeRows.length := by
    decide
  have hread := (inverse_on_window overhanging threeRows).2 (-3) threeValues hsize hwidth hreach
    (.inr hroom)
  exact ⟨hsize, hwidth, hreach, hroom, hread.trans rfl⟩

end Slice

end Crosswalk
