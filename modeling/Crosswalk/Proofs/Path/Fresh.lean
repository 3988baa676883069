import Crosswalk.Proofs.Path.Places
import Crosswalk.Proofs.Path.SliceFrame

/-!
# Writing where nothing was

A value that is written through a path where there was nothing reads back, if it has the shape that
the path can hold: an array wherever a slice stands, with no more entries than the slice is wide.
Containers are made on the way, and indices and slices behind the end of an empty array fill it up
with `null`. A later read finds the entries behind the filling, because a slice from the front has
its window at the same place in the longer array.

* `Segment.FromFront`: the segments that an empty array can be written through.
* `Fits`: the values that a path can hold.
* `Slice.read_write_of_past_end`: values written behind the end of an array read back.
* `extract_inject_fresh`: the law for `undefined` and the empty map.
-/

namespace Crosswalk

open Value

/-! ## Slices behind the end of an array -/

namespace Slice

variable {s : Slice} {n : Nat} {v : Value} {xs vs : List Value}

/-- A number of values that is not more than the slice is wide. A slice without a size has room for
any number. -/
def HasRoom (s : Slice) (m : Nat) : Prop := ∀ k, s.size = some k → m ≤ k.natAbs

theorem first_of_nonneg (h : 0 ≤ s.start) (n : Nat) : (s.window n).first = s.start.toNat := by
  have horigin : s.origin n = s.start := by rw [origin, if_neg (by omega)]
  cases hs : s.size <;> simp [window, horigin, hs]

theorem overhang_of_nonneg (h : 0 ≤ s.start) (n : Nat) : (s.window n).overhang = 0 := by
  have horigin : s.origin n = s.start := by rw [origin, if_neg (by omega)]
  cases hs : s.size with
  | none => simp [window, hs]
  | some k =>
    simp only [window, hs, horigin]
    omega

/-- A window from the front has places for all values that a slice has room for, once an array is
long enough to hold them. -/
theorem HasRoom.le_count {m : Nat} (h : s.HasRoom m) (h0 : 0 ≤ s.start)
    (hn : s.start.toNat + m ≤ n) : m ≤ (s.window n).count := by
  cases hs : s.size with
  | none =>
    rw [count_of_open hs, first_of_nonneg h0]
    omega
  | some k =>
    have hspan := count_add_overhang (n := n) hs
    rw [overhang_of_nonneg h0] at hspan
    have := h k hs
    omega

/-- All values that a slice from the front has room for land. -/
theorem landing_of_nonneg (h0 : 0 ≤ s.start) (hroom : s.HasRoom vs.length) :
    s.landing n vs = s.orient vs := by
  have hline : s.lineUp vs = s.orient vs := by
    cases hs : s.size with
    | none => simp only [lineUp, hs]
    | some k => simp only [lineUp, hs, List.take_of_length_le (hroom k hs)]
  simp only [landing, hline, overhang_of_nonneg h0, Nat.zero_min, List.drop_zero, length_orient]
  refine List.take_of_length_le ?_
  rw [length_orient]
  cases hs : s.size with
  | none => simp
  | some k =>
    have hspan := count_add_overhang (n := n) hs
    rw [overhang_of_nonneg h0] at hspan
    have := hroom k hs
    simp only [Option.isNone_some, Bool.false_eq_true, if_false]
    omega

/-- Values written behind the end of an array follow the filling. -/
theorem writeItems_of_past_end (hpast : xs.length ≤ s.start)
    (hreach : s.start ≤ xs.length + maxPadding) (hroom : s.HasRoom vs.length) (hvs : vs ≠ []) :
    s.writeItems xs vs
      = xs ++ List.replicate (s.start.toNat - xs.length) null ++ s.orient vs := by
  have h0 : 0 ≤ s.start := by omega
  have hpos : 0 < vs.length := List.length_pos_iff.mpr hvs
  have hne : (s.orient vs).isEmpty = false := by
    rw [List.isEmpty_eq_false_iff, ← List.length_pos_iff, length_orient]
    exact hpos
  simp only [writeItems, landing_of_nonneg h0 hroom, first_of_nonneg h0, hne, Bool.false_or]
  rw [if_neg (by simp; omega), splice, List.take_of_length_le (by omega),
    List.drop_of_length_le (by omega), List.append_nil]

/-- Values written behind the end of an array, within reach, read back. -/
theorem read_write_of_past_end (hpast : v.items.length ≤ s.start)
    (hreach : s.start ≤ v.items.length + maxPadding) (hroom : s.HasRoom vs.length) :
    s.read (s.write v (array vs)) = vs := by
  have h0 : 0 ≤ s.start := by omega
  rw [read_eq, write, items_array, entries_array]
  by_cases hvs : vs = []
  · rw [hvs] at hroom
    have hsame : s.writeItems v.items [] = v.items := by
      simp [writeItems, landing_of_nonneg h0 hroom, orient]
    have hnone : s.inside v.items = [] := by
      rw [← List.length_eq_zero_iff, length_inside, first_of_nonneg h0]
      omega
    rw [hvs, hsame, hnone]
    simp [orient]
  · have hitems := writeItems_of_past_end hpast hreach hroom hvs
    have hfront : (v.items ++ List.replicate (s.start.toNat - v.items.length) null).length
        = s.start.toNat := by
      rw [List.length_append, List.length_replicate]
      omega
    have hlen : (s.writeItems v.items vs).length = s.start.toNat + vs.length := by
      rw [hitems, List.length_append, hfront, length_orient]
    have hcount := hroom.le_count h0 (Nat.le_of_eq hlen.symm)
    rw [inside, first_of_nonneg h0, hitems, List.drop_left' hfront, ← hitems,
      List.take_of_length_le (by rw [length_orient]; exact hcount), orient_orient]

end Slice

/-! ## Values that a path can hold -/

/-- A field, or an index or a slice that begins where a write to an empty array can begin. -/
def Segment.FromFront : Segment → Prop
  | .field _ => True
  | .index i => 0 ≤ i ∧ i ≤ maxPadding
  | .slice s => 0 ≤ s.start ∧ s.start ≤ maxPadding

/-- A value that a path can hold: anything defined at the end of the path, and an array of such
values at a slice, as many as the slice has room for. -/
def Fits : List Segment → Value → Prop
  | [], w => w ≠ undefined
  | .field _ :: rest, w => Fits rest w
  | .index _ :: rest, w => Fits rest w
  | .slice s :: rest, w => ∃ ws, w = array ws ∧ s.HasRoom ws.length ∧ ∀ x ∈ ws, Fits rest x

theorem Fits.ne_undefined {p : List Segment} {w : Value} (h : Fits p w) : w ≠ undefined := by
  induction p with
  | nil => exact h
  | cons s rest ih =>
    cases s with
    | field name => exact ih h
    | index i => exact ih h
    | slice s => obtain ⟨ws, rfl, -⟩ := h; simp

/-- Where there are no branches yet, each one begins with nothing. -/
theorem pairUp_nil (f : Value → Value → Value) (ws : List Value) :
    pairUp f [] ws = ws.map (f undefined) := by
  rw [pairUp, List.nil_append, List.length_nil, Nat.sub_zero]
  induction ws with
  | nil => rfl
  | cons w ws ih =>
    rw [List.length_cons, List.replicate_succ, List.zipWith_cons_cons, List.map_cons, ih]

/-- A value that a path can hold reads back after it is written into a value that has neither
elements nor members. -/
theorem extract_inject_of_fits {p : List Segment} {v w : Value} (hp : ∀ s ∈ p, s.FromFront)
    (harray : v.isArray = false) (hmembers : v.members = []) (hw : Fits p w) :
    extract p (inject p v w) = w := by
  have hitems : v.items = [] := by cases v <;> simp_all [isArray, items]
  induction p generalizing v w with
  | nil => simp [extract, inject, show w ≠ undefined from hw]
  | cons s rest ih =>
    -- nothing was there, so what follows is written into `undefined`
    have ih' := fun {x : Value} (hx : Fits rest x) =>
      ih (v := undefined) (fun t ht => hp t (by simp [ht])) rfl rfl hx rfl
    cases s with
    | field name =>
      have hdef := inject_ne_undefined (p := rest) (v := v.member name) hw.ne_undefined
      rw [inject_field_of_leaf harray hw.ne_undefined, extract_field_of_leaf isArray_writeField,
        member_writeField hdef, member_of_members_nil hmembers, ih' hw]
    | index i =>
      have hi : 0 ≤ i ∧ i ≤ maxPadding := hp (.index i) (by simp)
      rw [inject_index hw.ne_undefined, extract,
        readIndex_writeIndex (.inl ⟨hi.1, by omega⟩), readIndex_of_items_nil hitems, ih' hw]
    | slice s =>
      have hs : 0 ≤ s.start ∧ s.start ≤ maxPadding := hp (.slice s) (by simp)
      obtain ⟨ws, rfl, hroom, hws⟩ := hw
      have hread : s.read v = [] := by simp [Slice.read, hitems, Slice.orient]
      rw [inject_slice (by simp), extract, entries_array, hread, pairUp_nil,
        Slice.read_write_of_past_end (by simp [hitems, hs.1]) (by omega)
          (by rwa [List.length_map]),
        List.map_map]
      refine congrArg array ((List.map_congr_left fun x hx => ?_).trans (List.map_id ws))
      exact ih' (hws x hx)

/-- A value that a path can hold, written into nothing or into the empty map, reads back. -/
theorem extract_inject_fresh (p : List Segment) (v w : Value)
    (hv : v = undefined ∨ v = map []) (hp : ∀ s ∈ p, s.FromFront) (hw : Fits p w) :
    extract p (inject p v w) = w := by
  rcases hv with rfl | rfl <;> exact extract_inject_of_fits hp rfl rfl hw

/-- From the second day on backward, of each day two hours from the fourth one on. -/
def hourPath : List Segment :=
  [.field "days", .slice ⟨1, some (-3)⟩, .index 2, .slice ⟨3, some 2⟩, .field "count"]

theorem extract_inject_hours :
    (map [] = undefined ∨ map [] = map []) ∧ (∀ s ∈ hourPath, s.FromFront) ∧
      Fits hourPath (array [array [int 7], array [], array [int 8, array [null]]]) ∧
      extract hourPath
          (inject hourPath (map []) (array [array [int 7], array [], array [int 8, array [null]]]))
        = array [array [int 7], array [], array [int 8, array [null]]] := by
  have hfresh : map [] = undefined ∨ map [] = map [] := .inr rfl
  have hfront : ∀ s ∈ hourPath, s.FromFront := by simp [hourPath, Segment.FromFront, maxPadding]
  have hfits : Fits hourPath (array [array [int 7], array [], array [int 8, array [null]]]) := by
    simp [hourPath, Fits, Slice.HasRoom]
  exact ⟨hfresh, hfront, hfits, extract_inject_fresh hourPath _ _ hfresh hfront hfits⟩

end Crosswalk
