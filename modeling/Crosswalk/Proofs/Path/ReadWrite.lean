import Crosswalk.Proofs.Path.WriteRead

/-!
# Writing what was read

What a path reads can be written back through it, and the document stays exactly as it is, as long
as every slice on the way is applied to an array. A slice of anything else reads the empty array,
and writing that makes an array where there was none.

* `SlicesMeetArrays`: every slice that a walk along a path comes to is applied to an array.
* `inject_extract`: the law.
-/

namespace Crosswalk

open Value

/-- Every slice that a walk along a path comes to, in any branch, is applied to an array. What is
missing is `undefined`. -/
def SlicesMeetArrays : List Segment → Value → Prop
  | [], _ => True
  | .field name :: rest, v => v.Leaves fun u => SlicesMeetArrays rest (u.member name)
  | .index i :: rest, v => SlicesMeetArrays rest (readIndex i v)
  | .slice s :: rest, v => v.isArray ∧ ∀ x ∈ s.read v, SlicesMeetArrays rest x

def Segment.isSlice : Segment → Bool
  | .slice _ => true
  | _ => false

/-- A path without slices comes to none. -/
theorem slicesMeetArrays_of_sliceFree {p : List Segment} (h : ∀ s ∈ p, s.isSlice = false)
    (v : Value) : SlicesMeetArrays p v := by
  induction p generalizing v with
  | nil => trivial
  | cons s rest ih =>
    have hrest : ∀ v, SlicesMeetArrays rest v := ih fun t ht => h t (by simp [ht])
    cases s with
    | field name =>
      show v.Leaves fun u => SlicesMeetArrays rest (u.member name)
      induction v using arrayInduct with
      | array xs ih => exact .array ih
      | leaf v hleaf => exact .leaf hleaf (hrest _)
    | index i => exact hrest _
    | slice s => simp [Segment.isSlice] at h

/-- Nothing is read from what is missing, unless a slice makes an empty array of it. -/
theorem extract_undefined {p : List Segment} (h : SlicesMeetArrays p undefined) :
    extract p undefined = undefined := by
  induction p with
  | nil => rfl
  | cons s rest ih =>
    cases s with
    | field name =>
      rw [extract_field, fan_of_leaf rfl]
      rw [SlicesMeetArrays, leaves_of_leaf rfl] at h
      exact ih h
    | index i =>
      have hi : readIndex i undefined = undefined := by
        simp only [readIndex]; split <;> simp [items]
      rw [extract, hi]
      exact ih (by rw [SlicesMeetArrays, hi] at h; exact h)
    | slice s => simp [SlicesMeetArrays, isArray] at h

/-- Where something was read, there is something. -/
theorem ne_undefined_of_extract {p : List Segment} {v : Value} (h : SlicesMeetArrays p v)
    (he : extract p v ≠ undefined) : v ≠ undefined := by
  rintro rfl
  exact he (extract_undefined h)

theorem inject_extract_of_slicesMeetArrays {p : List Segment} {v : Value}
    (h : SlicesMeetArrays p v) : inject p v (extract p v) = v := by
  induction p generalizing v with
  | nil => rw [extract, inject, ite_self]
  | cons s rest ih =>
    cases s with
    | field name =>
      rw [inject_field, extract_field]
      refine spread_fan (fun u _ hu hdef => ?_) h
      rw [ih hu, writeField_member (ne_undefined_of_extract hu hdef)]
    | index i =>
      by_cases hdef : extract (.index i :: rest) v = undefined
      · rw [hdef, inject_undefined]
      · rw [inject_index hdef]
        rw [extract] at hdef ⊢
        rw [ih h, writeIndex_readIndex (ne_undefined_of_extract h hdef)]
    | slice s =>
      obtain ⟨xs, rfl⟩ := isArray_iff.mp h.1
      rw [extract, inject_slice (by simp), entries_array,
        pairUp_of_length (List.length_map _).symm, zipWith_map_of_forall fun x hx => ih (h.2 x hx),
        Slice.write_read]

/-- Writing what was read changes nothing if every slice on the way is applied to an array, in
particular along every path without slices. -/
theorem inject_extract (p : List Segment) (v : Value) :
    (SlicesMeetArrays p v → inject p v (extract p v) = v) ∧
      ((∀ s ∈ p, s.isSlice = false) → inject p v (extract p v) = v) :=
  ⟨inject_extract_of_slicesMeetArrays, fun h =>
    inject_extract_of_slicesMeetArrays (slicesMeetArrays_of_sliceFree h v)⟩

theorem slicesMeetArrays_rows : SlicesMeetArrays rowNumbers rows := by
  have hleaf : ∀ ms, SlicesMeetArrays [.field "id"] (map ms) := fun ms => .leaf rfl trivial
  have hread : Slice.read ⟨-2, some (-2)⟩ (rows.member "rows")
      = [array [map [("id", int 3)], map []], map [("id", int 2)]] := rfl
  refine .leaf rfl ⟨rfl, ?_⟩
  rw [hread, List.forall_mem_cons, List.forall_mem_singleton]
  refine ⟨.array ?_, hleaf _⟩
  rw [List.forall_mem_cons, List.forall_mem_singleton]
  exact ⟨hleaf _, hleaf _⟩

theorem inject_extract_rows : SlicesMeetArrays rowNumbers rows ∧
    inject rowNumbers rows (extract rowNumbers rows) = rows ∧
    inject [.field "rows", .field "id", .index 7] rows
      (extract [.field "rows", .field "id", .index 7] rows) = rows :=
  ⟨slicesMeetArrays_rows, (inject_extract rowNumbers rows).1 slicesMeetArrays_rows,
    (inject_extract [.field "rows", .field "id", .index 7] rows).2 (by simp [Segment.isSlice])⟩

end Crosswalk
