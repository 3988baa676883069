import Crosswalk.Proofs.Path.WriteRead
import Crosswalk.Proofs.Value.Clean

/-!
# Clean values along paths

A read finds `undefined` wherever there is nothing, and a write can be given it, but neither makes a
clean value unclean. Only a write at a member could bring `undefined` into a map, and it takes the
member out instead.

* `Segment.clean_read`, `Segment.clean_write`: one segment.
* `clean_fan`, `clean_spread`: what holds at every leaf holds where a path fans out.
* `clean_extract`, `clean_inject`: a whole path.
-/

namespace Crosswalk

open Value

/-! ## One segment -/

section Segments

variable {v w : Value}

theorem clean_writeField (hv : v.Clean) (hw : w.Clean) (name : String) :
    (writeField name v w).Clean := by
  by_cases h : w = undefined
  · rw [writeField, if_pos (by simpa using h)]
    exact hv.erase name
  · rw [writeField_of_defined h]
    exact hv.put hw h name

theorem clean_readIndex (hv : v.Clean) (i : Int) : (readIndex i v).Clean := by
  unfold readIndex
  split
  · next p _ => exact clean_getD hv.items p
  · exact clean_undefined

theorem clean_writeIndex (hv : v.Clean) (hw : w.Clean) (i : Int) : (writeIndex i v w).Clean := by
  rw [writeIndex, clean_array_iff]
  intro x hx
  unfold writeIndexItems at hx
  split at hx
  · exact hv.items x hx
  split at hx
  · exact hv.items x hx
  split at hx
  · rcases List.mem_or_eq_of_mem_set hx with hold | rfl
    · exact hv.items x hold
    · exact hw
  · rcases List.mem_append.mp hx with hfront | hlast
    · rcases List.mem_append.mp hfront with hold | hgap
      · exact hv.items x hold
      · rw [List.eq_of_mem_replicate hgap]
        exact clean_null
    · rw [List.mem_singleton.mp hlast]
      exact hw

namespace Slice

variable {s : Slice} {x : Value} {vs : List Value}

theorem mem_orient : x ∈ s.orient vs ↔ x ∈ vs := by
  unfold orient
  split <;> simp

theorem mem_items_of_mem_read (h : x ∈ s.read v) : x ∈ v.items :=
  List.mem_of_mem_drop (List.mem_of_mem_take (mem_orient.mp h))

theorem mem_of_mem_landing {n : Nat} (h : x ∈ s.landing n vs) : x ∈ vs := by
  have hlined : x ∈ s.lineUp vs := List.mem_of_mem_drop (List.mem_of_mem_take h)
  unfold lineUp at hlined
  split at hlined
  · exact List.mem_of_mem_take (mem_orient.mp hlined)
  · exact mem_orient.mp hlined

theorem clean_write (hv : v.Clean) (hw : w.Clean) (s : Slice) : (s.write v w).Clean := by
  rw [write, clean_array_iff]
  intro x hx
  rw [writeItems] at hx
  split at hx
  · exact hv.items x hx
  · rw [splice] at hx
    rcases List.mem_append.mp hx with hx | hafter
    · rcases List.mem_append.mp hx with hx | hlanded
      · rcases List.mem_append.mp hx with hbefore | hgap
        · exact hv.items x (List.mem_of_mem_take hbefore)
        · rw [List.eq_of_mem_replicate hgap]
          exact clean_null
      · exact hw.entries x (mem_of_mem_landing hlanded)
    · exact hv.items x (List.mem_of_mem_drop hafter)

end Slice

/-- What a segment leads to in a clean value is clean. -/
theorem Segment.clean_read (hv : v.Clean) (s : Segment) : (s.read v).Clean := by
  cases s with
  | field name => exact hv.member name
  | index i => exact clean_readIndex hv i
  | slice s =>
    rw [read, clean_array_iff]
    exact fun x hx => hv.items x (Slice.mem_items_of_mem_read hx)

/-- A clean value written where a segment leads in a clean one. -/
theorem Segment.clean_write (hv : v.Clean) (hw : w.Clean) (s : Segment) :
    (s.write v w).Clean := by
  cases s with
  | field name => exact clean_writeField hv hw name
  | index i => exact clean_writeIndex hv hw i
  | slice s => exact Slice.clean_write hv hw s

end Segments

/-! ## Branches -/

section Branches

variable {f : Value → Value} {g : Value → Value → Value} {v w : Value}

theorem Value.Clean.share (hw : w.Clean) (i : Nat) : (w.share i).Clean := by
  cases w with
  | array ws => exact clean_getD (clean_array_iff.mp hw) i
  | _ => exact hw

/-- A reading that gives clean values at clean leaves gives them when it fans out. -/
theorem clean_fan (hf : ∀ u : Value, u.Clean → (f u).Clean) (hv : v.Clean) : (fan f v).Clean := by
  induction v using arrayInduct with
  | array xs ih =>
    rw [fan_array, clean_array_iff]
    intro y hy
    obtain ⟨x, hx, rfl⟩ := List.mem_map.mp hy
    exact ih x hx (clean_array_iff.mp hv x hx)
  | leaf v hleaf =>
    rw [fan_of_leaf hleaf]
    exact hf v hv

/-- A writing that leaves clean leaves clean does so when it fans out. -/
theorem clean_spread (hg : ∀ u x : Value, u.Clean → x.Clean → (g u x).Clean)
    (hv : v.Clean) (hw : w.Clean) : (spread g v w).Clean := by
  induction v using arrayInduct generalizing w with
  | array xs ih =>
    rw [spread_array, clean_array_iff]
    intro y hy
    obtain ⟨i, hi, rfl⟩ := List.mem_mapIdx.mp hy
    have hx : xs[i] ∈ xs := List.getElem_mem hi
    exact ih _ hx (clean_array_iff.mp hv _ hx) (hw.share i)
  | leaf v hleaf =>
    by_cases hdef : w = undefined
    · rw [hdef, spread_undefined]
      exact hv
    · rw [spread_of_leaf hleaf hdef]
      exact hg v w hv hw

/-- Branches that have no counterpart in the document are written into `undefined`. -/
theorem clean_pairUp {current branches : List Value}
    (hg : ∀ u x : Value, u.Clean → x.Clean → (g u x).Clean)
    (hc : ∀ x ∈ current, x.Clean) (hb : ∀ x ∈ branches, x.Clean) :
    ∀ x ∈ pairUp g current branches, x.Clean := by
  intro y hy
  obtain ⟨i, hi, rfl⟩ := List.mem_iff_getElem.mp hy
  simp only [pairUp, List.length_zipWith, List.getElem_zipWith] at hi ⊢
  -- Only the current value of a branch can be one that was not there.
  refine hg _ _ ?_ (hb _ (List.getElem_mem _))
  rcases List.mem_append.mp (List.getElem_mem (Nat.lt_of_lt_of_le hi (Nat.min_le_left ..)))
    with hold | hnew
  · exact hc _ hold
  · rw [List.eq_of_mem_replicate hnew]
    exact clean_undefined

end Branches

/-! ## Paths -/

section Paths

variable {p : List Segment} {v w : Value}

/-- What a path leads to in a clean document is clean. -/
theorem clean_extract (hv : v.Clean) : (extract p v).Clean := by
  induction p generalizing v with
  | nil => exact hv
  | cons s rest ih =>
    cases s with
    | field name =>
      rw [extract_field]
      exact clean_fan (fun u hu => ih (hu.member name)) hv
    | index i => exact ih (clean_readIndex hv i)
    | slice s =>
      rw [extract, clean_array_iff]
      intro y hy
      obtain ⟨x, hx, rfl⟩ := List.mem_map.mp hy
      exact ih (hv.items x (Slice.mem_items_of_mem_read hx))

/-- A clean value written along a path into a clean document. -/
theorem clean_inject (hv : v.Clean) (hw : w.Clean) : (inject p v w).Clean := by
  induction p generalizing v w with
  | nil =>
    rw [inject]
    split
    · exact hv
    · exact hw
  | cons s rest ih =>
    by_cases hdef : w = undefined
    · rw [hdef, inject_undefined]
      exact hv
    cases s with
    | field name =>
      rw [inject_field]
      exact clean_spread (fun u x hu hx => clean_writeField hu (ih (hu.member name) hx) name)
        hv hw
    | index i =>
      rw [inject_index hdef]
      exact clean_writeIndex hv (ih (clean_readIndex hv i) hw) i
    | slice s =>
      rw [inject_slice hdef]
      refine Slice.clean_write hv (clean_array_iff.mpr ?_) s
      exact clean_pairUp (fun u x hu hx => ih hu hx)
        (fun x hx => hv.items x (Slice.mem_items_of_mem_read hx)) hw.entries

end Paths

end Crosswalk
