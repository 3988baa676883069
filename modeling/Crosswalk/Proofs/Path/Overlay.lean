import Crosswalk.Proofs.Path.WriteRead

/-!
# What a vectorized write leaves to be read

A path of fields reads an array element by element, and writes it in the same way: the entries of an
array are dealt out to the elements, anything else goes to each of them. What is read after a write
is the value laid over what was read before it, level by level, whatever the shapes of the two.

* `overlay`: what is read in the end, told from the document and the value alone.
* `inject_field_array`, `extract_field_array`: a field that meets an array.
* `extract_inject_fields`: reading after any write along fields gives the overlay.
-/

namespace Crosswalk

open Value

/-- A path of fields. -/
def fields (names : List String) : List Segment := names.map .field

/-- A value laid over what a path of fields reads in a document. What is missing in the value leaves
what was read. An array meets an array entry by entry: surplus entries are dropped, and elements
without an entry are read as they were. Any other value is laid over each element of an array. -/
def overlay : (names : List String) → (v value : Value) → Value
  | names, v, undefined => extract (fields names) v
  | [], _, value => value
  | name :: rest, array xs, array ws =>
    array (xs.attach.mapIdx fun i x =>
      match ws[i]? with
      | some w => overlay (name :: rest) x.1 w
      | none => extract (fields (name :: rest)) x.1)
  | name :: rest, array xs, value =>
    array (xs.attach.map fun x => overlay (name :: rest) x.1 value)
  | name :: rest, v, value => overlay rest (v.member name) value
termination_by names v => (names.length, sizeOf v)
decreasing_by
  · have := List.sizeOf_lt_of_mem x.2
    simp only [array.sizeOf_spec]
    exact .right _ (by omega)
  · have := List.sizeOf_lt_of_mem x.2
    simp only [array.sizeOf_spec]
    exact .right _ (by omega)
  · exact .left _ _ (by simp)

theorem fields_cons (name : String) (rest : List String) :
    fields (name :: rest) = .field name :: fields rest := rfl

section Overlay

variable {name : String} {names rest : List String} {v w : Value} {xs ws : List Value}

theorem overlay_undefined : overlay names v undefined = extract (fields names) v := by
  rw [overlay]

theorem overlay_nil (hw : w ≠ undefined) : overlay [] v w = w := by
  rw [overlay]
  exact hw

theorem overlay_array_array : overlay (name :: rest) (array xs) (array ws)
    = array (xs.mapIdx fun i x =>
        match ws[i]? with
        | some w => overlay (name :: rest) x w
        | none => extract (fields (name :: rest)) x) := by
  rw [overlay]
  refine congrArg array (List.mapIdx_eq_iff.mpr fun i => ?_)
  have hvalue : xs.attach[i]?.map Subtype.val = xs[i]? := by
    rw [← List.getElem?_map, List.attach_map_subtype_val]
  rw [List.getElem?_mapIdx, ← hvalue, Option.map_map]
  rfl

theorem overlay_array_of_leaf (hleaf : w.isArray = false) (hw : w ≠ undefined) :
    overlay (name :: rest) (array xs) w
      = array (xs.map fun x => overlay (name :: rest) x w) := by
  cases w <;> simp [isArray] at hleaf hw <;> rw [overlay] <;> simp

theorem overlay_of_leaf (hv : v.isArray = false) (hw : w ≠ undefined) :
    overlay (name :: rest) v w = overlay rest (v.member name) w := by
  cases v <;> simp [isArray] at hv <;> rw [overlay] <;> simp [hw]

end Overlay

/-! ## Fields that meet arrays -/

section Arrays

variable {name : String} {rest : List Segment}

theorem extract_field_array (xs : List Value) : extract (.field name :: rest) (array xs)
    = array (xs.map (extract (.field name :: rest))) := by
  rw [extract_field, fan_array]
  refine congrArg array (List.map_congr_left fun x _ => ?_)
  rw [extract_field]

theorem inject_field_array (xs : List Value) (w : Value) : inject (.field name :: rest) (array xs) w
    = array (xs.mapIdx fun i x => inject (.field name :: rest) x (w.share i)) := by
  simp only [inject_field, spread_array]

/-- Each element of an array is read after its share of a value was written. -/
theorem extract_inject_field_array (xs : List Value) (w : Value) :
    extract (.field name :: rest) (inject (.field name :: rest) (array xs) w)
      = array (xs.mapIdx fun i x =>
          extract (.field name :: rest) (inject (.field name :: rest) x (w.share i))) := by
  rw [inject_field_array, extract_field_array]
  refine congrArg array (List.mapIdx_eq_iff.mpr fun i => ?_).symm
  rw [List.getElem?_map, List.getElem?_mapIdx, Option.map_map]
  rfl

end Arrays

/-! ## The law -/

/-- Overlays of the elements of an array make the overlay of the array. -/
theorem extract_inject_fields_array {name : String} {rest : List String} {xs : List Value}
    (h : ∀ x ∈ xs, ∀ w, extract (fields (name :: rest)) (inject (fields (name :: rest)) x w)
      = overlay (name :: rest) x w) {value : Value} (hdef : value ≠ undefined) :
    extract (fields (name :: rest)) (inject (fields (name :: rest)) (array xs) value)
      = overlay (name :: rest) (array xs) value := by
  rw [fields_cons] at h ⊢
  rw [extract_inject_field_array]
  cases hleaf : value.isArray with
  | true =>
    obtain ⟨ws, rfl⟩ := isArray_iff.mp hleaf
    rw [overlay_array_array]
    refine congrArg array (List.mapIdx_eq_mapIdx_iff.mpr fun i hi => ?_)
    rw [share]
    cases ws[i]? with
    | none => rw [Option.getD_none, inject_undefined, fields_cons]
    | some w => exact h _ (List.getElem_mem hi) w
  | false =>
    rw [overlay_array_of_leaf hleaf hdef]
    refine congrArg array (List.mapIdx_eq_iff.mpr fun i => ?_)
    rw [List.getElem?_map, share_of_leaf hleaf]
    exact Option.map_congr fun x hx => (h x (List.mem_of_getElem? hx) value).symm

/-- What is read through a path of fields after a value was written through it is the value laid
over what was read before. -/
theorem extract_inject_fields (names : List String) (v value : Value) :
    extract (fields names) (inject (fields names) v value) = overlay names v value := by
  by_cases hdef : value = undefined
  · rw [hdef, inject_undefined, overlay_undefined]
  induction names generalizing v value with
  | nil =>
    rw [overlay_nil hdef]
    simp [fields, extract, inject, hdef]
  | cons name rest ih =>
    induction v using arrayInduct generalizing value with
    | array xs ihx =>
      refine extract_inject_fields_array (fun x hx w => ?_) hdef
      by_cases hw : w = undefined
      · rw [hw, inject_undefined, overlay_undefined]
      · exact ihx x hx w hw
    | leaf v hleaf =>
      have hwritten := inject_ne_undefined (p := fields rest) (v := v.member name) hdef
      rw [fields_cons, overlay_of_leaf hleaf hdef, inject_field_of_leaf hleaf hdef,
        extract_field_of_leaf isArray_writeField, member_writeField hwritten]
      exact ih _ _ hdef

/-- Two values for three rows, the second of which is made of rows itself. -/
example : overlay ["id"] (array [map [("id", int 1)], array [map [], null], map [("id", int 3)]])
    (array [string "a", string "b"])
    = array [string "a", array [string "b", string "b"], int 3] := by cbv

end Crosswalk
