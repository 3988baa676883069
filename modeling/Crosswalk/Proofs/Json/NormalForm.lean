import Crosswalk.Json.Basic
import Crosswalk.Proofs.Number
import Crosswalk.Proofs.Value.Parts

/-!
# The normal form of values in JSON

A value that goes through a JSON tree comes back in a normal form: what JSON cannot hold has become
null, and an undefined member is gone. Everything else is as it was, an integer still an integer and
a binary64 number still a binary64 number.

* `normal`: the normal form.
* `Lossless`: a value without anything that JSON cannot hold.
* `Json.toValue_ofValue`: the value of the tree of a value is its normal form.
* `Json.ofValue_normal`: a value has the tree of its normal form.
* `normal_eq_self_iff`: the values that are their own normal forms.
* `Json.normal_form`: all of this together.
-/

namespace Crosswalk

namespace Value

/-- What is left of a value in JSON. -/
def normal : Value → Value
  | undefined => null
  | float x => if x.isFinite then float x else null
  | array xs => array (xs.map normal)
  | map ms => map ((ms.filter fun m => !m.2.isUndefined).map fun m => (m.1, normal m.2))
  | v => v
decreasing_by
  · have := List.sizeOf_lt_of_mem ‹_›
    simp only [array.sizeOf_spec]; omega
  · have := sizeOf_member_lt ‹_›
    simp only [map.sizeOf_spec]; omega

/-- A value without `undefined` and without infinities and what is not a number, at any depth. -/
def Lossless (v : Value) : Prop :=
  v.Throughout fun u => u ≠ undefined ∧ ∀ x, u = float x → x.isFinite = true

section Levels

variable {xs : List Value} {ms : Members Value}

@[simp] theorem normal_undefined : normal undefined = null := by rw [normal]

theorem normal_float (x : Binary64) :
    normal (float x) = if x.isFinite then float x else null := by rw [normal]

theorem normal_array : normal (array xs) = array (xs.map normal) := by rw [normal]

theorem normal_map : normal (map ms)
    = map ((ms.filter fun m => !m.2.isUndefined).map fun m => (m.1, m.2.normal)) := by rw [normal]

/-- No normal form is `undefined`. -/
theorem normal_ne_undefined (v : Value) : v.normal ≠ undefined := by
  cases v with
  | float x => rw [normal_float]; split <;> simp
  | _ => simp [normal]

theorem lossless_array_iff : Lossless (array xs) ↔ ∀ x ∈ xs, x.Lossless := by
  simp [Lossless, throughout_array_iff]

theorem lossless_map_iff : Lossless (map ms) ↔ ∀ m ∈ ms, m.2.Lossless := by
  simp [Lossless, throughout_map_iff]

end Levels

/-! ## Values that are their own normal forms -/

theorem lossless_of_bare {v : Value} (harray : ∀ xs, v ≠ array xs) (hmap : ∀ ms, v ≠ map ms) :
    v.Lossless ↔ v ≠ undefined ∧ ∀ x, v = float x → x.isFinite = true :=
  throughout_of_bare harray hmap

/-- A list is mapped to itself if and only if each of its elements is. -/
theorem map_eq_self_iff {α : Type} {f : α → α} {l : List α} :
    l.map f = l ↔ ∀ a ∈ l, f a = a := by
  induction l with
  | nil => simp
  | cons a l ih => simp [ih]

/-- Members of which none is lost and none is changed. -/
theorem filter_map_eq_self_iff {α : Type} {p : α → Bool} {f : α → α} {l : List α} :
    (l.filter p).map f = l ↔ ∀ a ∈ l, p a = true ∧ f a = a := by
  constructor
  · intro h
    have hall : ∀ a ∈ l, p a = true := by
      rw [← List.length_filter_eq_length_iff, ← List.length_map f, h]
    rw [List.filter_eq_self.mpr hall] at h
    exact fun a ha => ⟨hall a ha, map_eq_self_iff.mp h a ha⟩
  · intro h
    rw [List.filter_eq_self.mpr fun a ha => (h a ha).1]
    exact map_eq_self_iff.mpr fun a ha => (h a ha).2

theorem normal_eq_self_iff (v : Value) : v.normal = v ↔ v.Lossless := by
  induction v using Value.induct with
  | undefined => simp [lossless_of_bare]
  | float x => cases hx : x.isFinite <;> simp [lossless_of_bare, normal_float, hx]
  | array xs ih =>
    rw [normal_array, array.injEq, map_eq_self_iff, lossless_array_iff]
    exact forall₂_congr ih
  | map ms ih =>
    rw [normal_map, map.injEq, filter_map_eq_self_iff, lossless_map_iff]
    refine forall₂_congr fun m hm => ?_
    rw [← ih m hm]
    constructor
    · rintro ⟨-, hm⟩
      exact (Prod.ext_iff.mp hm).2
    · intro hnormal
      have hdef : m.2 ≠ undefined := hnormal ▸ m.2.normal_ne_undefined
      exact ⟨by simpa using hdef, Prod.ext rfl hnormal⟩
  | _ => simp [lossless_of_bare, normal]

end Value

/-! ## Through a tree and back -/

namespace Json

open Value

theorem ofValue_array (xs : List Value) : ofValue (.array xs) = array (xs.map ofValue) := by
  rw [ofValue]

theorem ofValue_map (ms : Members Value) : ofValue (.map ms)
    = object ((ms.filter fun m => !m.2.isUndefined).map fun m => (m.1, ofValue m.2)) := by
  rw [ofValue]

theorem toValue_ofValue (v : Value) : (ofValue v).toValue = v.normal := by
  induction v using Value.induct with
  | int n => simp [ofValue, toValue, normal, Number.toValue_ofInt64]
  | float x => cases hx : x.isFinite <;> simp [ofValue, toValue, normal_float, Number.toValue, hx]
  | array xs ih =>
    rw [ofValue_array, toValue, normal_array, List.map_map]
    exact congrArg _ (List.map_congr_left ih)
  | map ms ih =>
    rw [ofValue_map, toValue, normal_map, List.map_map]
    refine congrArg _ (List.map_congr_left fun m hm => ?_)
    exact Prod.ext rfl (ih m (List.mem_filter.mp hm).1)
  | _ => simp [ofValue, toValue, normal]

theorem ofValue_normal (v : Value) : ofValue v.normal = ofValue v := by
  induction v using Value.induct with
  | float x => cases hx : x.isFinite <;> simp [ofValue, normal_float, hx]
  | array xs ih =>
    rw [normal_array, ofValue_array, ofValue_array, List.map_map]
    exact congrArg _ (List.map_congr_left ih)
  | map ms ih =>
    -- the members of a normal form are all defined, so that none is lost a second time
    have hkept : ∀ m ∈ (ms.filter fun m => !m.2.isUndefined).map fun m => (m.1, m.2.normal),
        (!m.2.isUndefined) = true := by
      intro n hn
      obtain ⟨m, -, rfl⟩ := List.mem_map.mp hn
      simpa using m.2.normal_ne_undefined
    rw [normal_map, ofValue_map, ofValue_map, List.filter_eq_self.mpr hkept, List.map_map]
    refine congrArg _ (List.map_congr_left fun m hm => ?_)
    exact Prod.ext rfl (ih m (List.mem_filter.mp hm).1)
  | _ => simp [ofValue, normal]

theorem normal_normal (v : Value) : v.normal.normal = v.normal := by
  rw [← toValue_ofValue v.normal, ofValue_normal, toValue_ofValue]

/-- A value comes back from its JSON tree in its normal form. A second trip changes nothing more,
the normal form has the same tree, and exactly the values that JSON can hold come back as they
were. -/
theorem normal_form (v : Value) :
    (ofValue v).toValue = v.normal ∧ v.normal.normal = v.normal ∧ ofValue v.normal = ofValue v ∧
      ((ofValue v).toValue = v ↔ v.Lossless) :=
  ⟨toValue_ofValue v, normal_normal v, ofValue_normal v, by
    rw [toValue_ofValue, normal_eq_self_iff]⟩

end Json

end Crosswalk
