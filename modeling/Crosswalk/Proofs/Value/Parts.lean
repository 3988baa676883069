import Crosswalk.Proofs.Value.Clean

/-!
# Properties of all parts of a value

* `Throughout`: a property that a value and all its parts have.
* `throughout_array_iff`, `throughout_map_iff`: one level of such a value.
-/

namespace Crosswalk.Value

/-- A property of a value and of everything that it is made of. -/
def Throughout (P : Value → Prop) (v : Value) : Prop := ∀ u, Part u v → P u

variable {P : Value → Prop} {v : Value} {xs : List Value} {ms : Members Value}

theorem Throughout.self (h : v.Throughout P) : P v := h v (.self v)

/-- A value without elements and members is its only part. -/
theorem throughout_of_bare (harray : ∀ xs, v ≠ array xs) (hmap : ∀ ms, v ≠ map ms) :
    v.Throughout P ↔ P v := by
  refine ⟨Throughout.self, fun hv u hpart => ?_⟩
  cases hpart with
  | self => exact hv
  | element _ _ => exact absurd rfl (harray _)
  | member _ _ => exact absurd rfl (hmap _)

theorem throughout_array_iff : (array xs).Throughout P ↔
    P (array xs) ∧ ∀ x ∈ xs, x.Throughout P := by
  constructor
  · intro h
    exact ⟨h.self, fun x hx u hpart => h u (.element hx hpart)⟩
  · rintro ⟨hself, hall⟩ u hpart
    cases hpart with
    | self => exact hself
    | element hx hpart => exact hall _ hx u hpart

theorem throughout_map_iff : (map ms).Throughout P ↔
    P (map ms) ∧ ∀ m ∈ ms, m.2.Throughout P := by
  constructor
  · intro h
    exact ⟨h.self, fun m hm u hpart => h u (.member hm hpart)⟩
  · rintro ⟨hself, hall⟩ u hpart
    cases hpart with
    | self => exact hself
    | member hm hpart => exact hall _ hm u hpart

end Crosswalk.Value
