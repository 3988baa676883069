import Crosswalk.Proofs.Value.Merge
import Crosswalk.Json.Basic

/-!
# Values without undefined members

A value is *clean* if no map in it, at any depth, has a member that is `undefined`. An array may
hold `undefined`, and `undefined` itself is clean.

* `Part`: a value that another one is made of.
* `Clean`: no map among the parts has an undefined member.
* `clean_array_iff`, `clean_map_iff`: one level of a clean value.
* `Clean.put`, `Clean.erase`: members put into clean maps and taken out of them.
* `Clean.merge`: a clean patch laid over a clean value.
* `Json.clean_toValue`: the value of a JSON tree.
-/

namespace Crosswalk

theorem Members.eq_or_mem_of_mem_put {α : Type} {name : String} {a : α} {m : String × α}
    {ms : Members α} (h : m ∈ ms.put name a) : m = (name, a) ∨ m ∈ ms := by
  induction ms with
  | nil => exact .inl (by simpa [put] using h)
  | cons first ms ih =>
    obtain ⟨other, b⟩ := first
    rw [put] at h
    split at h
    · exact (List.mem_cons.mp h).imp id (List.mem_cons_of_mem _)
    · rcases List.mem_cons.mp h with rfl | hm
      · exact .inr (by simp)
      · exact (ih hm).imp id (List.mem_cons_of_mem _)

namespace Value

/-- A value that another one is made of: the value itself, or a part of one of its elements or
members. -/
inductive Part : Value → Value → Prop
  | self (v : Value) : Part v v
  | element {u x : Value} {xs : List Value} : x ∈ xs → Part u x → Part u (array xs)
  | member {u : Value} {m : String × Value} {ms : Members Value} :
    m ∈ ms → Part u m.2 → Part u (map ms)

/-- No map in a value, at any depth, has a member that is `undefined`. -/
def Clean (v : Value) : Prop := ∀ ms, Part (map ms) v → ∀ m ∈ ms, m.2 ≠ undefined

variable {v x patch : Value} {xs : List Value} {name : String} {ms ps : Members Value}

/-! ## One level -/

/-- A value without elements and members is clean. -/
theorem clean_of_bare (harray : ∀ xs, v ≠ array xs) (hmap : ∀ ms, v ≠ map ms) : v.Clean := by
  intro ms hpart
  cases hpart with
  | self => exact absurd rfl (hmap ms)
  | element _ _ => exact absurd rfl (harray _)
  | member _ _ => exact absurd rfl (hmap _)

@[simp] theorem clean_undefined : Clean undefined := clean_of_bare (by simp) (by simp)

@[simp] theorem clean_null : Clean null := clean_of_bare (by simp) (by simp)

@[simp] theorem clean_bool (b : Bool) : Clean (bool b) := clean_of_bare (by simp) (by simp)

@[simp] theorem clean_int (n : Int64) : Clean (int n) := clean_of_bare (by simp) (by simp)

@[simp] theorem clean_float (x : Binary64) : Clean (float x) := clean_of_bare (by simp) (by simp)

@[simp] theorem clean_string (s : String) : Clean (string s) := clean_of_bare (by simp) (by simp)

/-- An array is clean if and only if its elements are. -/
@[simp] theorem clean_array_iff : Clean (array xs) ↔ ∀ x ∈ xs, x.Clean := by
  constructor
  · intro h x hx ms hpart
    exact h ms (.element hx hpart)
  · intro h ms hpart
    cases hpart with
    | element hx hpart => exact h _ hx ms hpart

/-- A map is clean if and only if its members are clean and none is `undefined`. -/
@[simp] theorem clean_map_iff : Clean (map ms) ↔ ∀ m ∈ ms, m.2 ≠ undefined ∧ m.2.Clean := by
  constructor
  · intro h m hm
    exact ⟨h ms (.self _) m hm, fun ns hpart => h ns (.member hm hpart)⟩
  · intro h ns hpart
    cases hpart with
    | self => exact fun m hm => (h m hm).1
    | member hm hpart => exact (h _ hm).2 ns hpart

/-! ## Views -/

theorem Clean.items (h : v.Clean) : ∀ x ∈ v.items, x.Clean := by
  cases v with
  | array xs => exact clean_array_iff.mp h
  | _ => simp [Value.items]

theorem Clean.members (h : v.Clean) : ∀ m ∈ v.members, m.2 ≠ undefined ∧ m.2.Clean := by
  cases v with
  | map ms => exact clean_map_iff.mp h
  | _ => simp [Value.members]

theorem Clean.member (h : v.Clean) (name : String) : (v.member name).Clean := by
  unfold Value.member
  cases hget : v.members.get? name with
  | none => exact clean_undefined
  | some x => exact (h.members _ (Members.mem_of_get? hget)).2

theorem Clean.entries (h : v.Clean) : ∀ x ∈ v.entries, x.Clean := by
  cases v with
  | array xs => exact clean_array_iff.mp h
  | undefined => simp [Value.entries]
  | _ => simpa only [Value.entries, List.forall_mem_singleton] using h

/-- An element that may be missing. -/
theorem clean_getD (h : ∀ x ∈ xs, x.Clean) (p : Nat) : (xs[p]?.getD undefined).Clean := by
  cases hget : xs[p]? with
  | none => exact clean_undefined
  | some x => exact h x (List.mem_of_getElem? hget)

/-! ## Members put in and taken out -/

/-- A defined clean value put into the members of a clean one. -/
theorem Clean.put (h : v.Clean) (hx : x.Clean) (hdef : x ≠ undefined) (name : String) :
    Clean (.map (v.members.put name x)) := by
  refine clean_map_iff.mpr fun m hm => ?_
  rcases Members.eq_or_mem_of_mem_put hm with rfl | hold
  · exact ⟨hdef, hx⟩
  · exact h.members m hold

theorem Clean.erase (h : v.Clean) (name : String) : Clean (.map (v.members.erase name)) :=
  clean_map_iff.mpr fun m hm => h.members m ((List.mem_filter.mp hm).1)

/-! ## Patches -/

/-- A merged value is `undefined` only if there was nothing to merge. -/
theorem merge_eq_undefined_iff : v.merge patch = undefined ↔ v = undefined ∧ patch = undefined := by
  by_cases hp : patch = undefined
  · rw [hp, merge_undefined]
    exact (and_iff_left rfl).symm
  refine iff_of_false ?_ fun h => hp h.2
  cases hmap : patch.isMap with
  | true =>
    obtain ⟨ps, rfl⟩ := isMap_iff.mp hmap
    obtain ⟨ms, hms⟩ := isMap_iff.mp (isMap_merge (v := v) hmap)
    simp [hms]
  | false => rwa [merge_scalar hmap hp]

/-- Clean members of a patch laid over clean ones, given that each of them can be. An undefined one
would be skipped, and a defined one stays defined. -/
theorem Clean.mergeMembers
    (hps : ∀ m ∈ ps, m.2 ≠ .undefined ∧ ∀ v : Value, v.Clean → (v.merge m.2).Clean)
    (h : Clean (.map ms)) : Clean (.map (mergeMembers ms ps)) := by
  induction ps generalizing ms with
  | nil => rwa [Value.mergeMembers]
  | cons m ps ih =>
    obtain ⟨name, patch⟩ := m
    obtain ⟨⟨hdef, hmerge⟩, hrest⟩ := List.forall_mem_cons.mp hps
    rw [Value.mergeMembers, patchMember_merge hdef]
    have hmerged : ((map ms).member name).merge patch ≠ .undefined := fun hnone =>
      hdef (merge_eq_undefined_iff.mp hnone).2
    exact ih hrest (h.put (hmerge _ (h.member name)) hmerged name)

/-- A clean patch laid over a clean value gives a clean value. -/
theorem Clean.merge (h : v.Clean) (hp : patch.Clean) : (v.merge patch).Clean := by
  induction patch using Value.induct generalizing v with
  | undefined => rwa [merge_undefined]
  | map ps ih =>
    have hps := clean_map_iff.mp hp
    cases hv : v.isMap with
    | true =>
      obtain ⟨ms, rfl⟩ := isMap_iff.mp hv
      rw [merge_map_map]
      exact Clean.mergeMembers (fun m hm => ⟨(hps m hm).1, fun v hv => ih m hm hv (hps m hm).2⟩) h
    | false =>
      rw [merge_of_not_isMap hv (by simp)]
      exact hp
  | _ =>
    rw [merge_scalar rfl (by simp)]
    exact hp

end Value

/-! ## Values of JSON trees -/

open Value

theorem Number.clean_toValue (n : Number) : n.toValue ≠ undefined ∧ n.toValue.Clean := by
  cases n with
  | natural n =>
    by_cases h : n.toNat < Nat.pow 2 63
    · rw [toValue, if_pos h]; simp
    · rw [toValue, if_neg h]; simp
  | negative n => simp [toValue]
  | real x => simp [toValue]

/-- A JSON tree has no undefined members to give to its value. -/
theorem Json.clean_toValue : (j : Json) → j.toValue ≠ undefined ∧ j.toValue.Clean
  | null => by simp [toValue]
  | bool _ => by simp [toValue]
  | number n => by rw [toValue]; exact n.clean_toValue
  | string _ => by simp [toValue]
  | array xs => by
    refine ⟨by simp [toValue], ?_⟩
    rw [toValue, clean_array_iff]
    intro v hv
    obtain ⟨x, hx, rfl⟩ := List.mem_map.mp hv
    exact (clean_toValue x).2
  | object ms => by
    refine ⟨by simp [toValue], ?_⟩
    rw [toValue, clean_map_iff]
    intro n hn
    obtain ⟨m, hm, rfl⟩ := List.mem_map.mp hn
    exact clean_toValue m.2
decreasing_by
  · have := List.sizeOf_lt_of_mem hx
    simp only [array.sizeOf_spec]; omega
  · have := sizeOf_member_lt hm
    simp only [object.sizeOf_spec]; omega

end Crosswalk
