import Crosswalk.Path.Access
import Mathlib.Data.List.Forall2

/-!
# Fanning out over arrays

A reading or a writing that fans out acts on the *leaves* of a value: the value itself if it is not
an array, and otherwise the leaves of its elements. What holds of one reading and one writing at
every leaf holds of the two when they fan out.

* `Leaves`: a property of every leaf.
* `Dealt`: a relation between the leaves of a value and the values dealt out to them, with as many
  entries as elements at every depth.
* `fan_spread`, `spread_spread`, `spread_fan`: reading after writing, writing twice, and writing
  what was read.
-/

namespace Crosswalk

/-! ## Lists of branches -/

section Branches

variable {α β : Type} {f : α → β} {g : α → β → α} {P : α → β → Prop} {xs : List α} {vs ws : List β}

theorem length_zipWith_of_forall₂ (hw : List.Forall₂ P xs ws) :
    (List.zipWith g xs ws).length = xs.length := by
  rw [List.length_zipWith, ← hw.length_eq, Nat.min_self]

/-- Branches that each read back after a write read back together. -/
theorem map_zipWith_of_forall₂ (hw : List.Forall₂ P xs ws)
    (h : ∀ x ∈ xs, ∀ w, P x w → f (g x w) = w) : (List.zipWith g xs ws).map f = ws := by
  induction hw with
  | nil => rfl
  | cons hp _ ih =>
    rw [List.zipWith_cons_cons, List.map_cons, h _ (by simp) _ hp,
      ih fun x hx => h x (by simp [hx])]

/-- In branches that are each written twice, the second writes win together. -/
theorem zipWith_zipWith_of_forall₂ (hv : List.Forall₂ P xs vs) (hw : List.Forall₂ P xs ws)
    (h : ∀ x ∈ xs, ∀ v w, P x v → P x w → g (g x v) w = g x w) :
    List.zipWith g (List.zipWith g xs vs) ws = List.zipWith g xs ws := by
  induction hv generalizing ws with
  | nil => rfl
  | cons hp _ ih =>
    cases hw with
    | cons hq hrest =>
      rw [List.zipWith_cons_cons, List.zipWith_cons_cons, List.zipWith_cons_cons,
        h _ (by simp) _ _ hp hq, ih hrest fun x hx => h x (by simp [hx])]

/-- Branches that are each left alone by writing what was read stay as they are. -/
theorem zipWith_map_of_forall (h : ∀ x ∈ xs, g x (f x) = x) :
    List.zipWith g xs (xs.map f) = xs := by
  induction xs with
  | nil => rfl
  | cons x xs ih =>
    rw [List.map_cons, List.zipWith_cons_cons, h x (by simp), ih fun y hy => h y (by simp [hy])]

end Branches

namespace Value

def isArray : Value → Bool
  | array _ => true
  | _ => false

theorem isArray_iff {v : Value} : v.isArray = true ↔ ∃ xs, v = array xs := by
  cases v <;> simp [isArray]

/-- What holds of every value that is not an array, and of an array if it holds of its elements,
holds of every value. -/
theorem arrayInduct {p : Value → Prop} (array : ∀ xs, (∀ x ∈ xs, p x) → p (array xs))
    (leaf : ∀ v, v.isArray = false → p v) (v : Value) : p v := by
  induction v using Value.induct with
  | array xs ih => exact array xs ih
  | _ => exact leaf _ rfl

section Equations

variable {f : Value → Value} {g : Value → Value → Value} {v w : Value}

theorem fan_of_leaf (h : v.isArray = false) : fan f v = f v := by
  cases v <;> simp [isArray] at h <;> rw [fan] <;> simp

theorem spread_of_leaf (h : v.isArray = false) (hw : w ≠ undefined) : spread g v w = g v w := by
  cases v <;> simp [isArray] at h <;> rw [spread] <;> simp [hw]

/-- A value that is not an array goes to every element. -/
theorem spread_array_of_leaf (xs : List Value) (h : w.isArray = false) :
    spread g (array xs) w = array (xs.map fun x => spread g x w) := by
  cases w with
  | undefined => simp
  | array ws => simp [isArray] at h
  | _ => rw [spread] <;> simp

/-- Values for all elements are dealt out one by one. -/
theorem spread_array_of_length {xs ws : List Value} (h : xs.length = ws.length) :
    spread g (array xs) (array ws) = array (List.zipWith (spread g) xs ws) := by
  rw [spread_array_array, ← h, List.drop_length, List.append_nil]

/-- What falls to the element at a position when a value is dealt out: an entry of an array, and
otherwise the value itself. -/
def share (i : Nat) : Value → Value
  | array ws => ws[i]?.getD undefined
  | w => w

theorem share_of_leaf (h : w.isArray = false) (i : Nat) : w.share i = w := by
  cases w <;> simp_all [share, isArray]

/-- Values that are dealt out one by one are the shares of the elements. -/
theorem zipWith_spread_append_drop (xs ws : List Value) :
    List.zipWith (spread g) xs ws ++ xs.drop ws.length
      = xs.mapIdx fun i x => spread g x ((array ws).share i) := by
  induction xs generalizing ws with
  | nil => simp
  | cons x xs ih =>
    cases ws with
    | nil =>
      rw [List.zipWith_nil_right]
      exact (List.mapIdx_eq_iff.mpr fun i => by simp [share]).symm
    | cons w ws =>
      rw [List.zipWith_cons_cons, List.cons_append, List.length_cons, List.drop_succ_cons, ih,
        List.mapIdx_cons]
      rfl

/-- A writing that fans out over an array takes its share to each element. -/
theorem spread_array (xs : List Value) (w : Value) :
    spread g (array xs) w = array (xs.mapIdx fun i x => spread g x (w.share i)) := by
  cases hw : w.isArray with
  | true =>
    obtain ⟨ws, rfl⟩ := isArray_iff.mp hw
    rw [spread_array_array, zipWith_spread_append_drop]
  | false =>
    rw [spread_array_of_leaf xs hw]
    exact congrArg array (List.mapIdx_eq_iff.mpr fun i => by simp [share_of_leaf hw]).symm

theorem spread_ne_undefined (hw : w ≠ undefined) (hg : ∀ u, g u w ≠ undefined) :
    spread g v w ≠ undefined := by
  cases hv : v.isArray with
  | true =>
    obtain ⟨xs, rfl⟩ := isArray_iff.mp hv
    cases hw' : w.isArray with
    | true =>
      obtain ⟨ws, rfl⟩ := isArray_iff.mp hw'
      simp [spread_array_array]
    | false => simp [spread_array_of_leaf xs hw']
  | false => rw [spread_of_leaf hv hw]; exact hg v

end Equations

/-! ## Leaves -/

/-- A property of every leaf of a value. -/
inductive Leaves (P : Value → Prop) : Value → Prop
  | leaf {v : Value} : v.isArray = false → P v → Leaves P v
  | array {xs : List Value} : (∀ x ∈ xs, Leaves P x) → Leaves P (array xs)

/-- A value dealt out to the leaves of another one: an array has one entry for each element, and
each leaf is related to what falls to it. -/
inductive Dealt (P : Value → Value → Prop) : Value → Value → Prop
  | leaf {v w : Value} : v.isArray = false → P v w → Dealt P v w
  | array {xs ws : List Value} : List.Forall₂ (Dealt P) xs ws → Dealt P (array xs) (array ws)

section Laws

variable {f : Value → Value} {g : Value → Value → Value} {P : Value → Value → Prop}
  {Q : Value → Prop} {v w x : Value}

theorem leaves_of_leaf (hv : v.isArray = false) : Leaves Q v ↔ Q v := by
  refine ⟨fun h => ?_, .leaf hv⟩
  cases h with
  | leaf _ hq => exact hq
  | array _ => simp [isArray] at hv

theorem dealt_of_leaf (hv : v.isArray = false) : Dealt P v w ↔ P v w := by
  refine ⟨fun h => ?_, .leaf hv⟩
  cases h with
  | leaf _ hp => exact hp
  | array _ => simp [isArray] at hv

theorem dealt_array {xs : List Value} :
    Dealt P (array xs) w ↔ ∃ ws, w = array ws ∧ List.Forall₂ (Dealt P) xs ws := by
  refine ⟨fun h => ?_, fun ⟨_, hw, hall⟩ => hw ▸ .array hall⟩
  cases h with
  | leaf hleaf _ => simp [isArray] at hleaf
  | array hall => exact ⟨_, rfl, hall⟩

theorem Dealt.ne_undefined (h : Dealt P v w) (hP : ∀ u y, P u y → y ≠ undefined) :
    w ≠ undefined := by
  cases h with
  | leaf _ hp => exact hP _ _ hp
  | array _ => simp

/-- If a writing reads back at every leaf, it reads back when it fans out. -/
theorem fan_spread
    (h : ∀ u y, u.isArray = false → P u y →
      y ≠ undefined ∧ (g u y).isArray = false ∧ f (g u y) = y)
    (hw : Dealt P v w) : fan f (spread g v w) = w := by
  induction v using arrayInduct generalizing w with
  | array xs ih =>
    obtain ⟨ws, rfl, hall⟩ := dealt_array.mp hw
    rw [spread_array_of_length hall.length_eq, fan_array,
      map_zipWith_of_forall₂ hall fun x hx _ hd => ih x hx hd]
  | leaf v hleaf =>
    obtain ⟨hdef, hg, hf⟩ := h v w hleaf ((dealt_of_leaf hleaf).mp hw)
    rw [spread_of_leaf hleaf hdef, fan_of_leaf hg, hf]

/-- If the second of two writes wins at every leaf, it wins when they fan out. -/
theorem spread_spread
    (h : ∀ u y z, u.isArray = false → P u y → P u z →
      y ≠ undefined ∧ z ≠ undefined ∧ (g u y).isArray = false ∧ g (g u y) z = g u z)
    (hw : Dealt P v w) (hx : Dealt P v x) : spread g (spread g v w) x = spread g v x := by
  induction v using arrayInduct generalizing w x with
  | array xs ih =>
    obtain ⟨ws, rfl, hws⟩ := dealt_array.mp hw
    obtain ⟨ys, rfl, hys⟩ := dealt_array.mp hx
    have hlen : (List.zipWith (spread g) xs ws).length = ys.length :=
      (length_zipWith_of_forall₂ hws).trans hys.length_eq
    rw [spread_array_of_length hws.length_eq, spread_array_of_length hlen,
      spread_array_of_length hys.length_eq,
      zipWith_zipWith_of_forall₂ hws hys fun x hx _ _ hd he => ih x hx hd he]
  | leaf v hleaf =>
    obtain ⟨hdef, hdef', hg, hgg⟩ :=
      h v w x hleaf ((dealt_of_leaf hleaf).mp hw) ((dealt_of_leaf hleaf).mp hx)
    rw [spread_of_leaf hleaf hdef, spread_of_leaf hg hdef', spread_of_leaf hleaf hdef', hgg]

/-- If writing what was read changes nothing at any leaf, it changes nothing when both fan out. -/
theorem spread_fan (h : ∀ u, u.isArray = false → Q u → f u ≠ undefined → g u (f u) = u)
    (hv : Leaves Q v) : spread g v (fan f v) = v := by
  induction hv with
  | @leaf v hleaf hq =>
    rw [fan_of_leaf hleaf]
    by_cases hf : f v = undefined
    · rw [hf, spread_undefined]
    · rw [spread_of_leaf hleaf hf, h v hleaf hq hf]
  | @array xs _ ih =>
    rw [fan_array, spread_array_of_length (List.length_map _).symm, zipWith_map_of_forall ih]

end Laws

end Value

end Crosswalk
