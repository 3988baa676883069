/-!
# Members in order

A record is a list of named values in the order in which the names were first given.

* `get?`: the value of a name.
* `put`: the value of a name replaced where it stands, or added at the end.
* `erase`: a record without a name, the others in their order.
* `ofList`: a record from entries; a repeated name keeps its first place and its last value.
-/

namespace Crosswalk

/-- Named values in order. -/
abbrev Members (α : Type) := List (String × α)

namespace Members

variable {α : Type}

/-- The value of a name. -/
def get? (ms : Members α) (name : String) : Option α := ms.lookup name

/-- The value of a name replaced where it stands, or added at the end. -/
def put (name : String) (a : α) : Members α → Members α
  | [] => [(name, a)]
  | (other, b) :: rest =>
    if other = name then (name, a) :: rest else (other, b) :: put name a rest

/-- The record without a name. -/
def erase (name : String) (ms : Members α) : Members α := ms.filter fun m => m.1 ≠ name

def names (ms : Members α) : List String := ms.map Prod.fst

/-- The record that entries build one after the other. -/
def ofList (entries : List (String × α)) : Members α :=
  entries.foldl (fun ms m => put m.1 m.2 ms) []

@[simp] theorem get?_nil (name : String) : get? ([] : Members α) name = none := rfl

theorem get?_cons (name other : String) (a : α) (ms : Members α) :
    get? ((other, a) :: ms) name = if other = name then some a else get? ms name := by
  by_cases h : name = other
  · subst h; simp [get?]
  · have : (name == other) = false := by simpa using h
    simp [get?, List.lookup_cons, this, Ne.symm h]

/-- A name just put has its value. -/
@[simp] theorem get?_put_self (name : String) (a : α) (ms : Members α) :
    get? (put name a ms) name = some a := by
  induction ms with
  | nil => simp [put, get?_cons]
  | cons m ms ih =>
    obtain ⟨first, b⟩ := m
    by_cases h : first = name <;> simp [put, get?_cons, h, ih]

/-- Putting one name leaves the others. -/
theorem get?_put_of_ne {name other : String} (h : other ≠ name) (a : α) (ms : Members α) :
    get? (put name a ms) other = get? ms other := by
  induction ms with
  | nil => simp [put, get?_cons, Ne.symm h]
  | cons m ms ih =>
    obtain ⟨first, b⟩ := m
    by_cases hm : first = name
    · subst hm; simp [put, get?_cons, Ne.symm h]
    · simp [put, get?_cons, hm, ih]

/-- The second of two values put for one name wins. -/
@[simp] theorem put_put (name : String) (a b : α) (ms : Members α) :
    put name b (put name a ms) = put name b ms := by
  induction ms with
  | nil => simp [put]
  | cons m ms ih =>
    obtain ⟨first, c⟩ := m
    by_cases h : first = name <;> simp [put, h, ih]

/-- Putting the value that a name has changes nothing. -/
theorem put_of_get? {name : String} {a : α} {ms : Members α} (h : get? ms name = some a) :
    put name a ms = ms := by
  induction ms with
  | nil => simp at h
  | cons m ms ih =>
    obtain ⟨first, b⟩ := m
    rw [get?_cons] at h
    by_cases hf : first = name
    · simp only [hf, if_true, Option.some.injEq] at h
      simp [put, hf, h]
    · simp only [if_neg hf] at h
      simp [put, hf, ih h]

end Members

end Crosswalk
