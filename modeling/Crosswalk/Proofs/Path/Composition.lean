import Crosswalk.Proofs.Path.Places

/-!
# Paths in two parts

A path whose first part leads to one place can be walked in two steps. Reading goes on from what the
first part reads; writing changes what the first part reads and puts it back in its place. That
holds where there is nothing yet and where an index is out of reach, and the second part may fan
out.

* `extract_append`, `inject_append`: the two laws.
* `in_two_steps`: both of them.
-/

namespace Crosswalk

open Value

section Append

variable {p : List Segment} {v w : Value}

/-- What stands behind a path that leads to one place is read from what the path reads. -/
theorem extract_append (h : Singular p v) (q : List Segment) :
    extract (p ++ q) v = extract q (extract p v) := by
  induction p generalizing v with
  | nil => rfl
  | cons s rest ih =>
    cases s with
    | field name =>
      rw [List.cons_append, extract_field_of_leaf h.1, extract_field_of_leaf h.1, ih h.2]
    | index i =>
      rw [List.cons_append, extract, extract]
      exact ih h
    | slice s => exact h.elim

/-- A value written behind a path that leads to one place is written into what the path reads, and
that is put back. -/
theorem inject_append (h : Singular p v) (hw : w ≠ undefined) (q : List Segment) :
    inject (p ++ q) v w = inject p v (inject q (extract p v) w) := by
  induction p generalizing v with
  | nil =>
    have hwritten := inject_ne_undefined (p := q) (v := v) hw
    simp [inject, extract, hwritten]
  | cons s rest ih =>
    have hwritten := inject_ne_undefined (p := q) (v := extract (s :: rest) v) hw
    cases s with
    | field name =>
      rw [List.cons_append, inject_field_of_leaf h.1 hw, inject_field_of_leaf h.1 hwritten,
        extract_field_of_leaf h.1, ih h.2]
    | index i =>
      rw [List.cons_append, inject_index hw, inject_index hwritten, extract, ih h]
    | slice s => exact h.elim

/-- A path whose first part leads to one place is read and written in two steps. -/
theorem in_two_steps (h : Singular p v) (q : List Segment) :
    extract (p ++ q) v = extract q (extract p v) ∧
      ∀ w, w ≠ undefined → inject (p ++ q) v w = inject p v (inject q (extract p v) w) :=
  ⟨extract_append h q, fun _ hw => inject_append h hw q⟩

end Append

/-- The numbers of the last row, which is made of two. -/
theorem in_two_steps_rows : Singular [.field "rows", .index (-1)] rows ∧
    array [int 30, int 31] ≠ undefined ∧
    extract ([.field "rows", .index (-1)] ++ [.field "id"]) rows
      = extract [.field "id"] (extract [.field "rows", .index (-1)] rows) ∧
    inject ([.field "rows", .index (-1)] ++ [.field "id"]) rows (array [int 30, int 31])
      = inject [.field "rows", .index (-1)] rows
          (inject [.field "id"] (extract [.field "rows", .index (-1)] rows)
            (array [int 30, int 31])) :=
  have hplace : Singular [.field "rows", .index (-1)] rows := ⟨rfl, trivial⟩
  have hvalue : array [int 30, int 31] ≠ undefined := by simp
  ⟨hplace, hvalue, (in_two_steps hplace [.field "id"]).1,
    (in_two_steps hplace [.field "id"]).2 _ hvalue⟩

end Crosswalk
