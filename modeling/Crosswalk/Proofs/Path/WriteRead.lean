import Crosswalk.Proofs.Path.Fan
import Crosswalk.Proofs.Path.Segments

/-!
# Reading after writing

A value is *aligned* with a document and a path if it has the shape that a read through the path
gives: an array with an entry for each branch wherever the path fans out. An aligned value can be
read back after it is written, and it hides what was written through the path before.

* `Aligned`: the values that fit a path in a document.
* `extract_inject_of_aligned`, `inject_inject_of_aligned`: the two laws.
* `inject_ne_undefined`: a document in which something was written is not `undefined`.
-/

namespace Crosswalk

open Value

/-- A defined value with an entry for each place to which a path leads in a document: it is anything
at the end of the path, an array with as many entries as a slice reads at a slice, and an array with
as many entries as elements at a field that meets an array. Every index is within reach. -/
def Aligned : List Segment → (v value : Value) → Prop
  | [], _, w => w ≠ undefined
  | .field name :: rest, v, w => Dealt (fun u x => Aligned rest (u.member name) x) v w
  | .index i :: rest, v, w => Writable i v.items.length ∧ Aligned rest (readIndex i v) w
  | .slice s :: rest, v, w => ∃ ws, w = array ws ∧ List.Forall₂ (Aligned rest) (s.read v) ws

section Aligned

variable {name : String} {rest : List Segment} {v w : Value}

/-- At a field, a value that is not an array passes on to its member. -/
theorem aligned_field_of_leaf (hv : v.isArray = false) :
    Aligned (.field name :: rest) v w ↔ Aligned rest (v.member name) w := dealt_of_leaf hv

/-- At a field, an array passes on to its elements with the same path. -/
theorem aligned_field_array {xs : List Value} : Aligned (.field name :: rest) (array xs) w ↔
    ∃ ws, w = array ws ∧ List.Forall₂ (Aligned (.field name :: rest)) xs ws := dealt_array

end Aligned

theorem Aligned.ne_undefined {p : List Segment} {v w : Value} (h : Aligned p v w) :
    w ≠ undefined := by
  induction p generalizing v w with
  | nil => exact h
  | cons s rest ih =>
    cases s with
    | field name => exact Dealt.ne_undefined h fun _ _ hu => ih hu
    | index i => exact ih h.2
    | slice s => obtain ⟨ws, rfl, -⟩ := h; simp

/-! ## One segment -/

section Equations

variable {name : String} {i : Int} {s : Slice} {rest : List Segment} {v w : Value}

theorem extract_field : extract (.field name :: rest) v
    = v.fan fun u => extract rest (u.member name) := by rw [extract]

theorem inject_field : inject (.field name :: rest) v w
    = v.spread (fun u x => writeField name u (inject rest (u.member name) x)) w := by rw [inject]

theorem extract_field_of_leaf (hv : v.isArray = false) :
    extract (.field name :: rest) v = extract rest (v.member name) := by
  rw [extract_field, fan_of_leaf hv]

theorem inject_field_of_leaf (hv : v.isArray = false) (h : w ≠ undefined) :
    inject (.field name :: rest) v w = writeField name v (inject rest (v.member name) w) := by
  rw [inject_field, spread_of_leaf hv h]

theorem isArray_writeField : (writeField name v w).isArray = false := by
  unfold writeField
  split <;> rfl

theorem inject_index (h : w ≠ undefined) : inject (.index i :: rest) v w
    = writeIndex i v (inject rest (readIndex i v) w) := by
  rw [inject, if_neg (by simpa using h)]

theorem inject_slice (h : w ≠ undefined) : inject (.slice s :: rest) v w
    = s.write v (array (pairUp (inject rest) (s.read v) w.entries)) := by
  rw [inject, if_neg (by simpa using h)]

end Equations

/-- Nothing is written where there is nothing to write. -/
@[simp] theorem inject_undefined (p : List Segment) (v : Value) : inject p v undefined = v := by
  cases p with
  | nil => simp [inject, isUndefined]
  | cons s rest =>
    cases s with
    | field name => rw [inject_field, spread_undefined]
    | index i => simp [inject, isUndefined]
    | slice s => simp [inject, isUndefined]

/-- A document in which something was written is not `undefined`. -/
theorem inject_ne_undefined {p : List Segment} {v w : Value} (h : w ≠ undefined) :
    inject p v w ≠ undefined := by
  cases p with
  | nil => simp [inject, h]
  | cons s rest =>
    cases s with
    | field name =>
      rw [inject_field]
      refine spread_ne_undefined h fun u => ?_
      rw [writeField]
      split <;> simp
    | index i => rw [inject_index h, writeIndex]; simp
    | slice s => rw [inject_slice h, Slice.write]; simp

/-- With one value for each branch, no branch is missing. -/
theorem pairUp_of_length {f : Value → Value → Value} {xs ws : List Value}
    (h : xs.length = ws.length) : pairUp f xs ws = List.zipWith f xs ws := by
  simp [pairUp, h]

/-! ## The laws -/

/-- An aligned value reads back after it is written. -/
theorem extract_inject_of_aligned {p : List Segment} {v w : Value} (h : Aligned p v w) :
    extract p (inject p v w) = w := by
  induction p generalizing v w with
  | nil => simp [extract, inject, show w ≠ undefined from h]
  | cons s rest ih =>
    cases s with
    | field name =>
      rw [extract_field, inject_field]
      refine fan_spread (fun u y hu hy => ?_) h
      have hdef := inject_ne_undefined (p := rest) (v := u.member name) hy.ne_undefined
      refine ⟨hy.ne_undefined, isArray_writeField, ?_⟩
      rw [member_writeField hdef, ih hy]
    | index i =>
      rw [inject_index h.2.ne_undefined, extract, readIndex_writeIndex h.1, ih h.2]
    | slice s =>
      obtain ⟨ws, rfl, hws⟩ := h
      rw [inject_slice (by simp), extract, entries_array, pairUp_of_length hws.length_eq,
        Slice.read_write (length_zipWith_of_forall₂ hws),
        map_zipWith_of_forall₂ hws fun x _ w hw => ih hw]

/-- Of two aligned values written one after the other the second one wins. -/
theorem inject_inject_of_aligned {p : List Segment} {v w x : Value} (hw : Aligned p v w)
    (hx : Aligned p v x) : inject p (inject p v w) x = inject p v x := by
  induction p generalizing v w x with
  | nil => simp [inject, show x ≠ undefined from hx]
  | cons s rest ih =>
    cases s with
    | field name =>
      rw [inject_field, inject_field, inject_field]
      refine spread_spread (fun u y z hu hy hz => ?_) hw hx
      have hdef := inject_ne_undefined (p := rest) (v := u.member name) hy.ne_undefined
      have hdef' := inject_ne_undefined (p := rest) (v := u.member name) hz.ne_undefined
      refine ⟨hy.ne_undefined, hz.ne_undefined, isArray_writeField, ?_⟩
      rw [member_writeField hdef, ih hy hz, writeField_writeField hdef hdef']
    | index i =>
      rw [inject_index hx.2.ne_undefined, inject_index hx.2.ne_undefined,
        inject_index hw.2.ne_undefined, readIndex_writeIndex hw.1, ih hw.2 hx.2,
        writeIndex_writeIndex hw.1]
    | slice s =>
      obtain ⟨ws, rfl, hws⟩ := hw
      obtain ⟨xs, rfl, hxs⟩ := hx
      have hlen : (List.zipWith (inject rest) (s.read v) ws).length = (s.read v).length :=
        length_zipWith_of_forall₂ hws
      have hlen' : (List.zipWith (inject rest) (s.read v) xs).length = (s.read v).length :=
        length_zipWith_of_forall₂ hxs
      rw [inject_slice (by simp), inject_slice (by simp), inject_slice (by simp)]
      simp only [entries_array]
      rw [pairUp_of_length hws.length_eq, Slice.read_write hlen,
        pairUp_of_length (hlen.trans hxs.length_eq), pairUp_of_length hxs.length_eq,
        zipWith_zipWith_of_forall₂ hws hxs fun x _ v w hv hw => ih hv hw,
        Slice.write_write hlen hlen']

/-- Writing and reading agree: an aligned value reads back after it is written, and it hides what
was written before it through the same path. -/
theorem write_then_read (p : List Segment) (v w x : Value) (hw : Aligned p v w)
    (hx : Aligned p v x) :
    extract p (inject p v w) = w ∧ inject p (inject p v w) x = inject p v x :=
  ⟨extract_inject_of_aligned hw, inject_inject_of_aligned hw hx⟩

/-- The last two rows, backward, and of each its number. -/
def rowNumbers : List Segment := [.field "rows", .slice ⟨-2, some (-2)⟩, .field "id"]

/-- Three rows, the last of which is made of two, one without a number. -/
def rows : Value :=
  map [("rows", array [map [("id", int 1)], map [("id", int 2)],
    array [map [("id", int 3)], map []]])]

theorem aligned_rowNumbers {a b c : Value} (ha : a ≠ undefined) (hb : b ≠ undefined)
    (hc : c ≠ undefined) : Aligned rowNumbers rows (array [array [a, b], c]) := by
  have hread : Slice.read ⟨-2, some (-2)⟩ (rows.member "rows")
      = [array [map [("id", int 3)], map []], map [("id", int 2)]] := rfl
  have hleaf : ∀ ms x, x ≠ undefined → Aligned [.field "id"] (map ms) x :=
    fun ms x hx => (aligned_field_of_leaf rfl).mpr hx
  refine (aligned_field_of_leaf rfl).mpr ⟨[array [a, b], c], rfl, ?_⟩
  rw [hread]
  exact .cons (aligned_field_array.mpr ⟨[a, b], rfl, .cons (hleaf _ a ha)
    (.cons (hleaf _ b hb) .nil)⟩) (.cons (hleaf _ c hc) .nil)

theorem rowNumbers_write_then_read :
    Aligned rowNumbers rows (array [array [int 30, int 31], int 20]) ∧
      Aligned rowNumbers rows (array [array [int 5, null], string "seven"]) ∧
      extract rowNumbers (inject rowNumbers rows (array [array [int 30, int 31], int 20]))
        = array [array [int 30, int 31], int 20] ∧
      inject rowNumbers (inject rowNumbers rows (array [array [int 30, int 31], int 20]))
          (array [array [int 5, null], string "seven"])
        = inject rowNumbers rows (array [array [int 5, null], string "seven"]) :=
  have hw := aligned_rowNumbers (a := int 30) (b := int 31) (c := int 20) (by simp) (by simp)
    (by simp)
  have hx := aligned_rowNumbers (a := int 5) (b := null) (c := string "seven") (by simp) (by simp)
    (by simp)
  ⟨hw, hx, write_then_read _ _ _ _ hw hx⟩

end Crosswalk
