import Crosswalk.Proofs.Path.ReadWrite

/-!
# What a write leaves alone

Two paths *fork* if they have a common part of fields and indices and part at two different fields.
Whatever stands behind the fork, and wherever the paths fan out, a write through one of them leaves
what the other one reads: containers that are made, arrays that are filled up and writes that are
left undone on the common part are met by the reader, too, and it finds nothing in them.

* `fan_spread_of_frame`: a frame law at every leaf is one when reading and writing fan out.
* `readIndex_writeIndex_eq`: after a write at an index within reach or out of it.
* `Fork.extract_inject`: the law by induction on the common part.
* `extract_inject_of_fork`: the law for paths in one piece.
-/

namespace Crosswalk

open Value

/-! ## Fanning out -/

section Fanning

variable {f : Value → Value} {g : Value → Value → Value} {v w : Value}

/-- Values dealt out to the first elements change nothing that is read from any element. -/
theorem map_zipWith_append_drop {α β : Type} {f : α → β} {g : α → β → α} {xs : List α}
    (h : ∀ x ∈ xs, ∀ w, f (g x w) = f x) (ws : List β) :
    (List.zipWith g xs ws ++ xs.drop ws.length).map f = xs.map f := by
  induction xs generalizing ws with
  | nil => simp
  | cons x xs ih =>
    cases ws with
    | nil => simp
    | cons w ws =>
      have hrest := ih (fun y hy => h y (by simp [hy])) ws
      rw [List.zipWith_cons_cons, List.cons_append, List.map_cons, List.map_cons, h x (by simp),
        List.length_cons, List.drop_succ_cons, hrest]

/-- If a writing changes nothing that is read at any leaf, and leaves it a leaf, it changes nothing
that is read when both fan out. -/
theorem Value.fan_spread_of_frame
    (h : ∀ u y, u.isArray = false → y ≠ undefined → (g u y).isArray = false ∧ f (g u y) = f u) :
    fan f (spread g v w) = fan f v := by
  induction v using arrayInduct generalizing w with
  | array xs ih =>
    cases hw : w.isArray with
    | true =>
      obtain ⟨ws, rfl⟩ := isArray_iff.mp hw
      rw [spread_array_array, fan_array, fan_array,
        map_zipWith_append_drop (fun x hx w => ih x hx) ws]
    | false =>
      rw [spread_array_of_leaf xs hw, fan_array, fan_array, List.map_map]
      refine congrArg array (List.map_congr_left fun x hx => ?_)
      exact ih x hx
  | leaf v hleaf =>
    by_cases hw : w = undefined
    · rw [hw, spread_undefined]
    · obtain ⟨hg, hf⟩ := h v w hleaf hw
      rw [spread_of_leaf hleaf hw, fan_of_leaf hg, hf, fan_of_leaf hleaf]

end Fanning

/-! ## Indices within reach and out of it -/

section Indices

variable {i : Int} {v x : Value}

/-- A write at an index out of reach leaves the elements. -/
theorem writeIndexItems_of_not_writable {xs : List Value} (h : ¬ Writable i xs.length) :
    writeIndexItems i xs x = xs := by
  unfold writeIndexItems position?
  unfold Writable at h
  by_cases h0 : 0 ≤ i
  · simp only [h0, if_true]
    rw [if_pos (by omega)]
  · have hbefore : ¬ i.natAbs ≤ xs.length := by omega
    simp only [h0, hbefore, if_false]

/-- A value written at an index reads back if the index is within reach; otherwise the write leaves
what is read there. -/
theorem readIndex_writeIndex_eq : (Writable i v.items.length ∧ readIndex i (writeIndex i v x) = x) ∨
    readIndex i (writeIndex i v x) = readIndex i v := by
  by_cases h : Writable i v.items.length
  · exact .inl ⟨h, readIndex_writeIndex h⟩
  · right
    simp only [readIndex, writeIndex, items_array, writeIndexItems_of_not_writable h]

end Indices

/-! ## Forks -/

/-- Two paths part at two different fields, behind a common part of fields and indices. -/
inductive Fork : List Segment → List Segment → Prop
  | field {a b : String} {p q : List Segment} : a ≠ b → Fork (.field a :: p) (.field b :: q)
  | cons {s : Segment} {p q : List Segment} : s.isSlice = false → Fork p q →
    Fork (s :: p) (s :: q)

theorem Fork.append {c p q : List Segment} (hc : ∀ s ∈ c, s.isSlice = false) (h : Fork p q) :
    Fork (c ++ p) (c ++ q) := by
  induction c with
  | nil => exact h
  | cons s c ih => exact .cons (hc s (by simp)) (ih fun t ht => hc t (by simp [ht]))

/-- A write through one prong of a fork leaves what the other one reads. -/
theorem Fork.extract_inject {p q : List Segment} (h : Fork p q) (v w : Value) :
    extract q (inject p v w) = extract q v := by
  induction h generalizing v w with
  | field hne =>
    rw [extract_field, extract_field, inject_field]
    refine fan_spread_of_frame fun u y _ hy => ⟨isArray_writeField, ?_⟩
    rw [member_writeField_of_ne hne.symm (inject_ne_undefined hy)]
  | @cons s p q hs h ih =>
    cases s with
    | field name =>
      rw [extract_field, extract_field, inject_field]
      refine fan_spread_of_frame fun u y _ hy => ⟨isArray_writeField, ?_⟩
      rw [member_writeField (inject_ne_undefined hy), ih]
    | index i =>
      by_cases hw : w = undefined
      · rw [hw, inject_undefined]
      rw [inject_index hw, extract, extract]
      rcases readIndex_writeIndex_eq (i := i) (v := v) (x := inject p (readIndex i v) w) with
        ⟨-, hback⟩ | hsame
      · rw [hback, ih]
      · rw [hsame]
    | slice s => cases hs

/-- A write through a path leaves what another one reads, if the two part at two different fields
behind a common part of fields and indices. What follows on either side is arbitrary. -/
theorem extract_inject_of_fork (c p q : List Segment) (a b : String) (v w : Value)
    (hc : ∀ s ∈ c, s.isSlice = false) (hne : a ≠ b) :
    extract (c ++ .field b :: q) (inject (c ++ .field a :: p) v w)
      = extract (c ++ .field b :: q) v :=
  (Fork.append hc (.field hne)).extract_inject v w

/-- A team of two, one of them without a number. -/
def crew : Value :=
  map [("teams", array [array [map [("id", int 1), ("name", string "Ann")],
    map [("name", string "Bo")]]])]

theorem extract_inject_crew :
    (∀ s ∈ [.field "teams", .index (-1)], Segment.isSlice s = false) ∧ "id" ≠ "name" ∧
    extract ([.field "teams", .index (-1)] ++ .field "name" :: [])
        (inject ([.field "teams", .index (-1)] ++ .field "id" :: [.index 3, .slice ⟨-1, some 2⟩])
          crew (array [int 7, array [int 8, int 9], undefined]))
      = extract ([.field "teams", .index (-1)] ++ .field "name" :: []) crew := by
  have hc : ∀ s ∈ [.field "teams", .index (-1)], Segment.isSlice s = false := by
    simp [Segment.isSlice]
  have hne : "id" ≠ "name" := by decide
  exact ⟨hc, hne, extract_inject_of_fork _ _ _ _ _ _ _ hc hne⟩

end Crosswalk
