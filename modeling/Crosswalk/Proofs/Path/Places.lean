import Crosswalk.Proofs.Path.ReadWrite

/-!
# Places apart from each other

A path that never fans out leads to one place. Two paths *diverge* if they part at two different
fields or at two different indices, and then a write through one of them leaves what the other one
reads, and leads to one place as before. So writes through paths that diverge pairwise can all be
read back in the end.

* `Singular`: no field of a path meets an array.
* `MemberPath`: fields and indices within reach of an empty array, the last of them a field.
* `Diverge.frame`: what a write leaves.
* `extract_writeAll`: what many writes leave.
-/

namespace Crosswalk

open Value

/-- A walk along a path never fans out: there is no slice on it, and no field meets an array. -/
def Singular : List Segment → Value → Prop
  | [], _ => True
  | .field name :: rest, v => v.isArray = false ∧ Singular rest (v.member name)
  | .index i :: rest, v => Singular rest (readIndex i v)
  | .slice _ :: _, _ => False

/-- Two paths part at two different fields or at two different indices. -/
inductive Diverge : List Segment → List Segment → Prop
  | field {a b : String} {p q : List Segment} : a ≠ b → Diverge (.field a :: p) (.field b :: q)
  | index {i j : Int} {p q : List Segment} : i ≠ j → Diverge (.index i :: p) (.index j :: q)
  | cons (s : Segment) {p q : List Segment} : Diverge p q → Diverge (s :: p) (s :: q)

/-- A field, or an index from the front that a write to an empty array reaches. -/
def Segment.InReach : Segment → Prop
  | .field _ => True
  | .index i => 0 ≤ i ∧ i ≤ maxPadding
  | .slice _ => False

/-- A path of fields and of indices within reach that ends in a field. -/
structure MemberPath (p : List Segment) : Prop where
  inReach : ∀ s ∈ p, s.InReach
  ends : ∃ name, p.getLast? = some (.field name)

/-! ## Paths to members -/

theorem Diverge.symm {p q : List Segment} (h : Diverge p q) : Diverge q p := by
  induction h with
  | field hne => exact .field hne.symm
  | index hne => exact .index hne.symm
  | cons s _ ih => exact .cons s ih

theorem Diverge.ne_nil {p q : List Segment} (h : Diverge p q) : p ≠ [] := by
  cases h <;> simp

theorem MemberPath.tail {s : Segment} {p : List Segment} (h : MemberPath (s :: p))
    (hp : p ≠ []) : MemberPath p where
  inReach t ht := h.inReach t (by simp [ht])
  ends := by
    obtain ⟨name, hlast⟩ := h.ends
    exact ⟨name, by rwa [List.getLast?_cons_of_ne_nil hp] at hlast⟩

/-- An index is never the last segment. -/
theorem MemberPath.tail_of_index {i : Int} {p : List Segment} (h : MemberPath (.index i :: p)) :
    MemberPath p := by
  refine h.tail ?_
  rintro rfl
  obtain ⟨name, hlast⟩ := h.ends
  simp at hlast

theorem MemberPath.writable {i : Int} {p : List Segment} (h : MemberPath (.index i :: p))
    (n : Nat) : Writable i n := by
  have hi : 0 ≤ i ∧ i ≤ maxPadding := h.inReach (.index i) (by simp)
  exact .inl ⟨hi.1, by omega⟩

theorem MemberPath.sliceFree {p : List Segment} (h : MemberPath p) :
    ∀ s ∈ p, s.isSlice = false := by
  intro s hs
  have := h.inReach s hs
  cases s <;> simp_all [Segment.InReach, Segment.isSlice]

/-! ## Values with nothing in them -/

section Vacant

variable {p : List Segment} {v : Value}

theorem member_of_members_nil (h : v.members = []) (name : String) :
    v.member name = undefined := by
  simp [member, h]

theorem readIndex_of_items_nil (h : v.items = []) (i : Int) : readIndex i v = undefined := by
  simp only [readIndex, h]
  split <;> simp

theorem singular_undefined (h : ∀ s ∈ p, s.isSlice = false) : Singular p undefined := by
  induction p with
  | nil => trivial
  | cons s rest ih =>
    have hrest := ih fun t ht => h t (by simp [ht])
    cases s with
    | field name => exact ⟨rfl, hrest⟩
    | index i => rw [Singular, readIndex_of_items_nil rfl]; exact hrest
    | slice s => simp [Segment.isSlice] at h

/-- A path to a member leads nowhere in a value without elements and members. -/
theorem MemberPath.vacant (h : MemberPath p) (hv : v.isArray = false) (hitems : v.items = [])
    (hmembers : v.members = []) : Singular p v ∧ extract p v = undefined := by
  cases p with
  | nil => obtain ⟨name, hlast⟩ := h.ends; simp at hlast
  | cons s rest =>
    have hfree : ∀ t ∈ rest, t.isSlice = false := fun t ht => h.sliceFree t (by simp [ht])
    have hnone := extract_undefined (slicesMeetArrays_of_sliceFree hfree undefined)
    cases s with
    | field name =>
      rw [Singular, extract_field_of_leaf hv, member_of_members_nil hmembers]
      exact ⟨⟨hv, singular_undefined hfree⟩, hnone⟩
    | index i =>
      rw [Singular, extract, readIndex_of_items_nil hitems]
      exact ⟨singular_undefined hfree, hnone⟩
    | slice s => exact (h.inReach (.slice s) (by simp)).elim

end Vacant

/-! ## One write -/

section OneWrite

variable {p q : List Segment} {v w : Value}

/-- Any defined value is aligned where a path leads to one place. -/
theorem Singular.aligned (h : Singular p v) (hp : ∀ s ∈ p, s.InReach) (hw : w ≠ undefined) :
    Aligned p v w := by
  induction p generalizing v with
  | nil => exact hw
  | cons s rest ih =>
    have hrest : ∀ t ∈ rest, t.InReach := fun t ht => hp t (by simp [ht])
    cases s with
    | field name => exact (aligned_field_of_leaf h.1).mpr (ih h.2 hrest)
    | index i =>
      have hi : 0 ≤ i ∧ i ≤ maxPadding := hp (.index i) (by simp)
      exact ⟨.inl ⟨hi.1, by omega⟩, ih h hrest⟩
    | slice s => exact h.elim

/-- A path that leads to one place still does after a write through it. -/
theorem Singular.inject (h : Singular p v) (hp : ∀ s ∈ p, s.InReach) :
    Singular p (inject p v w) := by
  by_cases hw : w = undefined
  · rwa [hw, inject_undefined]
  induction p generalizing v with
  | nil => trivial
  | cons s rest ih =>
    have hrest : ∀ t ∈ rest, t.InReach := fun t ht => hp t (by simp [ht])
    cases s with
    | field name =>
      have hdef := inject_ne_undefined (p := rest) (v := v.member name) hw
      rw [inject_field_of_leaf h.1 hw, Singular, member_writeField hdef]
      exact ⟨isArray_writeField, ih h.2 hrest⟩
    | index i =>
      have hi : 0 ≤ i ∧ i ≤ maxPadding := hp (.index i) (by simp)
      rw [inject_index hw, Singular, readIndex_writeIndex (.inl ⟨hi.1, by omega⟩)]
      exact ih h hrest
    | slice s => exact h.elim

/-- A write through one of two diverging paths leaves what the other one reads, and leads to one
place as before. -/
theorem Diverge.frame (h : Diverge p q) (hp : MemberPath p) (hq : MemberPath q)
    (hv : Singular q v) :
    Singular q (inject p v w) ∧ extract q (inject p v w) = extract q v := by
  by_cases hw : w = undefined
  · rw [hw, inject_undefined]
    exact ⟨hv, rfl⟩
  induction h generalizing v with
  | @field a b p q hne =>
    have hdef := inject_ne_undefined (p := p) (v := v.member a) hw
    rw [inject_field_of_leaf hv.1 hw, Singular, extract_field_of_leaf isArray_writeField,
      extract_field_of_leaf hv.1, member_writeField_of_ne hne.symm hdef]
    exact ⟨⟨isArray_writeField, hv.2⟩, rfl⟩
  | @index i j p q hne =>
    have hi : 0 ≤ i ∧ i ≤ maxPadding := hp.inReach (.index i) (by simp)
    have hj : 0 ≤ j ∧ j ≤ maxPadding := hq.inReach (.index j) (by simp)
    rw [inject_index hw, Singular, extract, extract]
    rcases readIndex_writeIndex_of_ne (x := inject p (readIndex i v) w) hi.1 hj.1 hne with
      hsame | ⟨hnull, hmissing⟩
    · rw [hsame]
      exact ⟨hv, rfl⟩
    · obtain ⟨hsing, hnone⟩ := hq.tail_of_index.vacant (v := null) rfl rfl rfl
      obtain ⟨-, hnone'⟩ := hq.tail_of_index.vacant (v := undefined) rfl rfl rfl
      rw [hnull, hmissing, hnone, hnone']
      exact ⟨hsing, rfl⟩
  | @cons s p q h ih =>
    have ih' := fun {u : Value} (hu : Singular q u) =>
      ih (v := u) (hp.tail h.ne_nil) (hq.tail h.symm.ne_nil) hu
    cases s with
    | field name =>
      have hdef := inject_ne_undefined (p := p) (v := v.member name) hw
      rw [inject_field_of_leaf hv.1 hw, Singular, extract_field_of_leaf isArray_writeField,
        extract_field_of_leaf hv.1, member_writeField hdef]
      exact ⟨⟨isArray_writeField, (ih' hv.2).1⟩, (ih' hv.2).2⟩
    | index i =>
      rw [inject_index hw, Singular, extract, extract, readIndex_writeIndex (hp.writable _)]
      exact ih' hv
    | slice s => exact hv.elim

end OneWrite

/-! ## Many writes -/

/-- Values written through paths, one after the other. -/
def writeAll (v : Value) (writes : List (List Segment × Value)) : Value :=
  writes.foldl (fun v write => inject write.1 v write.2) v

/-- Writes through paths that all diverge from another one leave what that one reads. -/
theorem extract_writeAll_of_diverge {q : List Segment} {writes : List (List Segment × Value)}
    {v : Value} (hq : MemberPath q) (hpaths : ∀ w ∈ writes, MemberPath w.1)
    (hdiv : ∀ w ∈ writes, Diverge w.1 q) (hv : Singular q v) :
    extract q (writeAll v writes) = extract q v := by
  induction writes generalizing v with
  | nil => rfl
  | cons a rest ih =>
    obtain ⟨hsing, hsame⟩ := (hdiv a (by simp)).frame (w := a.2) (hpaths a (by simp)) hq hv
    exact (ih (fun w hw => hpaths w (by simp [hw])) (fun w hw => hdiv w (by simp [hw])) hsing).trans
      hsame

/-- After writes through paths that diverge pairwise, to places where nothing was before, every
value reads back, missing ones included. -/
theorem extract_writeAll {writes : List (List Segment × Value)} {v : Value}
    (hpaths : ∀ w ∈ writes, MemberPath w.1)
    (hdiv : writes.Pairwise fun a b => Diverge a.1 b.1)
    (hsing : ∀ w ∈ writes, Singular w.1 v) (hnone : ∀ w ∈ writes, extract w.1 v = undefined) :
    ∀ w ∈ writes, extract w.1 (writeAll v writes) = w.2 := by
  induction writes generalizing v with
  | nil => simp
  | cons a rest ih =>
    obtain ⟨hfirst, hrest⟩ := List.pairwise_cons.mp hdiv
    have hpa := hpaths a (by simp)
    have hpaths' : ∀ w ∈ rest, MemberPath w.1 := fun w hw => hpaths w (by simp [hw])
    have hframe : ∀ w ∈ rest, Singular w.1 (inject a.1 v a.2) ∧
        extract w.1 (inject a.1 v a.2) = extract w.1 v := fun w hw =>
      (hfirst w hw).frame hpa (hpaths' w hw) (hsing w (by simp [hw]))
    have hread : extract a.1 (inject a.1 v a.2) = a.2 := by
      by_cases hdef : a.2 = undefined
      · rw [hdef, inject_undefined, hnone a (by simp)]
      · exact extract_inject_of_aligned ((hsing a (by simp)).aligned hpa.inReach hdef)
    intro w hw
    rcases List.mem_cons.mp hw with rfl | hw
    · exact (extract_writeAll_of_diverge hpa hpaths' (fun b hb => (hfirst b hb).symm)
        ((hsing w (by simp)).inject hpa.inReach)).trans hread
    · exact ih hpaths' hrest (fun b hb => (hframe b hb).1)
        (fun b hb => (hframe b hb).2.trans (hnone b (by simp [hb]))) w hw

end Crosswalk
