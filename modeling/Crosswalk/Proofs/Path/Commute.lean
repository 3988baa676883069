import Crosswalk.Proofs.Path.Frame
import Crosswalk.Proofs.Path.Places
import Crosswalk.Proofs.Value.Alike

/-!
# Writes in another order

Two writes through paths that fork lead to the same document in either order, up to the order of
members: each of them leaves what the other one reads, and both make the same containers, fill up
the same arrays and leave the same writes undone on the common part. Since a write takes alike
documents to alike ones, any number of writes through paths that fork pairwise can be put in any
order.

* `Alike.spread`, `Alike.writeIndex`, `Alike.writeSlice`, `Alike.inject`: writes take alike values
  to alike ones.
* `alike_spread_spread`: two writings that commute at every leaf commute when they fan out.
* `Fork.alike_inject_inject`: two writes commute.
* `alike_writeAll_of_perm`: many writes can be put in any order.
-/

namespace Crosswalk

open Value

/-! ## One segment -/

section Segments

variable {v w x y : Value} {xs ys vs ws : List Value} {s : Slice} {i : Int}

theorem Value.Alike.isArray_eq (h : Alike v w) : v.isArray = w.isArray := by
  cases h <;> rfl

theorem Value.Alike.readIndex (h : Alike v w) (i : Int) :
    Alike (readIndex i v) (readIndex i w) := by
  obtain ⟨hlen, hall⟩ := forall₂_alike_iff.mp h.items
  simp only [Crosswalk.readIndex, hlen]
  split
  · exact hall _
  · exact .refl _

theorem forall₂_set {p : Nat} (h : List.Forall₂ Alike xs ys) (hx : Alike x y) :
    List.Forall₂ Alike (xs.set p x) (ys.set p y) := by
  induction h generalizing p with
  | nil => exact .nil
  | cons hab hrest ih =>
    cases p with
    | zero => exact .cons hx hrest
    | succ p => exact .cons hab ih

theorem isEmpty_of_forall₂ (h : List.Forall₂ Alike xs ys) : xs.isEmpty = ys.isEmpty := by
  cases h <;> rfl

theorem forall₂_nulls (n : Nat) :
    List.Forall₂ Alike (List.replicate n null) (List.replicate n null) :=
  List.forall₂_same.mpr fun x _ => .refl x

theorem Value.Alike.writeIndex (h : Alike v w) (hx : Alike x y) :
    Alike (writeIndex i v x) (writeIndex i w y) := by
  refine alike_array_iff.mpr ⟨_, rfl, ?_⟩
  have hitems := h.items
  simp only [writeIndexItems, ← hitems.length_eq]
  split
  · exact hitems
  · split
    · exact hitems
    · split
      · exact forall₂_set hitems hx
      · exact List.rel_append (List.rel_append hitems (forall₂_nulls _)) (.cons hx .nil)

namespace Slice

theorem forall₂_orient (h : List.Forall₂ Alike vs ws) :
    List.Forall₂ Alike (s.orient vs) (s.orient ws) := by
  unfold orient
  split
  · exact List.rel_reverse h
  · exact h

theorem forall₂_read (h : Alike v w) : List.Forall₂ Alike (s.read v) (s.read w) := by
  rw [read_eq, read_eq, inside, inside, ← h.items.length_eq]
  exact forall₂_orient (List.forall₂_take _ (List.forall₂_drop _ h.items))

theorem forall₂_landing (h : List.Forall₂ Alike vs ws) (n : Nat) :
    List.Forall₂ Alike (s.landing n vs) (s.landing n ws) := by
  have hline : List.Forall₂ Alike (s.lineUp vs) (s.lineUp ws) := by
    refine forall₂_orient ?_
    split
    · exact List.forall₂_take _ h
    · exact h
  simp only [landing, hline.length_eq]
  exact List.forall₂_take _ (List.forall₂_drop _ hline)

theorem forall₂_splice (h : List.Forall₂ Alike xs ys) (hmid : List.Forall₂ Alike vs ws)
    (first : Nat) : List.Forall₂ Alike (splice xs first vs) (splice ys first ws) := by
  rw [splice, splice, h.length_eq, hmid.length_eq]
  exact List.rel_append (List.rel_append (List.rel_append (List.forall₂_take _ h)
    (forall₂_nulls _)) hmid) (List.forall₂_drop _ h)

end Slice

theorem Value.Alike.writeSlice (h : Alike v w) (hvs : List.Forall₂ Alike vs ws) :
    Alike (s.write v (.array vs)) (s.write w (.array ws)) := by
  refine alike_array_iff.mpr ⟨_, rfl, ?_⟩
  have hland := Slice.forall₂_landing (s := s) hvs v.items.length
  simp only [entries_array, Slice.writeItems, ← h.items.length_eq, isEmpty_of_forall₂ hland]
  split
  · exact h.items
  · exact Slice.forall₂_splice h.items hland _

end Segments

/-! ## Fanning out -/

section Fanning

variable {f g : Value → Value → Value} {v v' w x : Value}

/-- Two arrays are alike if the same is done to alike elements. -/
theorem alike_mapIdx {xs ys : List Value} {f g : Nat → Value → Value}
    (hlen : xs.length = ys.length)
    (h : ∀ (i : Nat) (hx : i < xs.length) (hy : i < ys.length), Alike (f i xs[i]) (g i ys[i])) :
    Alike (array (xs.mapIdx f)) (array (ys.mapIdx g)) := by
  refine .array (by simpa using hlen) fun i => ?_
  rw [List.getElem?_mapIdx, List.getElem?_mapIdx]
  by_cases hi : i < xs.length
  · rw [List.getElem?_eq_getElem hi, List.getElem?_eq_getElem (hlen ▸ hi)]
    exact h i hi (hlen ▸ hi)
  · rw [List.getElem?_eq_none (by omega), List.getElem?_eq_none (by omega)]
    exact .refl _

/-- A writing that takes alike leaves to alike values takes alike values to alike ones when it fans
out. -/
theorem Value.Alike.spread
    (hg : ∀ u u' y, u.isArray = false → y ≠ undefined → Alike u u' → Alike (g u y) (g u' y))
    (h : Alike v v') : Alike (spread g v w) (spread g v' w) := by
  induction v using arrayInduct generalizing v' w with
  | array xs ih =>
    obtain ⟨ys, rfl, hall⟩ := alike_array_iff.mp h
    rw [spread_array, spread_array]
    refine alike_mapIdx hall.length_eq fun i hx hy => ?_
    exact ih _ (List.getElem_mem hx) (hall.get hx hy)
  | leaf v hleaf =>
    by_cases hw : w = .undefined
    · rwa [hw, spread_undefined, spread_undefined]
    · rw [spread_of_leaf hleaf hw, spread_of_leaf (h.isArray_eq ▸ hleaf) hw]
      exact hg v v' w hleaf hw h

/-- Two writings that commute at every leaf, and leave it a leaf, commute when they fan out. -/
theorem alike_spread_spread
    (h : ∀ u y z, u.isArray = false → y ≠ undefined → z ≠ undefined →
      (g u y).isArray = false ∧ (f u z).isArray = false ∧ Alike (f (g u y) z) (g (f u z) y)) :
    Alike (spread f (spread g v w) x) (spread g (spread f v x) w) := by
  induction v using arrayInduct generalizing w x with
  | array xs ih =>
    simp only [spread_array, List.mapIdx_mapIdx]
    exact alike_mapIdx rfl fun i hi _ => ih _ (List.getElem_mem hi)
  | leaf v hleaf =>
    by_cases hw : w = undefined
    · rw [hw, spread_undefined, spread_undefined]
      exact .refl _
    by_cases hx : x = undefined
    · rw [hx, spread_undefined, spread_undefined]
      exact .refl _
    obtain ⟨hg, hf, hcomm⟩ := h v w x hleaf hw hx
    rwa [spread_of_leaf hleaf hw, spread_of_leaf hg hx, spread_of_leaf hleaf hx,
      spread_of_leaf hf hw]

end Fanning

/-! ## Whole paths -/

section Paths

variable {p q : List Segment} {v v' w x : Value}

theorem forall₂_zipWith {f : Value → Value → Value} {xs ys bs : List Value}
    (h : List.Forall₂ Alike xs ys) (hf : ∀ x y b, Alike x y → Alike (f x b) (f y b)) :
    List.Forall₂ Alike (List.zipWith f xs bs) (List.zipWith f ys bs) := by
  induction h generalizing bs with
  | nil => exact .nil
  | cons hxy _ ih =>
    cases bs with
    | nil => exact .nil
    | cons b bs => exact .cons (hf _ _ b hxy) ih

theorem forall₂_pairUp {f : Value → Value → Value} {xs ys bs : List Value}
    (h : List.Forall₂ Alike xs ys) (hf : ∀ x y b, Alike x y → Alike (f x b) (f y b)) :
    List.Forall₂ Alike (pairUp f xs bs) (pairUp f ys bs) := by
  rw [pairUp, pairUp, ← h.length_eq]
  exact forall₂_zipWith (List.rel_append h (List.forall₂_same.mpr fun x _ => .refl x)) hf

/-- A write takes alike documents to alike ones. -/
theorem Value.Alike.inject (h : Alike v v') : Alike (inject p v w) (inject p v' w) := by
  by_cases hw : w = .undefined
  · rwa [hw, inject_undefined, inject_undefined]
  induction p generalizing v v' w with
  | nil =>
    simp only [Crosswalk.inject]
    split
    · exact h
    · exact .refl _
  | cons s rest ih =>
    cases s with
    | field name =>
      rw [inject_field, inject_field]
      refine h.spread fun u u' y _ hy hu => ?_
      rw [writeField_of_defined (inject_ne_undefined hy),
        writeField_of_defined (inject_ne_undefined hy)]
      exact hu.put (ih (hu.member name) hy)
    | index i =>
      rw [inject_index hw, inject_index hw]
      exact h.writeIndex (ih (h.readIndex i) hw)
    | slice s =>
      rw [inject_slice hw, inject_slice hw]
      refine h.writeSlice (forall₂_pairUp (Slice.forall₂_read h) fun x y b hxy => ?_)
      by_cases hb : b = .undefined
      · rwa [hb, inject_undefined, inject_undefined]
      · exact ih hxy hb

theorem Fork.symm (h : Fork p q) : Fork q p := by
  induction h with
  | field hne => exact .field hne.symm
  | cons hs _ ih => exact .cons hs ih

/-- Two writes through the prongs of a fork, in either order. -/
theorem Fork.alike_inject_inject (h : Fork p q) (v w x : Value) :
    Alike (inject q (inject p v w) x) (inject p (inject q v x) w) := by
  induction h generalizing v w x with
  | @field a b p q hne =>
    simp only [inject_field]
    refine alike_spread_spread fun u y z _ hy hz => ⟨isArray_writeField, isArray_writeField, ?_⟩
    have hdefp := inject_ne_undefined (p := p) (v := u.member a) hy
    have hdefq := inject_ne_undefined (p := q) (v := u.member b) hz
    rw [member_writeField_of_ne hne.symm hdefp, member_writeField_of_ne hne hdefq,
      writeField_of_defined hdefp, writeField_of_defined hdefq, writeField_of_defined hdefp,
      writeField_of_defined hdefq]
    exact alike_put_put hne
  | @cons s p q hs _ ih =>
    cases s with
    | field name =>
      simp only [inject_field]
      refine alike_spread_spread fun u y z _ hy hz =>
        ⟨isArray_writeField, isArray_writeField, ?_⟩
      have hdefp := inject_ne_undefined (p := p) (v := u.member name) hy
      have hdefq := inject_ne_undefined (p := q) (v := u.member name) hz
      have hdefpq := inject_ne_undefined (p := q) (v := inject p (u.member name) y) hz
      have hdefqp := inject_ne_undefined (p := p) (v := inject q (u.member name) z) hy
      rw [member_writeField hdefp, member_writeField hdefq, writeField_writeField hdefp hdefpq,
        writeField_writeField hdefq hdefqp, writeField_of_defined hdefpq,
        writeField_of_defined hdefqp]
      exact (Alike.refl u).put (ih _ y z)
    | index i =>
      by_cases hw : w = undefined
      · rw [hw, inject_undefined, inject_undefined]
        exact .refl _
      by_cases hx : x = undefined
      · rw [hx, inject_undefined, inject_undefined]
        exact .refl _
      rw [inject_index hw, inject_index hx, inject_index hx, inject_index hw]
      by_cases hi : Writable i v.items.length
      · rw [readIndex_writeIndex hi, readIndex_writeIndex hi, writeIndex_writeIndex hi,
          writeIndex_writeIndex hi]
        exact (Alike.refl v).writeIndex (ih _ w x)
      · simp only [writeIndex, items_array, writeIndexItems_of_not_writable hi]
        exact .refl _
    | slice s => cases hs

/-! ## Many writes -/

theorem Value.Alike.writeAll (h : Alike v v') (writes : List (List Segment × Value)) :
    Alike (writeAll v writes) (writeAll v' writes) := by
  induction writes generalizing v v' with
  | nil => exact h
  | cons a rest ih => exact ih h.inject

/-- Writes through paths that fork pairwise lead to alike documents in any order. -/
theorem alike_writeAll_of_perm {writes writes' : List (List Segment × Value)}
    (hperm : writes.Perm writes') (hfork : writes.Pairwise fun a b => Fork a.1 b.1) (v : Value) :
    Alike (writeAll v writes) (writeAll v writes') := by
  induction hperm generalizing v with
  | nil => exact .refl v
  | cons a _ ih => exact ih (List.pairwise_cons.mp hfork).2 _
  | swap a b rest =>
    have hab : Fork b.1 a.1 := (List.pairwise_cons.mp hfork).1 a (by simp)
    exact (hab.alike_inject_inject v b.2 a.2).writeAll rest
  | trans hfirst _ ih ih' =>
    exact (ih hfork v).trans (ih' (hfirst.pairwise hfork fun hab => hab.symm) v)

end Paths

end Crosswalk
