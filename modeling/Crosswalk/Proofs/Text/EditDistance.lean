import Crosswalk.Text.EditDistance
import Mathlib.Order.Bounds.Basic

/-!
# Edit distance and edits

The distance that is computed row by row is the least number of edits that turn one text into the
other. A row holds the distances from the characters read so far to every beginning of the other
text, and a single edit changes the distance to a third text by one at most, so no series of edits
is shorter.

* `Edit`, `Edits`: one edit at any place, and a number of them one after the other.
* `distance`: the distance by recursion on both texts.
* `edits_distance`, `Edits.distance_le`: so many edits are enough, and fewer are not.
* `editDistance_eq`: the rows compute the distance of the texts read backward.
* `isLeast_edits`: the least number of edits.
* `distanceInTwoRows?_eq`: two rows that are written over in turns are enough.
-/

namespace Crosswalk.Text

/-! ## Edits -/

/-- One character more, one less, or another one in its place. -/
inductive Edit : List Char → List Char → Prop
  | insert (front : List Char) (c : Char) (back : List Char) :
    Edit (front ++ back) (front ++ c :: back)
  | delete (front : List Char) (c : Char) (back : List Char) :
    Edit (front ++ c :: back) (front ++ back)
  | substitute (front : List Char) (c d : Char) (back : List Char) :
    Edit (front ++ c :: back) (front ++ d :: back)

/-- A number of edits, one after the other. -/
inductive Edits : Nat → List Char → List Char → Prop
  | done (cs : List Char) : Edits 0 cs cs
  | edit {n : Nat} {cs ds es : List Char} : Edit cs ds → Edits n ds es → Edits (n + 1) cs es

section Edits

variable {m n : Nat} {c d : Char} {cs ds es : List Char}

theorem Edit.symm (h : Edit cs ds) : Edit ds cs := by
  cases h with
  | insert front c back => exact .delete front c back
  | delete front c back => exact .insert front c back
  | substitute front c d back => exact .substitute front d c back

theorem Edit.cons (c : Char) (h : Edit cs ds) : Edit (c :: cs) (c :: ds) := by
  cases h with
  | insert front d back => exact .insert (c :: front) d back
  | delete front d back => exact .delete (c :: front) d back
  | substitute front d e back => exact .substitute (c :: front) d e back

theorem Edit.reverse (h : Edit cs ds) : Edit cs.reverse ds.reverse := by
  cases h with
  | insert front c back => simpa using Edit.insert back.reverse c front.reverse
  | delete front c back => simpa using Edit.delete back.reverse c front.reverse
  | substitute front c d back => simpa using Edit.substitute back.reverse c d front.reverse

theorem Edits.trans (h : Edits m cs ds) (h' : Edits n ds es) : Edits (m + n) cs es := by
  induction h with
  | done cs => rwa [Nat.zero_add]
  | edit hedit _ ih =>
    rw [Nat.add_right_comm]
    exact .edit hedit (ih h')

theorem Edit.edits (h : Edit cs ds) : Edits 1 cs ds := .edit h (.done ds)

theorem Edits.symm (h : Edits n cs ds) : Edits n ds cs := by
  induction h with
  | done cs => exact .done cs
  | edit hedit _ ih => exact ih.trans hedit.symm.edits

theorem Edits.cons (c : Char) (h : Edits n cs ds) : Edits n (c :: cs) (c :: ds) := by
  induction h with
  | done cs => exact .done _
  | edit hedit _ ih => exact .edit (hedit.cons c) ih

theorem Edits.reverse (h : Edits n cs ds) : Edits n cs.reverse ds.reverse := by
  induction h with
  | done cs => exact .done _
  | edit hedit _ ih => exact .edit hedit.reverse ih

theorem edits_reverse_iff : Edits n cs.reverse ds.reverse ↔ Edits n cs ds :=
  ⟨fun h => by simpa using h.reverse, Edits.reverse⟩

theorem edits_zero_iff : Edits 0 cs ds ↔ cs = ds := by
  constructor
  · intro h
    cases h
    rfl
  · rintro rfl
    exact .done cs

end Edits

/-! ## The distance by recursion -/

/-- The distance by the first characters of both texts: one of them is left out, or the one stands
for the other. -/
def distance : List Char → List Char → Nat
  | [], ds => ds.length
  | c :: cs, [] => (c :: cs).length
  | c :: cs, d :: ds =>
    min (min (distance cs (d :: ds) + 1) (distance (c :: cs) ds + 1))
      (distance cs ds + if c = d then 0 else 1)
termination_by cs ds => cs.length + ds.length

section Distance

variable {n : Nat} {c d : Char} {cs ds es : List Char}

theorem distance_nil_left (ds : List Char) : distance [] ds = ds.length := by rw [distance]

theorem distance_nil_right (cs : List Char) : distance cs [] = cs.length := by
  cases cs <;> rw [distance]

theorem distance_cons_cons : distance (c :: cs) (d :: ds)
    = min (min (distance cs (d :: ds) + 1) (distance (c :: cs) ds + 1))
      (distance cs ds + if c = d then 0 else 1) := by rw [distance]

theorem distance_cons_left_le : distance (c :: cs) ds ≤ distance cs ds + 1 := by
  cases ds with
  | nil => simp [distance_nil_right]
  | cons d ds =>
    rw [distance_cons_cons]
    omega

theorem distance_cons_right_le : distance cs (d :: ds) ≤ distance cs ds + 1 := by
  cases cs with
  | nil => simp [distance_nil_left]
  | cons c cs =>
    rw [distance_cons_cons]
    omega

theorem distance_self (cs : List Char) : distance cs cs = 0 := by
  induction cs with
  | nil => rw [distance_nil_left, List.length_nil]
  | cons c cs ih =>
    rw [distance_cons_cons, ih, if_pos rfl]
    omega

/-! ### Enough edits -/

theorem edits_length : ∀ cs : List Char, Edits cs.length cs []
  | [] => .done []
  | c :: cs => .edit (.delete [] c cs) (edits_length cs)

theorem edits_distance (cs ds : List Char) : Edits (distance cs ds) cs ds := by
  fun_induction distance cs ds with
  | case1 ds => exact (edits_length ds).symm
  | case2 c cs => exact edits_length (c :: cs)
  | case3 c cs d ds hdelete hinsert hsubstitute =>
    -- The least of the three numbers is one of them.
    have hleast : ∀ a b k : Nat, min (min a b) k = a ∨ min (min a b) k = b ∨
        min (min a b) k = k := by omega
    rcases hleast (distance cs (d :: ds) + 1) (distance (c :: cs) ds + 1)
        (distance cs ds + if c = d then 0 else 1) with h | h | h <;> rw [h]
    · exact .edit (.delete [] c cs) hdelete
    · exact hinsert.trans (Edit.insert [] d ds).edits
    · by_cases hcd : c = d
      · subst hcd
        rw [if_pos rfl]
        exact hsubstitute.cons c
      · rw [if_neg hcd]
        exact (hsubstitute.cons c).trans (Edit.substitute [] c d ds).edits

/-! ### Not fewer -/

theorem distance_le_cons : distance cs es ≤ distance (c :: cs) es + 1 := by
  induction es with
  | nil =>
    simp only [distance_nil_right, List.length_cons]
    omega
  | cons e es ih =>
    have hinsert : distance cs (e :: es) ≤ distance cs es + 1 := distance_cons_right_le
    rw [distance_cons_cons]
    omega

theorem distance_cons_le_cons : distance (c :: cs) es ≤ distance (d :: cs) es + 1 := by
  induction es with
  | nil => simp [distance_nil_right]
  | cons e es ih =>
    simp only [distance_cons_cons]
    split <;> split <;> omega

/-- Texts that are near to each other are as near with a character before both. -/
theorem distance_cons_le (h : ∀ es, distance cs es ≤ distance ds es + 1) :
    distance (c :: cs) es ≤ distance (c :: ds) es + 1 := by
  induction es with
  | nil =>
    have hnil := h []
    simp only [distance_nil_right, List.length_cons] at hnil ⊢
    omega
  | cons e es ih =>
    have hrest := h es
    have hall := h (e :: es)
    rw [distance_cons_cons, distance_cons_cons]
    omega

theorem distance_append_le (h : ∀ es, distance cs es ≤ distance ds es + 1) (front : List Char) :
    ∀ es, distance (front ++ cs) es ≤ distance (front ++ ds) es + 1 := by
  induction front with
  | nil => exact h
  | cons c front ih => exact fun es => distance_cons_le ih

/-- One edit changes the distance to another text by one at most. -/
theorem Edit.distance_le (h : Edit cs ds) : distance cs es ≤ distance ds es + 1 := by
  cases h with
  | insert front c back => exact distance_append_le (fun _ => distance_le_cons) front es
  | delete front c back => exact distance_append_le (fun _ => distance_cons_left_le) front es
  | substitute front c d back =>
    exact distance_append_le (fun _ => distance_cons_le_cons) front es

theorem Edits.distance_le (h : Edits n cs ds) : distance cs ds ≤ n := by
  induction h with
  | done cs => rw [distance_self]
  | edit hedit _ ih => exact Nat.le_trans hedit.distance_le (Nat.succ_le_succ ih)

end Distance

/-! ## Rows -/

section Rows

variable {c : Char} {cs ds : List Char}

/-- The distances from `cs` to `before` with more and more characters of a text added to it. Both
are given backward, the character read last first. -/
def distancesFrom (cs before : List Char) : List Char → List Nat
  | [] => []
  | d :: ds => distance cs (d :: before) :: distancesFrom cs (d :: before) ds

theorem editCells_eq (c : Char) (cs before ds : List Char) :
    editCells c (distance (c :: cs) before) (distance cs before) (distancesFrom cs before ds) ds
      = distancesFrom (c :: cs) before ds := by
  induction ds generalizing before with
  | nil => rfl
  | cons d ds ih =>
    rw [distancesFrom, editCells, ← distance_cons_cons, ih]
    rfl

/-- The row of the characters read so far leads to the row with one more. -/
theorem editRow_eq (c : Char) (cs ds : List Char) :
    editRow ds (distance cs [] :: distancesFrom cs [] ds) c
      = distance (c :: cs) [] :: distancesFrom (c :: cs) [] ds := by
  have hfirst : distance cs [] + 1 = distance (c :: cs) [] := by simp [distance_nil_right]
  rw [editRow, hfirst, editCells_eq]

theorem distancesFrom_nil (before ds : List Char) :
    distancesFrom [] before ds = List.range' (before.length + 1) ds.length := by
  induction ds generalizing before with
  | nil => rfl
  | cons d ds ih =>
    rw [distancesFrom, ih, distance_nil_left, List.length_cons, List.length_cons,
      List.range'_succ]

theorem foldl_editRow (cs before ds : List Char) :
    cs.foldl (editRow ds) (distance before [] :: distancesFrom before [] ds)
      = distance (cs.reverse ++ before) [] :: distancesFrom (cs.reverse ++ before) [] ds := by
  induction cs generalizing before with
  | nil => rfl
  | cons c cs ih =>
    rw [List.foldl_cons, editRow_eq, ih, List.reverse_cons, List.append_assoc]
    rfl

theorem getLastD_distancesFrom (cs before ds : List Char) (n : Nat) :
    (distance cs before :: distancesFrom cs before ds).getLastD n
      = distance cs (ds.reverse ++ before) := by
  induction ds generalizing before n with
  | nil => rfl
  | cons d ds ih =>
    rw [distancesFrom, List.getLastD_cons, ih, List.reverse_cons, List.append_assoc]
    rfl

theorem range_eq (ds : List Char) :
    List.range (ds.length + 1) = distance [] [] :: distancesFrom [] [] ds := by
  rw [List.range_eq_range', List.range'_succ, distancesFrom_nil, distance_nil_left]
  rfl

/-- The rows compute the distance of the texts read backward. -/
theorem editDistance_eq (cs ds : List Char) :
    editDistance cs ds = distance cs.reverse ds.reverse := by
  rw [editDistance, range_eq, foldl_editRow, getLastD_distancesFrom, List.append_nil,
    List.append_nil]

/-- The distance is the least number of edits that turn one text into the other. -/
theorem isLeast_edits (cs ds : List Char) : IsLeast {n | Edits n cs ds} (editDistance cs ds) := by
  rw [editDistance_eq]
  refine ⟨edits_reverse_iff.mp (edits_distance _ _), fun n h => ?_⟩
  exact (edits_reverse_iff.mpr h).distance_le

-- Two substitutions and an insertion at the end.
example : editDistance "kitten".toList "sitting".toList = 3 := by decide

end Rows

/-! ## Two rows in turns -/

/-- An entry written over, given the row before: `place` is the place of `d`, and its entry stands
one further. None if a place is outside its row. -/
def writeCell? (c : Char) (prev curr : List Nat) (entry : Char × Nat) : Option (List Nat) := do
  let (d, place) := entry
  let up ← prev[place + 1]?
  let left ← curr[place]?
  let corner ← prev[place]?
  if place + 1 < curr.length then
    return curr.set (place + 1) (min (min (up + 1) (left + 1)) (corner + if c = d then 0 else 1))
  else none

/-- The row that is out of date is written over, and the two rows change their roles. -/
def writeRow? (ds : List Char) (rows : List Nat × List Nat) (entry : Char × Nat) :
    Option (List Nat × List Nat) := do
  let (prev, curr) := rows
  let (c, place) := entry
  if curr = [] then none
  else
    let written ← ds.zipIdx.foldlM (writeCell? c prev) (curr.set 0 (place + 1))
    return (written, prev)

/-- The distance computed in two rows that are written over in turns, the second one filled with
`stale` at first. -/
def distanceInTwoRows? (stale : Nat) (cs ds : List Char) : Option Nat := do
  let (last, _) ← cs.zipIdx.foldlM (writeRow? ds)
    (List.range (ds.length + 1), List.replicate (ds.length + 1) stale)
  last[ds.length]?

section TwoRows

variable {c : Char} {cs ds : List Char}

theorem length_editCells {left corner : Nat} {above : List Nat} (h : above.length = ds.length) :
    (editCells c left corner above ds).length = ds.length := by
  induction ds generalizing left corner above with
  | nil => cases above <;> rfl
  | cons d ds ih =>
    cases above with
    | nil => simp at h
    | cons up above =>
      rw [editCells, List.length_cons, List.length_cons, ih (by simpa using h)]

/-- What is left of a row is written over from left to right. Only entries of the row before and the
entry written last are read, never one that is out of date. -/
theorem foldlM_writeCell? (done : List Nat) {prev stale above : List Nat} {left corner : Nat}
    (hprev : prev.drop done.length = corner :: above) (habove : above.length = ds.length)
    (hstale : stale.length = ds.length) :
    (ds.zipIdx done.length).foldlM (writeCell? c prev) (done ++ left :: stale)
      = some (done ++ left :: editCells c left corner above ds) := by
  induction ds generalizing done left corner above stale with
  | nil =>
    obtain rfl := List.length_eq_zero_iff.mp hstale
    obtain rfl := List.length_eq_zero_iff.mp habove
    rfl
  | cons d ds ih =>
    obtain ⟨up, above, rfl⟩ := List.exists_cons_of_length_eq_add_one habove
    obtain ⟨old, stale, rfl⟩ := List.exists_cons_of_length_eq_add_one hstale
    have hcorner : prev[done.length]? = some corner := by
      rw [← Nat.add_zero done.length, ← List.getElem?_drop, hprev]
      rfl
    have hup : prev[done.length + 1]? = some up := by
      rw [← List.getElem?_drop, hprev]
      rfl
    have hcell : writeCell? c prev (done ++ left :: old :: stale) (d, done.length)
        = some ((done ++ [left]) ++ min (min (up + 1) (left + 1))
          (corner + if c = d then 0 else 1) :: stale) := by
      simp [writeCell?, hcorner, hup, List.set_append_right]
    have hnext : prev.drop (done ++ [left]).length = up :: above := by
      rw [List.length_append, List.length_singleton, ← List.drop_drop, hprev]
      rfl
    have hplace : done.length + 1 = (done ++ [left]).length := by simp
    rw [List.zipIdx_cons, List.foldlM_cons, hcell, editCells, hplace, Option.bind_eq_bind,
      Option.bind_some, ih (done ++ [left]) hnext (Nat.succ.inj habove) (Nat.succ.inj hstale),
      List.append_assoc]
    rfl

theorem writeRow?_eq {place : Nat} {above stale : List Nat} (habove : above.length = ds.length)
    (hstale : stale.length = ds.length + 1) : writeRow? ds (place :: above, stale) (c, place)
      = some (editRow ds (place :: above) c, place :: above) := by
  obtain ⟨old, stale, rfl⟩ := List.exists_cons_of_length_eq_add_one hstale
  have hcells : ds.zipIdx.foldlM (writeCell? c (place :: above)) ((old :: stale).set 0 (place + 1))
      = some ((place + 1) :: editCells c (place + 1) place above ds) :=
    foldlM_writeCell? [] rfl habove (Nat.succ.inj hstale)
  simp only [writeRow?, if_neg (List.cons_ne_nil old stale), hcells]
  rfl

theorem foldlM_writeRow? (cs : List Char) (place : Nat) {above stale : List Nat}
    (habove : above.length = ds.length) (hstale : stale.length = ds.length + 1) :
    ∃ rest : List Nat, (cs.zipIdx place).foldlM (writeRow? ds) (place :: above, stale)
      = some (cs.foldl (editRow ds) (place :: above), rest) := by
  induction cs generalizing place above stale with
  | nil => exact ⟨stale, rfl⟩
  | cons c cs ih =>
    have hcells : (editCells c (place + 1) place above ds).length = ds.length :=
      length_editCells habove
    have hrow : (place :: above).length = ds.length + 1 := congrArg (· + 1) habove
    obtain ⟨rest, hrest⟩ := ih (place + 1) hcells hrow
    refine ⟨rest, ?_⟩
    rw [List.zipIdx_cons, List.foldlM_cons, writeRow?_eq habove hstale]
    exact hrest

theorem length_distancesFrom (cs before ds : List Char) :
    (distancesFrom cs before ds).length = ds.length := by
  induction ds generalizing before with
  | nil => rfl
  | cons d ds ih => rw [distancesFrom, List.length_cons, List.length_cons, ih]

/-- Two rows that are written over in turns are enough: every place lies in its row, and what the
second row holds at first does not matter. -/
theorem distanceInTwoRows?_eq (stale : Nat) (cs ds : List Char) :
    distanceInTwoRows? stale cs ds = some (editDistance cs ds) := by
  have habove : (distancesFrom [] [] ds).length = ds.length := length_distancesFrom [] [] ds
  have hstale : (List.replicate (ds.length + 1) stale).length = ds.length + 1 :=
    List.length_replicate
  obtain ⟨rest, hrows⟩ := foldlM_writeRow? cs 0 habove hstale
  have hrange : List.range (ds.length + 1) = 0 :: distancesFrom [] [] ds := by
    rw [range_eq, distance_nil_left, List.length_nil]
  have hlast := foldl_editRow cs [] ds
  rw [distance_nil_left, List.length_nil] at hlast
  rw [distanceInTwoRows?, editDistance, hrange, hrows, hlast]
  have hend : ds.length = (distance (cs.reverse ++ []) [] ::
      distancesFrom (cs.reverse ++ []) [] ds).length - 1 := by
    rw [List.length_cons, length_distancesFrom]
    omega
  change (distance (cs.reverse ++ []) [] :: distancesFrom (cs.reverse ++ []) [] ds)[ds.length]? = _
  conv => lhs; rw [hend, ← List.getLast?_eq_getElem?]
  rw [List.getLastD_eq_getLast?, List.getLast?_cons]
  rfl

end TwoRows

end Crosswalk.Text
