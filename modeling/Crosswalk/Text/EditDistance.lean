/-!
# Edit distance

* `editDistance`: the least number of insertions, deletions and substitutions of single characters
  that turn one text into another, computed row by row.
-/

namespace Crosswalk.Text

/-- The rest of a row: `corner` and `above` are the distances of the row before at this place and
after it, `left` is the distance just found. -/
def editCells (c : Char) : (left corner : Nat) → (above : List Nat) → List Char → List Nat
  | left, corner, up :: above, d :: ds =>
    let cell := min (min (up + 1) (left + 1)) (corner + if c = d then 0 else 1)
    cell :: editCells c cell up above ds
  | _, _, _, _ => []

/-- The distances from a text with `c` added to every beginning of `ds`, given those without. -/
def editRow (ds : List Char) (row : List Nat) (c : Char) : List Nat :=
  match row with
  | [] => []
  | corner :: above => (corner + 1) :: editCells c (corner + 1) corner above ds

/-- The distance between two texts: the last entry of the last row. -/
def editDistance (cs ds : List Char) : Nat :=
  (cs.foldl (editRow ds) (List.range (ds.length + 1))).getLastD 0

end Crosswalk.Text
