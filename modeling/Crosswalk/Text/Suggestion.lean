import Crosswalk.Text.EditDistance
import Crosswalk.Text.Lower

/-!
# Suggestions

* `closest?`: the earliest of the candidates nearest to a text, case aside, within a bound.
-/

namespace Crosswalk.Text

/-- The distance of two texts, case aside. -/
def caselessDistance (s t : String) : Nat :=
  editDistance (lower s).toList (lower t).toList

/-- The earliest of the entries with the least key. -/
def firstLeast {α : Type} : List (Nat × α) → Option (Nat × α)
  | [] => none
  | (key, a) :: rest =>
    match firstLeast rest with
    | some (best, b) => if best < key then some (best, b) else some (key, a)
    | none => some (key, a)

/-- The nearest candidate, if it is within `bound` edits; of equally near ones the earliest. -/
def closest? (bound : Nat) (candidates : List String) (input : String) : Option String :=
  let keyed := candidates.map fun c => (caselessDistance input c, c)
  (firstLeast (keyed.filter fun entry => entry.1 ≤ bound)).map Prod.snd

end Crosswalk.Text
