import Crosswalk.Path.Parser

/-!
# Remembered paths

* `PathMemo.parse`: a text is read once; asking again gives the path that was read. A refused text
  is not remembered.
-/

namespace Crosswalk

/-- Paths by the texts they were read from. -/
structure PathMemo where
  paths : List (String × Path)
deriving DecidableEq, Repr

namespace PathMemo

def empty : PathMemo := ⟨[]⟩

/-- The number of texts remembered. -/
def size (m : PathMemo) : Nat := m.paths.length

def isEmpty (m : PathMemo) : Bool := m.paths.isEmpty

/-- The path of a text, and the memo that knows it from then on. -/
def parse (m : PathMemo) (text : String) : Except PathFault (Path × PathMemo) :=
  match m.paths.lookup text with
  | some path => .ok (path, m)
  | none => (Path.parse text).map fun path => (path, ⟨(text, path) :: m.paths⟩)

end PathMemo

end Crosswalk
