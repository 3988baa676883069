import Crosswalk.Plan.Converter
import Crosswalk.Path.Basic

/-!
# Plans

A rule says how one part of a document on the left belongs to one part of a document on the right. A
link is a rule whose paths have been read and whose converters have been found, and a plan is a list
of links with an order for each direction.

* `Rule.sides`: what the two sides of a rule are, or why it has none.
* `Link.ends`: the source and the destination of a link in a direction.
* `Plan.along`: the links of a plan in the order in which they run in a direction.
-/

namespace Crosswalk

/-- A rule as it is declared. The literal takes the place of the path that is missing. -/
structure Rule where
  left : Option String
  right : Option String
  literal : Option Value
  transform : Option Converter
  format : Option String

/-- A side of a rule before its path is read. -/
inductive SideText where
  | path (text : String)
  | literal (v : Value)

/-- Why a rule does not have two sides. -/
inductive SideFault where
  | noPath
  | literalBesidePaths
  | noLeft
  | noRight
deriving DecidableEq, Repr

def SideFault.message : SideFault → String
  | noPath => "rule names neither a left nor a right path"
  | literalBesidePaths => "literal given but both sides already have a path"
  | noLeft => "left side needs a path or a literal"
  | noRight => "right side needs a path or a literal"

/-- The two sides of a rule: two paths, or a path and the literal. -/
def Rule.sides (r : Rule) : Except SideFault (SideText × SideText) :=
  match r.left, r.right, r.literal with
  | none, none, _ => .error .noPath
  | some _, some _, some _ => .error .literalBesidePaths
  | none, some _, none => .error .noLeft
  | some _, none, none => .error .noRight
  | some l, some r, none => .ok (.path l, .path r)
  | some l, none, some v => .ok (.path l, .literal v)
  | none, some r, some v => .ok (.literal v, .path r)

/-- A side of a link. -/
inductive Side where
  | path (p : Path)
  | literal (v : Value)

/-- A rule that is ready to run. -/
structure Link where
  /-- The place of the rule in its plan. -/
  index : Nat
  left : Side
  right : Side
  transform : Option Converter
  /-- A converter with its name. -/
  format : Option (String × Converter)

/-- The source and the destination of a link. -/
def Link.ends (l : Link) : Direction → Side × Side
  | .toRight => (l.left, l.right)
  | .toLeft => (l.right, l.left)

/-- Links in the order of their rules, and the order in which they run in each direction. -/
structure Plan where
  links : List Link
  order : OrderPolicy

/-- The links in the order in which they run. -/
def Plan.along (p : Plan) (d : Direction) : List Link := (p.order.along d).arrange p.links

end Crosswalk
