import Crosswalk.Plan.Basic
import Crosswalk.Path.Access
import Crosswalk.Value.Merge

/-!
# Running plans

Every rule reads its source and writes its destination, one rule after the other, into a document
that is empty at first.

* `Link.convert`: a value on its way: through the transform and then the format to the right, and
  the other way round to the left. What is missing stays missing.
* `Link.apply`: the document with what one link writes. A literal is no destination.
* `Plan.run`: the document that a plan makes of another one. Overrides are merged over it in the
  end.
-/

namespace Crosswalk

/-- What a side leads to in a document. -/
def Side.read (document : Value) : Side → Value
  | path p => extract p.segments document
  | literal v => v

namespace Link

/-- A value through the transform of a link, if it has one. -/
def applyTransform (l : Link) (d : Direction) (v : Value) : Outcome Value :=
  match l.transform with
  | none => .ok v
  | some c =>
    match c.apply d v with
    | .ok v => .ok v
    | .error m => .error (.conversion ("rule " ++ Decimal.ofNatText l.index ++ " transform") m)

/-- A value through the format of a link, if it has one. -/
def applyFormat (l : Link) (d : Direction) (v : Value) : Outcome Value :=
  match l.format with
  | none => .ok v
  | some (name, c) =>
    match c.apply d v with
    | .ok v => .ok v
    | .error m => .error (.conversion name m)

/-- A value on its way from the source of a link to its destination. -/
def convert (l : Link) (d : Direction) (v : Value) : Outcome Value :=
  if v.isUndefined then .ok v
  else
    match d with
    | .toRight => (l.applyTransform d v).bind (l.applyFormat d)
    | .toLeft => (l.applyFormat d v).bind (l.applyTransform d)

/-- A document with what a link brings into it from another one. -/
def apply (l : Link) (d : Direction) (document target : Value) : Outcome Value :=
  match l.ends d with
  | (_, .literal _) => .ok target
  | (source, .path p) =>
    (l.convert d (source.read document)).map fun v => inject p.segments target v

end Link

/-- A document with what links bring into it from another one, one after the other. -/
def applyLinks (d : Direction) (document : Value) : (target : Value) → List Link → Outcome Value
  | target, [] => .ok target
  | target, l :: rest =>
    match l.apply d document target with
    | .error e => .error e
    | .ok target => applyLinks d document target rest

/-- A document with overrides merged over it, if there are any. -/
def withOverrides (overrides : Option Value) (v : Value) : Value :=
  match overrides with
  | none => v
  | some o => v.merge o

/-- The document that a plan makes of another one. -/
def Plan.run (p : Plan) (d : Direction) (overrides : Option Value) (document : Value) :
    Outcome Value :=
  (applyLinks d document (.map []) (p.along d)).map (withOverrides overrides)

end Crosswalk
