import Crosswalk.Path.Segment
import Crosswalk.Text.Blank
import Crosswalk.Decimal.Basic

/-!
# Paths

A path is a list of segments with the texts they were read from.

* `Path.ofSegments`: a path without a text of its own; its source is its written form.
* `Segment.chars`, `Path.render`: the written form of a segment and of a path.
-/

namespace Crosswalk

/-- A segment with the text it was read from and the place of that text, counted in bytes. -/
structure Step where
  segment : Segment
  text : String
  offset : Nat
deriving DecidableEq, Repr

/-- A list of segments, and the text around which they were read without the blanks around it. -/
structure Path where
  steps : List Step
  source : String
deriving DecidableEq, Repr

/-! ## Written form -/

/-- The characters of a name that are read as such only behind a backslash. -/
def isSpecial (c : Char) : Bool := c = '\\' || c = '.' || c = '[' || c = ']'

/-- A name with a backslash before every special character. -/
def escapeName (name : List Char) : List Char :=
  name.flatMap fun c => if isSpecial c then ['\\', c] else [c]

/-- The written form of a segment. -/
def Segment.chars : Segment → List Char
  | .field name => escapeName name.toList
  | .index i => '[' :: (Decimal.intDigits i ++ [']'])
  | .slice ⟨start, none⟩ => '[' :: '[' :: (Decimal.intDigits start ++ [']', ']'])
  | .slice ⟨start, some size⟩ =>
    '[' :: '[' :: (Decimal.intDigits start ++ ',' :: (Decimal.intDigits size ++ [']', ']']))

/-- The written form of segments that follow others: a dot stands before every field. -/
def tailChars : List Segment → List Char
  | [] => []
  | s :: rest => (if s.isField then '.' :: s.chars else s.chars) ++ tailChars rest

/-- The written form of segments. -/
def renderChars : List Segment → List Char
  | [] => []
  | s :: rest => s.chars ++ tailChars rest

namespace Path

/-- The empty path, which leads to the whole document. -/
def root : Path := ⟨[], ""⟩

def segments (p : Path) : List Segment := p.steps.map Step.segment

/-- The written form of a path. -/
def render (p : Path) : String := String.ofList (renderChars p.segments)

/-- A path of given segments. -/
def ofSegments (segments : List Segment) : Path :=
  { steps := segments.map fun s => ⟨s, "", 0⟩
    source := String.ofList (renderChars segments) }

@[simp] theorem segments_ofSegments (ss : List Segment) : (ofSegments ss).segments = ss := by
  rw [ofSegments, segments, List.map_map]
  exact List.map_id ss

def isRoot (p : Path) : Bool := p.steps.isEmpty

def length (p : Path) : Nat := p.steps.length

/-- No segment of the path addresses an array. -/
def isArrayFree (p : Path) : Bool := p.segments.all Segment.isField

end Path

end Crosswalk
