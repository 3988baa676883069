import Crosswalk.Text.LowerTable
import Crosswalk.Text.CasedTable

/-!
# Lower case

* `lower`: every character replaced by its lower-case form. A capital sigma at the end of a word
  becomes a final sigma, and a dotted capital `I` keeps its dot as a mark of its own.
-/

namespace Crosswalk.Text

def inRuns (runs : List (Nat × Nat)) (c : Char) : Bool :=
  runs.any fun (first, last) => first ≤ c.toNat && c.toNat ≤ last

def isCased (c : Char) : Bool := inRuns casedRuns c

def isCaseIgnorable (c : Char) : Bool := inRuns caseIgnorableRuns c

/-- The lower-case form of a character that has a single one. -/
def lowerChar (c : Char) : Char :=
  let code := c.toNat
  match lowerRuns.find? fun (first, last, step, _) =>
      first ≤ code && code ≤ last && (code - first) % step == 0 with
  | some (_, _, _, distance) => Char.ofNat ((code : Int) + distance).toNat
  | none => c

/-- A letter with a case follows, behind any number of characters that the case passes over. -/
def meetsCased (cs : List Char) : Bool :=
  match cs.dropWhile isCaseIgnorable with
  | c :: _ => isCased c
  | [] => false

/-- Lower case of the rest of a text, given the characters before it, nearest first. -/
def lowerChars (before : List Char) : List Char → List Char
  | [] => []
  | c :: rest =>
    let low :=
      if c = '\u03a3' then
        if meetsCased before && !meetsCased rest then ['\u03c2'] else ['\u03c3']
      else if c = '\u0130' then ['i', '\u0307']
      else if c.toNat < 128 then [c.toLower]
      else [lowerChar c]
    low ++ lowerChars (c :: before) rest

def lower (s : String) : String := String.ofList (lowerChars [] s.toList)

end Crosswalk.Text
