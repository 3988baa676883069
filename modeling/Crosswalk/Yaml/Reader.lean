import Crosswalk.Yaml.Node
import Crosswalk.Error

/-!
# Reading YAML

* `resolve`: the tree of a node, its scalars resolved and its aliases followed.
* `parse`: the value of a text. A text of several documents is the array of their values, and an
  empty one is null.
-/

namespace Crosswalk.Yaml

/-- Collections nest at most this deep, aliases followed. -/
def maxDepth : Nat := 128

/-- How many aliases may be followed for every part of a document. -/
def aliasesPerPart : Nat := 100

/-- A result, and the number of aliases followed. -/
abbrev Resolve (α : Type) := Nat → Except Fault (α × Nat)

/-- The name of a tag of one's own: one that begins with an exclamation mark. -/
def ownTag? (tag : Option String) : Option String :=
  match tag.map String.toList with
  | some ['!'] => some "!"
  | some ('!' :: name) => some (String.ofList name)
  | _ => none

def refused {α : Type} (message : String) : Except Fault α := .error ⟨message, 0⟩

/-- A scalar whose tag names a kind of scalar; none if the tag does not. -/
def ofCoreTag? (tag text : String) : Option (Except Fault Yaml) :=
  let expect := fun (r : Option Yaml) => match r with
    | some y => Except.ok y
    | none => refused "a scalar does not fit its tag"
  if tag = "tag:yaml.org,2002:bool" then some (expect ((bool? text).map bool))
  else if tag = "tag:yaml.org,2002:int" then
    match integer? text with
    | some (.ok n) => some (.ok (number n))
    | _ => some (refused "a scalar does not fit its tag")
  else if tag = "tag:yaml.org,2002:float" then
    some (expect ((float? text).map fun x => number (.real x)))
  else if tag = "tag:yaml.org,2002:null" then
    some (expect (if isNullText text then some null else none))
  else none

/-- A scalar by its text and quotes alone. -/
def ofUntagged (text : String) (quoting : Quoting) : Except Fault Yaml :=
  match quoting with
  | .quoted => .ok (string text)
  | .plain =>
    match ofPlain text with
    | .ok y => .ok y
    | .error .tooLarge => refused "an integer is too large"

/-- A scalar. One with a tag of its own is resolved like one without, and one with a foreign tag is
a string. -/
def ofScalar (tag : Option String) (text : String) (quoting : Quoting) : Except Fault Yaml :=
  match ownTag? tag, tag with
  | some own, _ => (ofUntagged text quoting).map (tagged own)
  | none, none => ofUntagged text quoting
  | none, some tag => (ofCoreTag? tag text).getD (.ok (string text))

/-- A collection under its own tag, if it has one. -/
def underTag (tag : Option String) (y : Yaml) : Yaml :=
  match ownTag? tag with
  | some own => tagged own y
  | none => y

/-- A result for every element, from the first to the last. -/
def resolveAll {α β : Type} (f : α → Resolve β) : List α → Resolve (List β)
  | [], jumps => .ok ([], jumps)
  | a :: rest, jumps =>
    match f a jumps with
    | .error e => .error e
    | .ok (b, jumps) =>
      match resolveAll f rest jumps with
      | .error e => .error e
      | .ok (bs, jumps) => .ok (b :: bs, jumps)

/-- Follows an alias, if there is one, within the limit of the document. -/
def Document.follow (d : Document) : Node → Resolve Node
  | .alias anchor, jumps =>
    if d.parts * aliasesPerPart < jumps + 1 then refused "too many aliases"
    else
      match d.anchored.lookup anchor with
      | some n => .ok (n, jumps + 1)
      | none => refused "unknown anchor"
  | n, jumps => .ok (n, jumps)

mutual

/-- Whether two trees are the same, with the entries of mappings in any order. -/
def same : Yaml → Yaml → Bool
  | null, null => true
  | bool a, bool b => a = b
  | number a, number b => a.same b
  | string a, string b => a = b
  | sequence xs, sequence ys => sameItems xs ys
  | mapping xs, mapping ys => xs.length = ys.length && sameEntries xs ys
  | tagged s a, tagged t b => s = t && same a b
  | _, _ => false

def sameItems : List Yaml → List Yaml → Bool
  | [], [] => true
  | x :: xs, y :: ys => same x y && sameItems xs ys
  | _, _ => false

def sameEntries : List (Yaml × Yaml) → List (Yaml × Yaml) → Bool
  | [], _ => true
  | (k, v) :: xs, ys => (ys.any fun e => same k e.1 && same v e.2) && sameEntries xs ys

end

/-- The entries of a mapping, the last one first, none with the same key. -/
def collectEntries (resolve : Node → Resolve Yaml) :
    (entries : List (Yaml × Yaml)) → List (Node × Node) → Resolve (List (Yaml × Yaml))
  | entries, [], jumps => .ok (entries.reverse, jumps)
  | entries, (k, v) :: rest, jumps =>
    match resolve k jumps with
    | .error e => .error e
    | .ok (key, jumps) =>
      if entries.any fun e => same e.1 key then refused "a key is repeated"
      else
        match resolve v jumps with
        | .error e => .error e
        | .ok (value, jumps) => collectEntries resolve ((key, value) :: entries) rest jumps

/-- The tree of a node. `depth` counts the levels of collections still allowed. -/
def resolve (d : Document) : (depth : Nat) → Node → Resolve Yaml
  | depth, n, jumps =>
    match d.follow n jumps with
    | .error e => .error e
    | .ok (n, jumps) =>
      match n, depth with
      | .scalar tag text quoting, _ => (ofScalar tag text quoting).map fun y => (y, jumps)
      | .alias _, _ => refused "an alias of an alias"
      | _, 0 => refused "nested too deep"
      | .sequence tag ns, depth + 1 =>
        (resolveAll (resolve d depth) ns jumps).map fun (ys, jumps) =>
          (underTag tag (sequence ys), jumps)
      | .mapping tag es, depth + 1 =>
        (collectEntries (resolve d depth) [] es jumps).map fun (es, jumps) =>
          (underTag tag (mapping es), jumps)

/-- A fault as an error. -/
def Fault.toError (f : Fault) : Error :=
  .malformed ("invalid YAML: " ++ f.message) (some (f.line + 1)) none

/-- The trees of the documents of a text. -/
def parseAll (text : String) : Outcome (List Yaml) :=
  let trees := do
    let ds ← Document.ofText? text
    ds.mapM fun d => (resolve d maxDepth d.root 0).map Prod.fst
  match trees with
  | .ok ys => .ok ys
  | .error f => .error f.toError

/-- The value of a text. -/
def parse (text : String) : Outcome Value :=
  (parseAll text).map fun ys =>
    match ys with
    | [] => .null
    | [y] => y.toValue
    | ys => .array (ys.map toValue)

end Crosswalk.Yaml
