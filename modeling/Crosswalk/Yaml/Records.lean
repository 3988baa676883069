import Crosswalk.Yaml.Reader
import Crosswalk.Schema

/-!
# Records in YAML documents

A record is a mapping, and an empty scalar is a record without fields. Texts are taken from scalars
as they stand there, whatever they would be resolved to.

* `reader`: how YAML nodes are read by a schema.
* `decode`: the record of a text of one document.
-/

namespace Crosswalk.Yaml

/-- The contents of a node of a document; `depth` counts the levels still allowed. -/
abbrev Decode (α : Type) := Document → (depth : Nat) → Node → Resolve α

/-! ## Scalars -/

/-- A scalar without quotes that stands for nothing. -/
def isAbsent (text : String) (quoting : Quoting) : Bool := quoting = .plain && isBlankOrNull text

/-- The text of a scalar; none for null. -/
def textOfScalar? (tag : Option String) (text : String) (quoting : Quoting) :
    Except Fault (Option String) :=
  match quoting with
  | .quoted => .ok (some text)
  | .plain =>
    match tag with
    | none => .ok (if isBlankOrNull text then none else some text)
    | some tag =>
      if tag = "tag:yaml.org,2002:null" then
        if isNullText text then .ok none else refused "a scalar does not fit its tag"
      else .ok (some text)

def decodeText : Decode (Option String) := fun d _ n jumps => do
  let (n, jumps) ← d.follow n jumps
  match n with
  | .scalar tag text quoting => .ok (← textOfScalar? tag text quoting, jumps)
  | _ => refused "expected a text"

/-- The text of a scalar as it stands there. -/
def decodeName (d : Document) (n : Node) : Resolve String := fun jumps => do
  let (n, jumps) ← d.follow n jumps
  match n with
  | .scalar _ text _ => .ok (text, jumps)
  | _ => refused "expected a name"

/-- A word is a scalar, or a tag on a scalar that stands for nothing. -/
def decodeWord {α : Type} (known : String → Option α) : Decode α := fun d _ n jumps => do
  let (n, jumps) ← d.follow n jumps
  match n with
  | .scalar tag text quoting =>
    let word := match ownTag? tag with
      | some own => if isAbsent text quoting then some own else none
      | none => some text
    match word.bind known with
    | some a => .ok (a, jumps)
    | none => refused "unknown word"
  | _ => refused "expected a word"

/-! ## Trees -/

/-- The JSON tree of a scalar without a tag of its own. -/
def jsonOfScalar : Yaml → Json
  | bool b => .bool b
  | number (.real x) => if x.isFinite then .number (.real x) else .null
  | number n => .number n
  | string s => .string s
  | _ => .null

/-- The members of a mapping; a repeated name keeps its first place and its last value. -/
def decodeEntries (d : Document) (contents : Node → Resolve Json) :
    (members : Members Json) → List (Node × Node) → Resolve (Members Json)
  | members, [], jumps => .ok (members, jumps)
  | members, (k, v) :: rest, jumps =>
    match decodeName d k jumps with
    | .error e => .error e
    | .ok (name, jumps) =>
      match contents v jumps with
      | .error e => .error e
      | .ok (j, jumps) => decodeEntries d contents (members.put name j) rest jumps

/-- The JSON tree of a node. Nodes with a tag of their own have none. -/
def decodeTree : Decode Json := fun d depth n jumps =>
  match d.follow n jumps with
  | .error e => .error e
  | .ok (n, jumps) =>
    match n, depth with
    | .scalar tag text quoting, _ =>
      if (ownTag? tag).isSome then refused "a tag of its own"
      else (ofScalar tag text quoting).map fun y => (jsonOfScalar y, jumps)
    | .alias _, _ => refused "an alias of an alias"
    | _, 0 => refused "nested too deep"
    | .sequence tag ns, depth + 1 =>
      if (ownTag? tag).isSome then refused "a tag of its own"
      else (resolveAll (decodeTree d depth) ns jumps).map fun (js, jumps) => (.array js, jumps)
    | .mapping tag es, depth + 1 =>
      if (ownTag? tag).isSome then refused "a tag of its own"
      else (decodeEntries d (decodeTree d depth) [] es jumps).map fun (ms, jumps) =>
        (.object ms, jumps)
termination_by _ depth => depth

/-! ## Lists and records -/

def decodeList {α : Type} (item : Decode α) : Decode (List α) := fun d depth n jumps => do
  let (n, jumps) ← d.follow n jumps
  match n, depth with
  | .sequence _ ns, depth + 1 => resolveAll (item d depth) ns jumps
  | .scalar _ "" .plain, _ => .ok ([], jumps)
  | _, _ => refused "expected a sequence"

/-- A record with the entries of a mapping. -/
def decodeFields {σ : Type} (schema : Schema Decode σ) (d : Document) (depth : Nat) :
    (given : List Nat) → σ → List (Node × Node) → Resolve σ
  | _, record, [], jumps => .ok (record, jumps)
  | given, record, (k, v) :: rest, jumps =>
    match decodeName d k jumps with
    | .error e => .error e
    | .ok (name, jumps) =>
      match schema.find? name with
      | none =>
        if schema.allowsOthers then decodeFields schema d depth given record rest jumps
        else refused "unknown field"
      | some (place, f) =>
        if given.contains place then refused "a field is repeated"
        else
          match f.read d depth v jumps with
          | .error e => .error e
          | .ok (change, jumps) =>
            decodeFields schema d depth (place :: given) (change record) rest jumps

def decodeRecord {σ : Type} (schema : Schema Decode σ) : Decode σ := fun d depth n jumps => do
  let (n, jumps) ← d.follow n jumps
  match n, depth with
  | .mapping _ es, depth + 1 => decodeFields schema d depth [] schema.blank es jumps
  | .scalar _ "" .plain, _ => .ok (schema.blank, jumps)
  | _, _ => refused "expected a mapping"

/-- How YAML nodes are read by a schema. -/
def reader : Reader Decode where
  map := fun f decode d depth n jumps => (decode d depth n jumps).map fun (a, jumps) => (f a, jumps)
  optionalText := decodeText
  word := decodeWord
  tree := decodeTree
  list := decodeList
  record := decodeRecord

/-- The contents of a text of at most one document; a text of none is an empty scalar. -/
def decode {α : Type} (contents : Decode α) (text : String) : Outcome α :=
  let result : Except Fault α := do
    let d ← match ← Document.ofText? text with
      | [] => .ok ⟨Composer.emptyNode, [], 1⟩
      | [d] => .ok d
      | _ => refused "more than one document"
    let (a, _) ← contents d maxDepth d.root 0
    .ok a
  match result with
  | .ok a => .ok a
  | .error f => .error f.toError

end Crosswalk.Yaml
