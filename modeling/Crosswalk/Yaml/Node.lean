import Crosswalk.Yaml.Lexer

/-!
# YAML nodes

A node is a scalar, a sequence or a mapping as the text shows it: scalars are not resolved yet, and
an alias is a reference to the node with that anchor.

* `Composer`: the tokens left, with the tag handles and anchors met so far.
* `Composer.node`: the node at the head of the tokens.
* `Document.ofText?`: the documents of a text.
-/

namespace Crosswalk.Yaml

/-- A node as the text shows it. -/
inductive Node where
  | scalar (tag : Option String) (text : String) (quoting : Quoting)
  | sequence (tag : Option String) (items : List Node)
  | mapping (tag : Option String) (entries : List (Node × Node))
  | alias (anchor : Nat)
deriving Inhabited

/-- A document: its root, the nodes with anchors, and the size of its text in parts. -/
structure Document where
  root : Node
  anchored : List (Nat × Node)
  parts : Nat

/-- A node with an anchor, and how many anchors began before it. -/
structure Anchored where
  anchor : Nat
  rank : Nat
  node : Node

/-- The tokens left, and what they refer to. -/
structure Composer where
  tokens : List Token
  /-- What tag handles stand for. -/
  handles : List (String × String)
  /-- The anchors by their names. -/
  anchors : Members Nat
  anchored : List Anchored
  /-- The number of anchors that have begun. -/
  begun : Nat
  parts : Nat

namespace Composer

abbrev Compose (α : Type) := Except Fault (α × Composer)

def fault {α : Type} (message : String) : Except Fault α := .error ⟨message, 0⟩

/-- The next token. -/
def head (s : Composer) : Token := s.tokens.headD .streamEnd

def skip (s : Composer) : Composer := { s with tokens := s.tokens.tail }

def count (s : Composer) (n : Nat) : Composer := { s with parts := s.parts + n }

/-- The node where the text has none. -/
def emptyNode : Node := .scalar none "" .plain

def empty (s : Composer) : Compose Node := .ok (emptyNode, s.count 1)

/-- The properties of a node: an anchor and a tag, in either order. -/
structure Properties where
  anchor : Option String
  tag : Option (String × String)

def properties (s : Composer) : Properties × Composer :=
  match s.head with
  | .anchor a =>
    match s.skip.head with
    | .tag h t => (⟨some a, some (h, t)⟩, s.skip.skip)
    | _ => (⟨some a, none⟩, s.skip)
  | .tag h t =>
    match s.skip.head with
    | .anchor a => (⟨some a, some (h, t)⟩, s.skip.skip)
    | _ => (⟨none, some (h, t)⟩, s.skip)
  | _ => (⟨none, none⟩, s)

/-- The whole tag, with its handle written out. -/
def resolveTag (s : Composer) : Option (String × String) → Except Fault (Option String)
  | none => .ok none
  | some (handle, suffix) =>
    if handle = "" then .ok (some suffix)
    else
      match s.handles.lookup handle with
      | some shorthand => .ok (some (shorthand ++ suffix))
      | none => fault "unknown tag handle"

/-- A node begins that has an anchor; the anchor's number is that of the names before it. -/
def beginAnchor (s : Composer) (name : String) : (Nat × Nat) × Composer :=
  let anchor := s.anchors.length
  ((anchor, s.begun),
    { s with anchors := s.anchors.put name anchor, begun := s.begun + 1 })

/-- The node of an anchor is complete. -/
def endAnchor (s : Composer) (place : Nat × Nat) (node : Node) : Composer :=
  { s with anchored := ⟨place.1, place.2, node⟩ :: s.anchored }

/-- The bare exclamation mark says nothing of a scalar. -/
def scalarTag (tag : Option String) : Option String := if tag = some "!" then none else tag

mutual

/-- The node at the head of the tokens. `block` allows block collections, and `indentless` a block
sequence that is not indented. Every call reads a token or descends no further, so `fuel` calls
suffice for a few times as many tokens. -/
def node : (fuel : Nat) → (block indentless : Bool) → Composer → Compose Node
  | 0, _, _, _ => fault "too deep"
  | fuel + 1, block, indentless, s =>
    match s.head with
    | .alias name =>
      match s.anchors.get? name with
      | some anchor => .ok (.alias anchor, s.skip.count 1)
      | none => fault "unknown anchor"
    | _ =>
      let (props, s) := s.properties
      match s.resolveTag props.tag with
      | .error f => .error f
      | .ok tag =>
        match props.anchor with
        | none => content fuel block indentless tag (props.tag.isSome) s
        | some name =>
          let (place, s) := s.beginAnchor name
          match content fuel block indentless tag true s with
          | .error f => .error f
          | .ok (n, s) => .ok (n, s.endAnchor place n)

/-- The content of a node with a tag. A node with properties may be empty. -/
def content : (fuel : Nat) → (block indentless : Bool) → (tag : Option String) →
    (mayBeEmpty : Bool) → Composer → Compose Node
  | 0, _, _, _, _, _ => fault "too deep"
  | fuel + 1, block, indentless, tag, mayBeEmpty, s =>
    match s.head with
    | .blockEntry =>
      if indentless then
        (looseItems fuel [] (s.count 2)).map fun (ns, s) => (.sequence tag ns, s)
      else if mayBeEmpty then .ok (.scalar (scalarTag tag) "" .plain, s.count 1)
      else fault "expected a node"
    | .scalar text quoting => .ok (.scalar (scalarTag tag) text quoting, s.skip.count 1)
    | .flowSequenceStart =>
      (flowItems fuel true [] (s.skip.count 2)).map fun (ns, s) => (.sequence tag ns, s)
    | .flowMappingStart =>
      (flowEntries fuel true [] (s.skip.count 2)).map fun (es, s) => (.mapping tag es, s)
    | .blockSequenceStart =>
      if block then
        (blockItems fuel [] (s.skip.count 2)).map fun (ns, s) => (.sequence tag ns, s)
      else if mayBeEmpty then .ok (.scalar (scalarTag tag) "" .plain, s.count 1)
      else fault "expected a node"
    | .blockMappingStart =>
      if block then
        (blockEntries fuel [] (s.skip.count 2)).map fun (es, s) => (.mapping tag es, s)
      else if mayBeEmpty then .ok (.scalar (scalarTag tag) "" .plain, s.count 1)
      else fault "expected a node"
    | _ =>
      if mayBeEmpty then .ok (.scalar (scalarTag tag) "" .plain, s.count 1)
      else fault "expected a node"

/-- The items of a block sequence, given those before, the last one first. -/
def blockItems : (fuel : Nat) → (items : List Node) → Composer → Compose (List Node)
  | 0, _, _ => fault "too deep"
  | fuel + 1, items, s =>
    match s.head with
    | .blockEntry =>
      let s := s.skip
      let item := match s.head with
        | .blockEntry => s.empty
        | .blockEnd => s.empty
        | _ => node fuel true false s
      match item with
      | .error f => .error f
      | .ok (n, s) => blockItems fuel (n :: items) s
    | .blockEnd => .ok (items.reverse, s.skip)
    | _ => fault "expected a hyphen"

/-- The items of a block sequence that is not indented. -/
def looseItems : (fuel : Nat) → (items : List Node) → Composer → Compose (List Node)
  | 0, _, _ => fault "too deep"
  | fuel + 1, items, s =>
    match s.head with
    | .blockEntry =>
      let s := s.skip
      let item := match s.head with
        | .blockEntry => s.empty
        | .key => s.empty
        | .value => s.empty
        | .blockEnd => s.empty
        | _ => node fuel true false s
      match item with
      | .error f => .error f
      | .ok (n, s) => looseItems fuel (n :: items) s
    | _ => .ok (items.reverse, s)

/-- The key or the value of a block mapping, behind its mark. -/
def blockPart : (fuel : Nat) → Composer → Compose Node
  | 0, _ => fault "too deep"
  | fuel + 1, s =>
    match s.head with
    | .key => s.empty
    | .value => s.empty
    | .blockEnd => s.empty
    | _ => node fuel true true s

/-- The entries of a block mapping. -/
def blockEntries : (fuel : Nat) → (entries : List (Node × Node)) → Composer →
    Compose (List (Node × Node))
  | 0, _, _ => fault "too deep"
  | fuel + 1, entries, s =>
    let finish := fun (k : Node) (s : Composer) =>
      match s.head with
      | .value =>
        match blockPart fuel s.skip with
        | .error f => .error f
        | .ok (v, s) => blockEntries fuel ((k, v) :: entries) s
      | _ => blockEntries fuel ((k, emptyNode) :: entries) (s.count 1)
    match s.head with
    | .key =>
      match blockPart fuel s.skip with
      | .error f => .error f
      | .ok (k, s) => finish k s
    | .value => fault "expected a key"
    | .blockEnd => .ok (entries.reverse, s.skip)
    | _ => fault "expected a key"

/-- The items of a flow sequence. An item may be a mapping of one entry without brackets. -/
def flowItems : (fuel : Nat) → (first : Bool) → (items : List Node) → Composer →
    Compose (List Node)
  | 0, _, _, _ => fault "too deep"
  | fuel + 1, first, items, s =>
    if s.head = .flowSequenceEnd then .ok (items.reverse, s.skip)
    else if !first ∧ s.head ≠ .flowEntry then fault "expected a comma or a bracket"
    else
      let s := if first then s else s.skip
      match s.head with
      | .flowSequenceEnd => .ok (items.reverse, s.skip)
      | .key =>
        match pair fuel (s.skip.count 2) with
        | .error f => .error f
        | .ok (n, s) => flowItems fuel false (n :: items) s
      | _ =>
        match node fuel false false s with
        | .error f => .error f
        | .ok (n, s) => flowItems fuel false (n :: items) s

/-- A mapping of one entry in a flow sequence, behind the mark of its key. -/
def pair : (fuel : Nat) → Composer → Compose Node
  | 0, _ => fault "too deep"
  | fuel + 1, s =>
    let key := match s.head with
      | .value => s.skip.empty
      | .flowEntry => s.skip.empty
      | .flowSequenceEnd => s.skip.empty
      | _ => node fuel false false s
    match key with
    | .error f => .error f
    | .ok (k, s) =>
      let value := match s.head with
        | .value =>
          match s.skip.head with
          | .flowEntry => s.skip.empty
          | .flowSequenceEnd => s.skip.empty
          | _ => node fuel false false s.skip
        | _ => s.empty
      value.map fun (v, s) => (.mapping none [(k, v)], s)

/-- The value of an entry of a flow mapping, if its colon is here. -/
def flowValue : (fuel : Nat) → Composer → Compose Node
  | 0, _ => fault "too deep"
  | fuel + 1, s =>
    match s.head with
    | .value =>
      match s.skip.head with
      | .flowEntry => s.skip.empty
      | .flowMappingEnd => s.skip.empty
      | _ => node fuel false false s.skip
    | _ => s.empty

/-- The entries of a flow mapping. -/
def flowEntries : (fuel : Nat) → (first : Bool) → (entries : List (Node × Node)) → Composer →
    Compose (List (Node × Node))
  | 0, _, _, _ => fault "too deep"
  | fuel + 1, first, entries, s =>
    if s.head = .flowMappingEnd then .ok (entries.reverse, s.skip)
    else if !first ∧ s.head ≠ .flowEntry then fault "expected a comma or a brace"
    else
      let s := if first then s else s.skip
      match s.head with
      | .flowMappingEnd => .ok (entries.reverse, s.skip)
      | .key =>
        let s := s.skip
        let key := match s.head with
          | .value => s.empty
          | .flowEntry => s.empty
          | .flowMappingEnd => s.empty
          | _ => node fuel false false s
        match key with
        | .error f => .error f
        | .ok (k, s) =>
          match flowValue fuel s with
          | .error f => .error f
          | .ok (v, s) => flowEntries fuel false ((k, v) :: entries) s
      | _ =>
        match node fuel false false s with
        | .error f => .error f
        | .ok (k, s) => flowEntries fuel false ((k, emptyNode) :: entries) (s.count 1)

end

/-! ## Documents -/

/-- The handles that need no directive. -/
def standardHandles : List (String × String) := [("!", "!"), ("!!", "tag:yaml.org,2002:")]

/-- The directives in front of a document. -/
def directives : (fuel : Nat) → (version : Bool) → Composer → Except Fault Composer
  | 0, _, _ => fault "too deep"
  | fuel + 1, version, s =>
    match s.head with
    | .versionDirective major minor =>
      if version then fault "two version directives"
      else if major ≠ 1 ∨ (minor ≠ 1 ∧ minor ≠ 2) then fault "unknown version"
      else directives fuel true s.skip
    | .tagDirective handle shorthand =>
      if (s.handles.lookup handle).isSome then fault "two directives for a tag handle"
      else directives fuel version { s.skip with handles := s.handles ++ [(handle, shorthand)] }
    | _ => .ok { s with handles := s.handles ++ standardHandles }

/-- The number of tokens of the longest calls on a few tokens. -/
def fuelFor (s : Composer) : Nat := 6 * s.tokens.length + 16

/-- A composer for the next document. -/
def fresh (tokens : List Token) : Composer := ⟨tokens, [], [], [], 0, 0⟩

/-- Of the nodes with one anchor, the one that began last stands for it. -/
def latest (nodes : List Anchored) (a : Anchored) : Bool :=
  nodes.all fun b => b.anchor ≠ a.anchor || b.rank ≤ a.rank

/-- The document of a root node. -/
def toDocument (s : Composer) (root : Node) : Document where
  root := root
  anchored := (s.anchored.filter (latest s.anchored)).map fun a => (a.anchor, a.node)
  parts := s.parts

/-- The root of a document behind its start mark. -/
def explicitRoot (s : Composer) : Compose Node :=
  match s.head with
  | .versionDirective .. => s.empty
  | .tagDirective .. => s.empty
  | .documentStart => s.empty
  | .documentEnd => s.empty
  | .streamEnd => s.empty
  | _ => node s.fuelFor true false s

/-- The tokens behind the end marks of documents. -/
def skipEnds (tokens : List Token) : List Token := tokens.dropWhile (· = .documentEnd)

/-- The documents of a stream. Only the first one needs no start mark. -/
def documents : (fuel : Nat) → (first : Bool) → List Token → Except Fault (List Document)
  | 0, _, _ => .ok []
  | fuel + 1, first, tokens =>
    let s := fresh (if first then tokens else skipEnds tokens)
    let root : Except Fault (Option (Node × Composer)) := match s.head with
      | .streamEnd => .ok none
      | .versionDirective .. => explicit s
      | .tagDirective .. => explicit s
      | .documentStart => explicit s
      | _ =>
        if first then
          match s.directives 1 false with
          | .error f => .error f
          | .ok s => (node s.fuelFor true false s).map some
        else fault "expected the start of a document"
    match root with
    | .error f => .error f
    | .ok none => .ok []
    | .ok (some (n, s)) =>
      let rest := if s.head = .documentEnd then s.skip.tokens else s.tokens
      (documents fuel false rest).map (s.toDocument n :: ·)
where
  /-- A document with directives or a start mark. -/
  explicit (s : Composer) : Except Fault (Option (Node × Composer)) :=
    match s.directives (s.tokens.length + 1) false with
    | .error f => .error f
    | .ok s =>
      if s.head = .documentStart then s.skip.explicitRoot.map some
      else fault "expected the start of a document"

end Composer

/-- The documents of a text. -/
def Document.ofText? (text : String) : Except Fault (List Document) :=
  match tokens text with
  | .error f => .error f
  | .ok ts => Composer.documents (ts.length + 1) true ts

end Crosswalk.Yaml
