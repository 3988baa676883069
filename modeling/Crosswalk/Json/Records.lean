import Crosswalk.Json.Reader
import Crosswalk.Schema

/-!
# Records in JSON text

A record is an object, or an array of the contents of its fields in their order, in which the last
fields may be missing. The text is read from its beginning to its end, and the first fault counts.

* `reader`: how JSON text is read by a schema.
* `decode`: the record of a whole text.
-/

namespace Crosswalk.Json

/-- The contents at the head of a text; `depth` counts the levels still allowed. -/
abbrev Decode (α : Type) := (depth : Nat) → List Char → Scan α

/-- The fault of contents of another kind than expected, at the head of a text without blanks:
behind a scalar, and before a container. -/
def mismatch (cs : List Char) : Fault :=
  match cs with
  | '[' :: _ => ⟨cs⟩
  | '\x7b' :: _ => ⟨cs⟩
  | _ =>
    match readTree .full (cs.length + 1) maxDepth cs with
    | .ok (_, rest) => ⟨rest⟩
    | .error f => f

/-- The next character, behind blanks, must be a mark. -/
def expectMark (mark : Char) (cs : List Char) : Except Fault (List Char) :=
  match skipSpace cs with
  | [] => .error ⟨[]⟩
  | c :: rest => if c = mark then .ok rest else .error ⟨rest⟩

/-- A null behind its first letter. -/
def scanNullTail (cs : List Char) : Except Fault (List Char) := scanWord ['u', 'l', 'l'] cs

/-! ## Scalars -/

def decodeText : Decode (Option String) := fun _ cs =>
  match skipSpace cs with
  | 'n' :: rest => (scanNullTail rest).map fun rest => (none, rest)
  | '"' :: rest => (scanString .full rest).map fun (s, rest) => (some s, rest)
  | rest => .error (mismatch rest)

/-- A word in quotes, behind the opening one. -/
def scanKnown {α : Type} (known : String → Option α) (cs : List Char) : Scan α :=
  match scanString .full cs with
  | .error f => .error f
  | .ok (s, rest) =>
    match known s with
    | some a => .ok (a, rest)
    | none => .error ⟨rest⟩

/-- A word as the only name in an object, with the value null. -/
def scanTagged {α : Type} (known : String → Option α) (cs : List Char) :
    Except Fault (α × List Char) := do
  let (a, cs) ← match skipSpace cs with
    | '"' :: rest => scanKnown known rest
    | rest => .error (mismatch rest)
  let cs ← expectMark ':' cs
  let cs ← match skipSpace cs with
    | 'n' :: rest => scanNullTail rest
    | rest => .error (mismatch rest)
  match skipSpace cs with
  | '\x7d' :: rest => .ok (a, rest)
  | rest => .error ⟨rest⟩

def decodeWord {α : Type} (known : String → Option α) : Decode α := fun depth cs =>
  match skipSpace cs with
  | '"' :: rest => scanKnown known rest
  | '\x7b' :: rest => if depth ≤ 1 then .error ⟨rest⟩ else scanTagged known rest
  | rest => .error (faultAt rest)

/-! ## Lists -/

/-- Before the next element of an array, if there is one, and otherwise before its closing
bracket. -/
def nextElement (first : Bool) (cs : List Char) : Except Fault (Option (List Char) × List Char) :=
  match skipSpace cs with
  | [] => .error ⟨[]⟩
  | ']' :: rest => .ok (none, ']' :: rest)
  | c :: rest =>
    if first then .ok (some (c :: rest), [])
    else if c = ',' then
      match skipSpace rest with
      | [] => .error ⟨[]⟩
      | ']' :: rest => .error ⟨rest⟩
      | rest => .ok (some rest, [])
    else .error ⟨rest⟩

/-- The elements of an array from the next one on, given those before it, the last one first. Every
element has at least one character. -/
def decodeItems {α : Type} (item : Decode α) (depth : Nat) :
    (fuel : Nat) → (items : List α) → List Char → Scan (List α)
  | 0, _, _ => .error ⟨[]⟩
  | fuel + 1, items, cs =>
    match nextElement items.isEmpty cs with
    | .error f => .error f
    | .ok (none, rest) => .ok (items.reverse, rest.tail)
    | .ok (some cs, _) =>
      match item depth cs with
      | .error f => .error f
      | .ok (a, rest) => decodeItems item depth fuel (a :: items) rest

def decodeList {α : Type} (item : Decode α) : Decode (List α) := fun depth cs =>
  match skipSpace cs with
  | '[' :: rest =>
    if depth ≤ 1 then .error ⟨rest⟩ else decodeItems item (depth - 1) (rest.length + 1) [] rest
  | rest => .error (mismatch rest)

/-! ## Records -/

/-- The end of an array all of whose elements have been read. -/
def closeArray (cs : List Char) : Except Fault (List Char) :=
  match skipSpace cs with
  | ']' :: rest => .ok rest
  | ',' :: rest => .error (faultAt (skipSpace rest))
  | rest => .error (faultAt rest)

/-- The fields of a record one after the other. -/
def decodePositions {σ : Type} (depth : Nat) :
    (fields : List (Field Decode σ)) → (first : Bool) → σ → List Char → Scan σ
  | [], _, record, cs => (closeArray cs).map fun rest => (record, rest)
  | f :: fields, first, record, cs =>
    match nextElement first cs with
    | .error e => .error e
    | .ok (none, rest) => .ok (record, rest.tail)
    | .ok (some cs, _) =>
      match f.read depth cs with
      | .error e => .error e
      | .ok (change, rest) => decodePositions depth fields false (change record) rest

/-- Before the name of the next member, behind its opening quote, if there is one, and otherwise
behind the closing brace. -/
def nextMember (first : Bool) (cs : List Char) : Except Fault (Option (List Char) × List Char) :=
  match skipSpace cs with
  | '\x7d' :: rest => .ok (none, rest)
  | ',' :: rest =>
    if first then .error ⟨rest⟩
    else
      match skipSpace rest with
      | '"' :: rest => .ok (some rest, [])
      | rest => .error (faultAt rest)
  | '"' :: rest => if first then .ok (some rest, []) else .error ⟨rest⟩
  | rest => .error (faultAt rest)

/-- The contents of a member: those of a field that was not given before, or of no field at all. -/
def decodeMember {σ : Type} (schema : Schema Decode σ) (depth : Nat) (given : List Nat) (record : σ)
    (name : String) (cs : List Char) : Except Fault ((List Nat × σ) × List Char) :=
  match schema.find? name with
  | some (place, f) =>
    if given.contains place then .error ⟨skipSpace cs⟩
    else do
      let cs ← expectMark ':' cs
      let (change, cs) ← f.read depth cs
      .ok ((place :: given, change record), cs)
  | none =>
    if schema.allowsOthers then do
      let cs ← expectMark ':' cs
      let (_, cs) ← readTree .skim (cs.length + 1) depth cs
      .ok ((given, record), cs)
    else .error ⟨skipSpace cs⟩

/-- The members of an object from the next one on. Every member has at least one character. -/
def decodeMembers {σ : Type} (schema : Schema Decode σ) (depth : Nat) :
    (fuel : Nat) → (first : Bool) → (given : List Nat) → σ → List Char → Scan σ
  | 0, _, _, _, _ => .error ⟨[]⟩
  | fuel + 1, first, given, record, cs =>
    match nextMember first cs with
    | .error f => .error f
    | .ok (none, rest) => .ok (record, rest)
    | .ok (some cs, _) =>
      match scanString .full cs with
      | .error f => .error f
      | .ok (name, cs) =>
        match decodeMember schema depth given record name cs with
        | .error f => .error f
        | .ok ((given, record), rest) => decodeMembers schema depth fuel false given record rest

def decodeRecord {σ : Type} (schema : Schema Decode σ) : Decode σ := fun depth cs =>
  match skipSpace cs with
  | '[' :: rest =>
    if depth ≤ 1 then .error ⟨rest⟩
    else decodePositions (depth - 1) schema.fields true schema.blank rest
  | '\x7b' :: rest =>
    if depth ≤ 1 then .error ⟨rest⟩
    else decodeMembers schema (depth - 1) (rest.length + 1) true [] schema.blank rest
  | rest => .error (mismatch rest)

/-- How JSON text is read by a schema. -/
def reader : Reader Decode where
  map := fun f decode depth cs => (decode depth cs).map fun (a, rest) => (f a, rest)
  optionalText := decodeText
  word := decodeWord
  tree := fun depth cs => readTree .full (cs.length + 1) depth cs
  list := decodeList
  record := decodeRecord

/-- The contents of a whole text. -/
def decode {α : Type} (contents : Decode α) (text : String) : Outcome α :=
  runScan (contents maxDepth) text

end Crosswalk.Json
