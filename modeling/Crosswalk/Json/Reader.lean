import Crosswalk.Json.Scan
import Crosswalk.Error

/-!
# Reading JSON

* `readTree`: the tree at the head of a text. Containers nest at most `maxDepth` deep; in an object
  a repeated name keeps its first place and its last value.
* `parse`: the tree of a whole text, or the line of the first fault.
-/

namespace Crosswalk.Json

/-- Containers nest less deep than this. -/
def maxDepth : Nat := 128

mutual

/-- The tree at the head of a text behind any blanks. Every round reads at least one character, so
`fuel` rounds suffice for a text of that length. `depth` counts the levels still allowed. -/
def readTree (care : Care) : (fuel depth : Nat) → List Char → Scan Json
  | 0, _, _ => .error ⟨[]⟩
  | fuel + 1, depth, text =>
    match skipSpace text with
    | [] => .error ⟨[]⟩
    | c :: cs =>
      if c = 'n' then (scanWord ['u', 'l', 'l'] cs).map fun rest => (null, rest)
      else if c = 't' then (scanWord ['r', 'u', 'e'] cs).map fun rest => (bool true, rest)
      else if c = 'f' then (scanWord ['a', 'l', 's', 'e'] cs).map fun rest => (bool false, rest)
      else if c = '"' then (scanString care cs).map fun (s, rest) => (string s, rest)
      else if c = '-' ∨ Decimal.isDigit c then
        (scanNumber care (c :: cs)).map fun (n, rest) => (number n, rest)
      else if c = '[' ∨ c = '\x7b' then
        if care = .full ∧ depth ≤ 1 then .error ⟨cs⟩
        else if c = '[' then
          match skipSpace cs with
          | ']' :: rest => .ok (array [], rest)
          | cs => readItems care fuel (depth - 1) [] cs
        else
          match skipSpace cs with
          | '\x7d' :: rest => .ok (object [], rest)
          | cs => readMembers care fuel (depth - 1) [] cs
      else .error ⟨cs⟩

/-- The elements of an array from the next one on, given those before it, the last one first. -/
def readItems (care : Care) : (fuel depth : Nat) → (items : List Json) → List Char → Scan Json
  | 0, _, _, _ => .error ⟨[]⟩
  | fuel + 1, depth, items, cs =>
    match readTree care fuel depth cs with
    | .error f => .error f
    | .ok (item, rest) =>
      match skipSpace rest with
      | ']' :: rest => .ok (array (item :: items).reverse, rest)
      | ',' :: rest => readItems care fuel depth (item :: items) rest
      | rest => .error (faultAt rest)

/-- The members of an object from the next one on, given those before it. -/
def readMembers (care : Care) :
    (fuel depth : Nat) → (members : Members Json) → List Char → Scan Json
  | 0, _, _, _ => .error ⟨[]⟩
  | fuel + 1, depth, members, cs =>
    match skipSpace cs with
    | '"' :: cs =>
      match scanString care cs with
      | .error f => .error f
      | .ok (name, rest) =>
        match skipSpace rest with
        | ':' :: rest =>
          match readTree care fuel depth rest with
          | .error f => .error f
          | .ok (item, rest) =>
            let members := members.put name item
            match skipSpace rest with
            | '\x7d' :: rest => .ok (object members, rest)
            | ',' :: rest => readMembers care fuel depth members rest
            | rest => .error (faultAt rest)
        | rest => .error (faultAt rest)
    | rest => .error (faultAt rest)

end

/-- Nothing but blanks is left. -/
def scanEnd (cs : List Char) : Except Fault Unit :=
  match skipSpace cs with
  | [] => .ok ()
  | rest => .error (faultAt rest)

/-- The result of a reader for a whole text, or an error with the line of the fault. -/
def runScan {α : Type} (scan : List Char → Scan α) (text : String) : Outcome α :=
  let cs := text.toList
  let refused := fun (f : Fault) =>
    let line := f.line cs
    Error.malformed ("invalid JSON on line " ++ Decimal.ofNatText line) (some line) none
  match scan cs with
  | .error f => .error (refused f)
  | .ok (a, rest) =>
    match scanEnd rest with
    | .error f => .error (refused f)
    | .ok () => .ok a

/-- The tree of a text. -/
def parse (text : String) : Outcome Json :=
  runScan (fun cs => readTree .full (cs.length + 1) maxDepth cs) text

end Crosswalk.Json
