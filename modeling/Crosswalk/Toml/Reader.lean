import Crosswalk.Toml.Draft

/-!
# Reading TOML

* `scanValue`: the value at the head of a text. Containers nest less deep than `maxDepth`.
* `ofText?`: the table of a text, its entries in the order in which they were first named.
* `parse`: the value of a text, the members of its maps in the order of their names.
-/

namespace Crosswalk.Toml

/-! ## Values -/

/-- The table of entries in braces, the last one first. -/
def ofAssignments (entries : List (List String × Toml)) : Except Problem Toml :=
  (entries.reverse.foldlM (fun es (key, t) => Draft.assign key t .header es) []).map
    Draft.Entries.finish

/-- What follows must be a mark. -/
def expectMark (mark : Char) (problem : Problem) : List Char → Except Fault (List Char)
  | c :: cs => if c = mark then .ok cs else .error ⟨problem, c :: cs⟩
  | [] => .error ⟨problem, []⟩

mutual

/-- The value at the head of a text. Every round reads at least one character, so `fuel` rounds
suffice for a text of that length. `depth` counts the levels of containers still allowed. -/
def scanValue : (fuel depth : Nat) → List Char → Scan Toml
  | 0, _, cs => .error ⟨.value, cs⟩
  | fuel + 1, depth, cs =>
    match scanString? cs with
    | some result => result.map fun (s, rest) => (.string s, rest)
    | none =>
      match cs with
      | 't' :: 'r' :: 'u' :: 'e' :: rest => .ok (.bool true, rest)
      | 'f' :: 'a' :: 'l' :: 's' :: 'e' :: rest => .ok (.bool false, rest)
      | '[' :: rest =>
        if depth ≤ 1 then .error ⟨.tooDeep, cs⟩ else scanItems fuel (depth - 1) [] rest
      | '\x7b' :: rest =>
        if depth ≤ 1 then .error ⟨.tooDeep, cs⟩
        else
          match skipSpace rest with
          | '\x7d' :: rest => .ok (.table [], rest)
          | rest => scanEntries fuel (depth - 1) [] rest
      | cs => scanNumber cs

/-- The elements of an array from the next one on, given those before it, the last one first. A
comma may follow the last of them. -/
def scanItems : (fuel depth : Nat) → (items : List Toml) → List Char → Scan Toml
  | 0, _, _, cs => .error ⟨.value, cs⟩
  | fuel + 1, depth, items, cs =>
    match skipLines (cs.length + 1) cs with
    | ']' :: rest => .ok (.array items.reverse, rest)
    | cs =>
      match scanValue fuel depth cs with
      | .error f => .error f
      | .ok (t, rest) =>
        match skipLines (rest.length + 1) rest with
        | ']' :: rest => .ok (.array (t :: items).reverse, rest)
        | ',' :: rest => scanItems fuel depth (t :: items) rest
        | rest => .error ⟨.closing "]", rest⟩

/-- The entries of a table in braces from the next one on, given those before it. -/
def scanEntries : (fuel depth : Nat) → (entries : List (List String × Toml)) → List Char →
    Scan Toml
  | 0, _, _, cs => .error ⟨.value, cs⟩
  | fuel + 1, depth, entries, cs =>
    match scanKey cs with
    | .error f => .error f
    | .ok (key, rest) =>
      match expectMark '=' .equals rest with
      | .error f => .error f
      | .ok rest =>
        match scanValue fuel depth (skipSpace rest) with
        | .error f => .error f
        | .ok (t, rest) =>
          let entries := (key, t) :: entries
          match skipSpace rest with
          | ',' :: rest => scanEntries fuel depth entries rest
          | '\x7d' :: rest =>
            match ofAssignments entries with
            | .ok t => .ok (t, rest)
            | .error problem => .error ⟨problem, rest⟩
          | rest => .error ⟨.closing "\x7d", rest⟩

end

/-! ## Documents -/

/-- A line of a document. -/
inductive Line where
  | blank
  | header (key : List String)
  | elementHeader (key : List String)
  | entry (key : List String) (t : Toml)

/-- Behind a comment, if there is one, and the end of the line. -/
def scanLineEnd (cs : List Char) : Except Fault (List Char) :=
  match skipComment (skipSpace cs) with
  | [] => .ok []
  | '\n' :: rest => .ok rest
  | rest => .error ⟨.lineEnd, rest⟩

/-- The line at the head of a text, up to its end. -/
def scanLineBody (cs : List Char) : Except Fault (Line × List Char) :=
  match cs with
  | [] => .ok (.blank, [])
  | '#' :: _ => .ok (.blank, cs)
  | '\n' :: _ => .ok (.blank, cs)
  | '[' :: '[' :: rest => do
    let (key, rest) ← scanKey rest
    let rest ← expectMark ']' (.closing "]]") rest
    let rest ← expectMark ']' (.closing "]]") rest
    .ok (.elementHeader key, rest)
  | '[' :: rest => do
    let (key, rest) ← scanKey rest
    let rest ← expectMark ']' (.closing "]") rest
    .ok (.header key, rest)
  | cs => do
    let (key, rest) ← scanKey cs
    let rest ← expectMark '=' .equals rest
    let (t, rest) ← scanValue (rest.length + 1) maxDepth (skipSpace rest)
    .ok (.entry key t, rest)

/-- A document up to some line: its entries, and the path of the table that entries go to. -/
structure Progress where
  entries : Draft.Entries
  current : List String

/-- A document with one line more. -/
def Progress.add (p : Progress) : Line → Except Problem Progress
  | .blank => .ok p
  | .header key => (Draft.openTable key .header p.entries).map fun es => ⟨es, key⟩
  | .elementHeader key => (Draft.openElement key .header p.entries).map fun es => ⟨es, key⟩
  | .entry key t =>
    (Draft.amend false (Draft.assign key t) p.current .header p.entries).map fun es =>
      { p with entries := es }

/-- A document from its next line on. Every line has at least one character, so `fuel` lines are
enough for a text of that length. -/
def scanLinesFrom : (fuel : Nat) → Progress → List Char → Except Fault Progress
  | 0, p, _ => .ok p
  | fuel + 1, p, cs =>
    match skipSpace cs with
    | [] => .ok p
    | cs =>
      match scanLineBody cs with
      | .error f => .error f
      | .ok (line, rest) =>
        match p.add line with
        | .error problem => .error ⟨problem, rest⟩
        | .ok p =>
          match scanLineEnd rest with
          | .error f => .error f
          | .ok rest => scanLinesFrom fuel p rest

/-- The characters of a text behind a mark of its byte order. -/
def withoutMark : List Char → List Char
  | '\ufeff' :: cs => cs
  | cs => cs

/-- The line, counted from one, on which a fault in a text lies. -/
def Fault.line (f : Fault) (text : List Char) : Nat := 1 + text.count '\n' - f.rest.count '\n'

/-- The table of a text. -/
def ofText? (text : String) : Outcome Toml :=
  let cs := unifyBreaks (withoutMark text.toList)
  match scanLinesFrom (cs.length + 1) ⟨[], []⟩ cs with
  | .ok p => .ok p.entries.finish
  | .error f => .error (.malformed ("invalid TOML: " ++ f.problem.message) (some (f.line cs)) none)

/-- The value of a text. -/
def parse (text : String) : Outcome Value := (ofText? text).map fun t => t.sorted.toValue

end Crosswalk.Toml
