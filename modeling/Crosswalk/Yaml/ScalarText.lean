import Crosswalk.Yaml.Token
import Crosswalk.Yaml.Scalar

/-!
# Scalar texts

A scalar of several lines is folded: blanks around a line end go away, a single line end becomes a
space, and of several the first is dropped.

* `scanQuoted`: a scalar in single or double quotes.
* `scanPlain`: a scalar without quotes.
* `scanBlock`: a literal or folded scalar below its header.
-/

namespace Crosswalk.Yaml

/-! ## Folding -/

/-- What lies between two pieces of a scalar. -/
structure Fold where
  /-- Blanks on the line, before any line end. -/
  blanks : List Char
  /-- The first line end. -/
  first : List Char
  /-- The line ends behind it. -/
  others : List Char
  /-- A line end was met, so that blanks are dropped. -/
  broken : Bool
deriving Repr

namespace Fold

def empty : Fold := ⟨[], [], [], false⟩

/-- The text that the gap becomes. -/
def text (f : Fold) : List Char :=
  if f.broken then
    if f.first = ['\n'] then (if f.others.isEmpty then [' '] else f.others)
    else f.first ++ f.others
  else f.blanks

end Fold

/-- The blanks and line ends from here on. A tab before the column `indent` is refused. -/
def scanGap (indent : Nat) : (fuel : Nat) → Fold → Cursor → Except Fault (Fold × Cursor)
  | 0, f, c => .ok (f, c)
  | fuel + 1, f, c =>
    match c.head? with
    | none => .ok (f, c)
    | some d =>
      if isSpaceOrTab d then
        if f.broken then
          if d = '\t' ∧ c.column < indent then c.fault "a tab stands in the indentation"
          else scanGap indent fuel f (c.skip 1)
        else scanGap indent fuel { f with blanks := f.blanks ++ [d] } (c.skip 1)
      else if isBreak d then
        let (lineEnd, next) := c.takeBreak
        if f.broken then scanGap indent fuel { f with others := f.others ++ lineEnd } next
        else scanGap indent fuel { f with blanks := [], first := lineEnd, broken := true } next
      else .ok (f, c)

/-! ## Quoted scalars -/

/-- The character of an escape that has no digits. -/
def escape? (c : Char) : Option Char :=
  if c = '0' then some '\x00'
  else if c = 'a' then some '\x07'
  else if c = 'b' then some '\x08'
  else if c = 't' ∨ c = '\t' then some '\t'
  else if c = 'n' then some '\n'
  else if c = 'v' then some '\x0b'
  else if c = 'f' then some '\x0c'
  else if c = 'r' then some '\r'
  else if c = 'e' then some '\x1b'
  else if c = ' ' ∨ c = '"' ∨ c = '/' ∨ c = '\\' then some c
  else if c = 'N' then some '\u0085'
  else if c = '_' then some '\u00a0'
  else if c = 'L' then some '\u2028'
  else if c = 'P' then some '\u2029'
  else none

/-- The number of digits of an escape that names a code point. -/
def escapeDigits? (c : Char) : Option Nat :=
  if c = 'x' then some 2
  else if c = 'u' then some 4
  else if c = 'U' then some 8
  else none

/-- An escape in double quotes, from its backslash on. -/
def scanEscape (c : Cursor) : Except Fault (Char × Cursor) :=
  match c.at? 1 with
  | none => c.fault "unknown escape"
  | some d =>
    match escape? d, escapeDigits? d with
    | some e, _ => .ok (e, c.skip 2)
    | none, none => c.fault "unknown escape"
    | none, some count =>
      let digits := (c.rest.drop 2).take count
      match natIn? 16 digits with
      | none => c.fault "expected hexadecimal digits"
      | some n =>
        if digits.length < count then c.fault "expected hexadecimal digits"
        else if (0xD800 ≤ n ∧ n ≤ 0xDFFF) ∨ 0x10FFFF < n then c.fault "no such code point"
        else .ok (Char.ofNat n, c.skip (2 + count))

/-- How a run of characters in quotes ends. -/
inductive RunEnd where
  /-- At the closing quote, a gap or the end of the text. -/
  | here
  /-- At an escaped line end. -/
  | escapedBreak
deriving DecidableEq

/-- The characters in quotes up to a gap or the closing quote, the last one read first. -/
def scanRun (quote : Char) :
    (fuel : Nat) → (read : List Char) → Cursor → Except Fault (List Char × RunEnd × Cursor)
  | 0, read, c => .ok (read, .here, c)
  | fuel + 1, read, c =>
    match c.head? with
    | none => .ok (read, .here, c)
    | some d =>
      if isSpaceOrTab d || isBreak d then .ok (read, .here, c)
      else if d = '\'' ∧ quote = '\'' ∧ c.at? 1 = some '\'' then
        scanRun quote fuel ('\'' :: read) (c.skip 2)
      else if d = quote then .ok (read, .here, c)
      else if d = '\\' ∧ quote = '"' then
        if (c.at? 1).any isBreak then .ok (read, .escapedBreak, (c.skip 1).skipBreak)
        else
          match scanEscape c with
          | .error f => .error f
          | .ok (e, next) => scanRun quote fuel (e :: read) next
      else scanRun quote fuel (d :: read) (c.skip 1)

/-- The text of a quoted scalar up to and with its closing quote, the last character first. -/
def scanQuotedFrom (quote : Char) :
    (fuel : Nat) → (read : List Char) → Cursor → Except Fault (List Char × Cursor)
  | 0, _, c => c.fault "the quote is not closed"
  | fuel + 1, read, c =>
    if c.isDocumentMark then c.fault "a document mark stands in a quoted scalar"
    else if c.isAtEnd then c.fault "the quote is not closed"
    else
      match scanRun quote (c.rest.length + 1) read c with
      | .error f => .error f
      | .ok (read, runEnd, c) =>
        if c.head? = some quote then .ok (read, c.skip 1)
        else
          let start := if runEnd = .escapedBreak then { Fold.empty with broken := true }
            else Fold.empty
          match scanGap 0 (c.rest.length + 1) start c with
          | .error f => .error f
          | .ok (gap, c) => scanQuotedFrom quote fuel (gap.text.reverse ++ read) c

/-- A scalar in quotes, from its opening quote on. -/
def scanQuoted (quote : Char) (c : Cursor) : Except Fault (String × Cursor) :=
  match scanQuotedFrom quote (c.rest.length + 1) [] (c.skip 1) with
  | .error f => .error f
  | .ok (read, c) => .ok (String.ofList read.reverse, c)

/-! ## Plain scalars -/

/-- The brackets and the comma of flow collections. -/
def isFlowMark (c : Char) : Bool :=
  c = ',' || c = '[' || c = ']' || c = '\x7b' || c = '\x7d'

/-- The characters of a plain scalar up to a gap or its end, the last one read first. -/
def scanPlainRun (inFlow : Bool) :
    (fuel : Nat) → (read : List Char) → Cursor → Except Fault (List Char × Cursor)
  | 0, read, c => .ok (read, c)
  | fuel + 1, read, c =>
    match c.head? with
    | none => .ok (read, c)
    | some d =>
      if isSpaceOrTab d || isBreak d then .ok (read, c)
      else if d = ':' ∧ inFlow ∧ (c.at? 1).any (fun e => isFlowMark e || e = '?') then
        c.fault "unexpected colon"
      else if (d = ':' ∧ isGap (c.at? 1)) ∨ (inFlow ∧ isFlowMark d) then .ok (read, c)
      else scanPlainRun inFlow fuel (d :: read) (c.skip 1)

/-- A plain scalar: its text with the last character first, the cursor behind it and the blanks
that follow, and whether a line ended there. `gap` lies before the piece that comes next. -/
def scanPlainFrom (inFlow : Bool) (indent : Nat) :
    (fuel : Nat) → (read : List Char) → (gap : Fold) → Cursor →
      Except Fault (List Char × Bool × Cursor)
  | 0, read, gap, c => .ok (read, gap.broken, c)
  | fuel + 1, read, gap, c =>
    if c.isDocumentMark ∨ c.head? = some '#' then .ok (read, gap.broken, c)
    else
      match scanPlainRun inFlow (c.rest.length + 1) [] c with
      | .error f => .error f
      | .ok (run, c) =>
        let (read, gap) :=
          if run.isEmpty then (read, gap) else (run ++ gap.text.reverse ++ read, Fold.empty)
        match c.head? with
        | none => .ok (read, gap.broken, c)
        | some d =>
          if !(isSpaceOrTab d || isBreak d) then .ok (read, gap.broken, c)
          else
            match scanGap indent (c.rest.length + 1) gap c with
            | .error f => .error f
            | .ok (gap, c) =>
              if !inFlow && c.column < indent then .ok (read, gap.broken, c)
              else scanPlainFrom inFlow indent fuel read gap c

/-- A plain scalar. `indent` is the least column of its further lines. -/
def scanPlain (inFlow : Bool) (indent : Nat) (c : Cursor) :
    Except Fault (String × Bool × Cursor) :=
  match scanPlainFrom inFlow indent (c.rest.length + 1) [] Fold.empty c with
  | .error f => .error f
  | .ok (read, broken, c) => .ok (String.ofList read.reverse, broken, c)

/-! ## Block scalars -/

/-- What becomes of the line ends behind a block scalar. -/
inductive Chomping where
  | strip
  | clip
  | keep
deriving DecidableEq, Repr

/-- The header of a block scalar behind its indicator: a chomping mark and an indentation digit, in
either order. -/
def scanBlockHeader (c : Cursor) : Except Fault (Chomping × Option Nat × Cursor) := do
  let chomp := fun (c : Cursor) =>
    match c.head? with
    | some '+' => (Chomping.keep, c.skip 1)
    | some '-' => (Chomping.strip, c.skip 1)
    | _ => (Chomping.clip, c)
  let digit := fun (c : Cursor) => (show Except Fault (Option Nat × Cursor) from
    match c.head?.bind Decimal.digitValue? with
    | some 0 => c.fault "the indentation is zero"
    | some d => .ok (some d, c.skip 1)
    | none => .ok (none, c))
  let (first, c) := chomp c
  let (increment, c) ← digit c
  if first = .clip ∧ increment.isSome then
    let (second, c) := chomp c
    return (second, increment, c)
  else return (first, increment, c)

/-- The line ends and indentation before a line of a block scalar. Without an indentation yet, the
deepest column met gives it, but at least `least`. -/
def scanIndent (least : Nat) : (fuel : Nat) → (indent : Option Nat) → (deepest : Nat) →
    (breaks : List Char) → Cursor → Except Fault (Nat × List Char × Cursor)
  | 0, indent, deepest, breaks, c => .ok (indent.getD (max deepest least), breaks, c)
  | fuel + 1, indent, deepest, breaks, c =>
    let room := match indent with
      | some n => n - c.column
      | none => c.rest.length
    let spaces := (c.rest.take room).takeWhile (· = ' ')
    let c := c.skip spaces.length
    let deepest := max deepest c.column
    let inIndent : Bool := match indent with
      | some n => c.column < n
      | none => true
    match c.head? with
    | some d =>
      if d = '\t' ∧ inIndent then c.fault "a tab stands in the indentation"
      else if isBreak d then
        let (lineEnd, next) := c.takeBreak
        scanIndent least fuel indent deepest (breaks ++ lineEnd) next
      else .ok (indent.getD (max deepest least), breaks, c)
    | none => .ok (indent.getD (max deepest least), breaks, c)

/-- What has been read of a block scalar: its text with the last character first, the end of the
last line, and the line ends behind that. -/
structure BlockText where
  read : List Char
  lineEnd : List Char
  breaks : List Char
  startsBlank : Bool

/-- The lines of a block scalar with their indentation. -/
def scanBlockLines (literal : Bool) (indent : Nat) :
    (fuel : Nat) → BlockText → Cursor → Except Fault (BlockText × Cursor)
  | 0, t, c => .ok (t, c)
  | fuel + 1, t, c =>
    if c.column = indent ∧ !c.isAtEnd then
      let startsBlank := c.head?.any isSpaceOrTab
      let joint :=
        if !literal ∧ t.lineEnd = ['\n'] ∧ !t.startsBlank ∧ !startsBlank then
          (if t.breaks.isEmpty then [' '] else [])
        else t.lineEnd
      let (line, c) := c.span fun d => !isBreak d
      let (lineEnd, c) := c.takeBreak
      let read := line.reverse ++ (joint ++ t.breaks).reverse ++ t.read
      match scanIndent 0 (c.rest.length + 1) (some indent) 0 [] c with
      | .error f => .error f
      | .ok (_, breaks, c) =>
        scanBlockLines literal indent fuel ⟨read, lineEnd, breaks, startsBlank⟩ c
    else .ok (t, c)

/-- A block scalar from its indicator on, in a collection at the column `parent`, if any. -/
def scanBlock (literal : Bool) (parent : Option Nat) (c : Cursor) :
    Except Fault (String × Cursor) := do
  let (chomping, increment, c) ← scanBlockHeader (c.skip 1)
  let c ← c.finishLine
  let least := match parent with
    | some n => n + 1
    | none => 1
  let indent := increment.map fun n => match parent with
    | some p => p + n
    | none => n
  let (indent, breaks, c) ← scanIndent least (c.rest.length + 1) indent 0 [] c
  let (t, c) ← scanBlockLines literal indent (c.rest.length + 1) ⟨[], [], breaks, false⟩ c
  let tail := match chomping with
    | .strip => []
    | .clip => t.lineEnd
    | .keep => t.lineEnd ++ t.breaks
  return (String.ofList (t.read.reverse ++ tail), c)

end Crosswalk.Yaml
