/-!
# YAML tokens

* `Token`: the pieces that a YAML text is cut into. Brackets of block collections, which the text
  shows by indentation alone, have tokens too.
* `Cursor`: the unread text and the place where it begins.
-/

namespace Crosswalk.Yaml

/-- Why a text is not YAML, and the line, counted from zero, where that shows. -/
structure Fault where
  message : String
  line : Nat
deriving Repr

/-- Whether the text of a scalar stood there as it is; only then is it resolved. -/
inductive Quoting where
  | plain
  | quoted
deriving DecidableEq, Repr

inductive Token where
  | streamEnd
  | versionDirective (major minor : Nat)
  | tagDirective (handle shorthand : String)
  | documentStart
  | documentEnd
  | blockSequenceStart
  | blockMappingStart
  | blockEnd
  | flowSequenceStart
  | flowSequenceEnd
  | flowMappingStart
  | flowMappingEnd
  | blockEntry
  | flowEntry
  | key
  | value
  | alias (name : String)
  | anchor (name : String)
  | tag (handle suffix : String)
  | scalar (text : String) (quoting : Quoting)
deriving DecidableEq, Repr

/-! ## Characters -/

/-- The end of a line. -/
def isBreak (c : Char) : Bool :=
  c = '\n' || c = '\r' || c = '\u0085' || c = '\u2028' || c = '\u2029'

def isSpaceOrTab (c : Char) : Bool := c = ' ' || c = '\t'

/-- A blank, the end of a line, or the end of the text. -/
def isGap : Option Char → Bool
  | none => true
  | some c => isSpaceOrTab c || isBreak c

/-- A character of a name: an ASCII letter or digit, a hyphen or an underscore. -/
def isWordChar (c : Char) : Bool := c.isAlphanum || c = '-' || c = '_'

/-- Characters that a text may hold at all. -/
def isAllowed (c : Char) : Bool :=
  let n := c.toNat
  n = 9 || n = 10 || n = 13 || (0x20 ≤ n && n ≤ 0x7E) || n = 0x85 || (0xA0 ≤ n && n ≤ 0xD7FF)
    || (0xE000 ≤ n && n ≤ 0xFFFD) || 0x10000 ≤ n

/-! ## Cursors -/

/-- The unread text and the place where it begins, counted from zero. -/
structure Cursor where
  rest : List Char
  index : Nat
  line : Nat
  column : Nat
deriving Repr

namespace Cursor

def ofText (cs : List Char) : Cursor := ⟨cs, 0, 0, 0⟩

def fault {α : Type} (c : Cursor) (message : String) : Except Fault α := .error ⟨message, c.line⟩

/-- The next character. -/
def head? (c : Cursor) : Option Char := c.rest.head?

/-- The `n`-th character from here. -/
def at? (c : Cursor) (n : Nat) : Option Char := c.rest[n]?

def isAtEnd (c : Cursor) : Bool := c.rest.isEmpty

/-- Behind the next `n` characters, none of which ends a line. -/
def skip (c : Cursor) (n : Nat) : Cursor :=
  { c with rest := c.rest.drop n, index := c.index + n, column := c.column + n }

/-- The characters up to the first one without a property, and the cursor behind them. -/
def span (c : Cursor) (p : Char → Bool) : List Char × Cursor :=
  let taken := c.rest.takeWhile p
  (taken, c.skip taken.length)

/-- Behind the characters up to the first one without a property. -/
def skipWhile (c : Cursor) (p : Char → Bool) : Cursor := (c.span p).2

/-- At the beginning of the next line, behind `n` characters. -/
def nextLine (c : Cursor) (n : Nat) : Cursor :=
  ⟨c.rest.drop n, c.index + n, c.line + 1, 0⟩

/-- The end of a line, as a text keeps it, and the cursor behind it: a line feed for any of the
usual ends. -/
def takeBreak (c : Cursor) : List Char × Cursor :=
  match c.rest with
  | '\r' :: '\n' :: _ => (['\n'], c.nextLine 2)
  | d :: _ =>
    if d = '\u2028' ∨ d = '\u2029' then ([d], c.nextLine 1)
    else if isBreak d then (['\n'], c.nextLine 1)
    else ([], c)
  | [] => ([], c)

/-- Behind the end of the line, if it is here. -/
def skipBreak (c : Cursor) : Cursor := c.takeBreak.2

/-- Whether a line begins here with a mark of three characters and a gap. -/
def startsWith3 (c : Cursor) (mark : Char) : Bool :=
  c.column = 0 && c.rest.take 3 == [mark, mark, mark] && isGap (c.at? 3)

/-- Whether a line begins here with a document mark. -/
def isDocumentMark (c : Cursor) : Bool := c.startsWith3 '-' || c.startsWith3 '.'

/-- Behind a comment, up to the end of its line. -/
def skipComment (c : Cursor) : Cursor :=
  if c.head? = some '#' then c.skipWhile fun d => !isBreak d else c

/-- Behind the rest of a line on which nothing but a comment may stand. -/
def finishLine (c : Cursor) : Except Fault Cursor :=
  let c := (c.skipWhile isSpaceOrTab).skipComment
  match c.head? with
  | none => .ok c
  | some d => if isBreak d then .ok c.skipBreak else c.fault "expected a comment or a line break"

end Cursor

end Crosswalk.Yaml
