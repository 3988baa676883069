import Crosswalk.Toml.Basic
import Crosswalk.Value.Display
import Crosswalk.Text.Hex

/-!
# Writing TOML

The scalars and arrays of a table stand behind its header, and its tables behind those, each with a
header of its own. An array of tables that is an entry of a table has a header for every element;
elsewhere tables are written in braces. An array of several elements has a line for each.

* `Style.ofString`: how a string is written.
* `print`: the text of a document.
-/

namespace Crosswalk.Toml

/-! ## Strings -/

/-- The four ways to write a string. A literal string has no escapes; a long one may hold the ends
of lines. -/
structure Style where
  literal : Bool
  long : Bool
deriving DecidableEq, Repr

/-- A control character that only an escape can stand for. -/
def isControl (c : Char) : Bool :=
  (c.toNat < 0x20 && c ≠ '\t' && c ≠ '\n') || c.toNat = 0x7F

/-- The length of the longest run of a character. -/
def longestRun (quote : Char) (cs : List Char) : Nat :=
  (cs.foldl (fun (longest, run) c =>
    let run := if c = quote then run + 1 else 0
    (max longest run, run)) (0, 0)).1

/-- How a string is written: as plainly as its characters allow. -/
def Style.ofChars (cs : List Char) : Style :=
  let controls := cs.any isControl
  let escapes := controls || cs.contains '\\'
  let breaks := cs.contains '\n'
  let doubles := longestRun '"' cs
  let singles := longestRun '\'' cs
  if !escapes && doubles = 0 && !breaks then ⟨false, false⟩
  else if !controls && singles = 0 && !breaks then ⟨true, false⟩
  else if !escapes && doubles ≤ 2 then ⟨false, true⟩
  else if !controls && singles ≤ 2 then ⟨true, true⟩
  else ⟨false, breaks⟩

/-- How a quoted key is written: on one line. -/
def Style.ofKey (cs : List Char) : Style :=
  let controls := cs.any isControl || cs.contains '\n'
  if !controls && !cs.contains '\\' && !cs.contains '"' then ⟨false, false⟩
  else if !controls && !cs.contains '\'' then ⟨true, false⟩
  else ⟨false, false⟩

/-- A character other than a quote behind which escapes are read. -/
def escapeChar (long : Bool) (c : Char) : List Char :=
  if c = '\x08' then ['\\', 'b']
  else if c = '\t' then ['\\', 't']
  else if c = '\n' then if long then ['\n'] else ['\\', 'n']
  else if c = '\x0c' then ['\\', 'f']
  else if c = '\r' then ['\\', 'r']
  else if c = '\\' then ['\\', '\\']
  else if c.toNat < 0x20 ∨ c.toNat = 0x7F then
    ['\\', 'u', '0', '0', Text.upperDigit (c.toNat / 16), Text.upperDigit (c.toNat % 16)]
  else [c]

/-- Characters with escapes, behind `run` quotes in a row. A long string has up to two quotes in a
row as they are, any other none. -/
def escapeChars (long : Bool) : (run : Nat) → List Char → List Char
  | _, [] => []
  | run, c :: cs =>
    if c = '"' then
      if long ∧ run < 2 then '"' :: escapeChars long (run + 1) cs
      else '\\' :: '"' :: escapeChars long 0 cs
    else escapeChar long c ++ escapeChars long 0 cs

/-- The characters of a string in a style. A long string with several lines begins on a line of its
own. -/
def Style.chars (s : Style) (cs : List Char) : List Char :=
  let quote := if s.literal then '\'' else '"'
  let mark := List.replicate (if s.long then 3 else 1) quote
  let opening := if s.long ∧ cs.contains '\n' then mark ++ ['\n'] else mark
  opening ++ (if s.literal then cs else escapeChars s.long 0 cs) ++ mark

/-- A string. -/
def quote (s : String) : String := String.ofList ((Style.ofChars s.toList).chars s.toList)

/-- A key. -/
def keyText (s : String) : String :=
  let cs := s.toList
  if cs ≠ [] ∧ cs.all isBareChar then s else String.ofList ((Style.ofKey cs).chars cs)

/-! ## Values -/

/-- Numbers have no exponent part, and whole ones end in `.0`. -/
def numberLayout : Decimal.Layout where
  tie := .up
  positional := none
  keepsPoint := true
  signsExponent := false
  nan := "nan"
  signsNaN := false

def isTable : Toml → Bool
  | table _ => true
  | _ => false

/-- An array with a table among its elements. -/
def holdsTable : Toml → Bool
  | array ts => ts.any isTable
  | _ => false

/-- An array of tables. -/
def isTables : Toml → Bool
  | array ts => !ts.isEmpty && ts.all isTable
  | _ => false

/-- Entries in the order in which they are written: what holds no table, arrays that hold one, and
tables. -/
def arranged {α : Type} (es : List (α × Toml)) : List (α × Toml) :=
  es.filter (fun e => !isTable e.2 && !holdsTable e.2) ++ es.filter (fun e => holdsTable e.2)
    ++ es.filter (fun e => isTable e.2)

/-- Elements in brackets; several of them stand on lines of their own. -/
def bracket (items : List String) : String :=
  if items.length ≤ 1 then "[" ++ "".intercalate items ++ "]"
  else "[\n" ++ "".intercalate (items.map fun item => "    " ++ item ++ ",\n") ++ "]"

/-- Entries in braces. -/
def brace (items : List String) : String :=
  if items.isEmpty then "\x7b\x7d" else "\x7b " ++ ", ".intercalate items ++ " \x7d"

/-- A tree in the place of a value. -/
def inlineText : Toml → String
  | bool b => boolText b
  | int n => Decimal.ofIntText n.toInt
  | float x => x.text numberLayout
  | string s => quote s
  | moment text => text
  | array ts => bracket (ts.map inlineText)
  | table es =>
    let texts : List (String × Toml) :=
      es.map fun e => (keyText e.1 ++ " = " ++ inlineText e.2, e.2)
    brace ((arranged texts).map Prod.fst)
decreasing_by
  · have := List.sizeOf_lt_of_mem ‹_›
    simp only [array.sizeOf_spec]; omega
  · have := sizeOf_entry_lt ‹_›
    simp only [table.sizeOf_spec]; omega

/-! ## Tables -/

/-- An entry that is written with headers of its own. -/
def hasHeader (t : Toml) : Bool := isTable t || isTables t

/-- The lines of the entries without headers. -/
def body (es : List (String × Toml)) : List String :=
  ((arranged es).filter fun e => !hasHeader e.2).map fun e =>
    keyText e.1 ++ " = " ++ inlineText e.2 ++ "\n"

/-- How the table of a section is introduced. -/
inductive Heading where
  | root
  | table
  | element
deriving DecidableEq, Repr

/-- A table without its tables: the names that lead to it, and its lines. -/
structure Section where
  heading : Heading
  names : List String
  lines : List String
  /-- It stands there only to hold other tables. -/
  hidden : Bool

/-- The section of a table itself. -/
def ownSection (heading : Heading) (names : List String) (es : List (String × Toml)) : Section :=
  let lines := body es
  ⟨heading, names, lines, lines.isEmpty && !es.isEmpty⟩

/-- The sections of a tree below a table, in the order in which they are written. -/
def sectionsAt (heading : Heading) (names : List String) : Toml → List Section
  | table es =>
    let below : List (List Section × Toml) :=
      es.map fun e => (sectionsAt .table (names ++ [e.1]) e.2, e.2)
    ownSection heading names es :: (arranged below).flatMap Prod.fst
  | array ts =>
    if isTables (array ts) then (ts.map (sectionsAt .element names)).flatten else []
  | _ => []
termination_by t => sizeOf t
decreasing_by
  · have := sizeOf_entry_lt ‹_›
    simp only [table.sizeOf_spec]; omega
  · have := List.sizeOf_lt_of_mem ‹_›
    simp only [array.sizeOf_spec]; omega

/-- The header of a section, if it shows. -/
def Section.header? (s : Section) : Option String :=
  let path := ".".intercalate (s.names.map keyText)
  match s.heading with
  | .root => none
  | .table => if s.hidden then none else some ("[" ++ path ++ "]\n")
  | .element => some ("[[" ++ path ++ "]]\n")

/-- The sections one below the other, a blank line before each header but one that comes first. -/
def printSections : (first : Bool) → List Section → String
  | _, [] => ""
  | first, s :: rest =>
    let text := match s.header? with
      | some header => (if first then "" else "\n") ++ header ++ "".intercalate s.lines
      | none => "".intercalate s.lines
    text ++ printSections (first && text.isEmpty) rest

/-- The text of a document. -/
def print (t : Toml) : String := printSections true (sectionsAt .root [] t)

end Crosswalk.Toml
