import Crosswalk.Json.Basic
import Crosswalk.Yaml.Scalar
import Crosswalk.Yaml.Token
import Crosswalk.Text.Hex

/-!
# Writing YAML

Collections are written in blocks, two columns deeper for every level; a sequence in a mapping is
not indented, and empty collections are written in brackets. A string is written without quotes
where that reads back as the same string, else in single quotes, and in double quotes where it holds
characters that must be escaped. A string of several lines is written line by line.

* `Style.ofString`: how a string is written.
* `print`: the text of a document.
-/

namespace Crosswalk.Yaml

/-- The number of columns of one level. -/
def indentWidth : Nat := 2

def spaces (n : Nat) : List Char := List.replicate n ' '

/-! ## How a string is written -/

inductive Style where
  | plain
  | single
  | double
  | literal
deriving DecidableEq, Repr

/-- Characters that can stand in a text as they are. -/
def isPrintable (c : Char) : Bool :=
  let n := c.toNat
  n = 10 || (0x20 ≤ n && n ≤ 0x7E) || (0xA0 ≤ n && n ≠ 0xFEFF && n ≠ 0xFFFE && n ≠ 0xFFFF)

/-- A blank, the end of a line, or no character at all. -/
def isBlankEnd : Option Char → Bool
  | none => true
  | some c => isSpaceOrTab c || isBreak c || c = '\x00'

/-- Each character between its neighbours. -/
def withNeighbours : (before : Option Char) → List Char → List (Option Char × Char × Option Char)
  | _, [] => []
  | before, c :: cs => (before, c, cs.head?) :: withNeighbours (some c) cs

/-- A character that would end or start something else than a plain scalar. -/
def isIndicator : Option Char × Char × Option Char → Bool
  | (none, c, after) =>
    "#,[]&*!|>'\"%@".toList.contains c || c = '\x60' || c = '\x7b' || c = '\x7d'
      || ((c = '?' || c = ':' || c = '-') && isBlankEnd after)
  | (some before, c, after) =>
    (c = ':' && isBlankEnd after) || (c = '#' && isBlankEnd (some before))

/-- A mark of documents at the beginning of a text. -/
def startsLikeDocument (cs : List Char) : Bool :=
  cs.take 3 == ['-', '-', '-'] || cs.take 3 == ['.', '.', '.']

/-- Two neighbouring characters with given properties. -/
def hasPair (p q : Char → Bool) (cs : List Char) : Bool :=
  (cs.zip cs.tail).any fun (c, d) => p c && q d

/-- A space or the end of a line. -/
def isOuterGap (c : Char) : Bool := c = ' ' || isBreak c

/-- The string can be written without quotes. -/
def allowsPlain (cs : List Char) : Bool :=
  cs.all isPrintable && !cs.any isBreak && !cs.head?.any isOuterGap
    && !cs.getLast?.any isOuterGap && !startsLikeDocument cs
    && !(withNeighbours none cs).any isIndicator

/-- The string can be written in single quotes. -/
def allowsSingle (cs : List Char) : Bool :=
  cs.all isPrintable && !hasPair isBreak (· = ' ') cs && !hasPair (· = ' ') isBreak cs

/-- The string can be written line by line. -/
def allowsLiteral (cs : List Char) : Bool :=
  cs.all isPrintable && !hasPair (· = ' ') isBreak cs && cs.getLast? ≠ some ' '

/-- The text would be read as something else than a string, or as another number with its leading
zero taken off. -/
def isAmbiguous (s : String) : Bool :=
  hasLeadingZero s.toList || match ofPlain s with
    | .ok (string _) => false
    | _ => true

/-- How a string is written, as the key of a line or elsewhere. -/
def Style.ofString (isKey : Bool) (s : String) : Style :=
  let cs := s.toList
  let quoted := if allowsSingle cs then single else double
  if cs.contains '\n' then
    if allowsLiteral cs && !isKey then literal else double
  else if isAmbiguous s then quoted
  else if allowsPlain cs then plain
  else quoted

/-! ## Strings -/

/-- The last `count` hexadecimal digits of a number. -/
def upperHex : (count : Nat) → Nat → List Char
  | 0, _ => []
  | count + 1, n => upperHex count (n / 16) ++ [Text.upperDigit (n % 16)]

/-- A character in double quotes. -/
def escapeDouble (c : Char) : List Char :=
  let n := c.toNat
  if isPrintable c && !isBreak c && c ≠ '"' && c ≠ '\\' then [c]
  else if n = 0 then ['\\', '0']
  else if n = 7 then ['\\', 'a']
  else if n = 8 then ['\\', 'b']
  else if n = 9 then ['\\', 't']
  else if n = 10 then ['\\', 'n']
  else if n = 11 then ['\\', 'v']
  else if n = 12 then ['\\', 'f']
  else if n = 13 then ['\\', 'r']
  else if n = 27 then ['\\', 'e']
  else if c = '"' then ['\\', '"']
  else if c = '\\' then ['\\', '\\']
  else if n = 0x85 then ['\\', 'N']
  else if n = 0x2028 then ['\\', 'L']
  else if n = 0x2029 then ['\\', 'P']
  else if n ≤ 0xFF then '\\' :: 'x' :: upperHex 2 n
  else if n ≤ 0xFFFF then '\\' :: 'u' :: upperHex 4 n
  else '\\' :: 'U' :: upperHex 8 n

/-- Lines with an indentation before every character that begins one. `atStart` tells whether a line
begins here. -/
def indentLines (indent : Nat) (encode : Char → List Char) :
    (atStart : Bool) → List Char → List Char
  | _, [] => []
  | atStart, c :: cs =>
    if isBreak c then c :: indentLines indent encode true cs
    else (if atStart then spaces indent else []) ++ encode c ++ indentLines indent encode false cs

/-- A string in single quotes. -/
def singleQuoted (indent : Nat) (cs : List Char) : List Char :=
  let encode := fun c => if c = '\'' then ['\'', '\''] else [c]
  let closing := if cs.getLast?.any isBreak then spaces indent else []
  '\'' :: (indentLines indent encode false cs ++ closing ++ ['\''])

/-- The marks behind the bar: the indentation if the first line does not show it, and what becomes
of the line ends behind the string. -/
def literalMarks (cs : List Char) : List Char :=
  let indentMark := if cs.head?.any isOuterGap then ['2'] else []
  let chompMark := match cs.reverse with
    | [] => ['-']
    | [c] => if isBreak c then ['+'] else ['-']
    | c :: d :: _ => if !isBreak c then ['-'] else if isBreak d then ['+'] else []
  indentMark ++ chompMark

/-- A string whose further lines are indented. -/
def stringChars (isKey : Bool) (indent : Nat) (s : String) : List Char :=
  let cs := s.toList
  match Style.ofString isKey s with
  | .plain => cs
  | .single => singleQuoted indent cs
  | .double => '"' :: (cs.flatMap escapeDouble ++ ['"'])
  | .literal => '|' :: (literalMarks cs ++ '\n' :: indentLines indent (fun c => [c]) true cs)

/-- The end of a line, unless the text has ended with one. -/
def endLine (cs : List Char) : List Char := if cs.getLast?.any isBreak then cs else cs ++ ['\n']

/-! ## Collections -/

/-- The text of what is no block, with its further lines indented: a scalar or an empty
collection. -/
def inlineChars? (indent : Nat) : Json → Option (List Char)
  | .null => some "null".toList
  | .bool b => some (boolText b).toList
  | .number n => some n.yamlText.toList
  | .string s => some (stringChars false indent s)
  | .array [] => some ['[', ']']
  | .object [] => some ['\x7b', '\x7d']
  | _ => none

/-- Longer keys do not stand on the line of their value. -/
def maxKeyLength : Nat := 128

/-- The key can stand in front of a colon. -/
def isSimpleKey (s : String) : Bool := s.utf8ByteSize ≤ maxKeyLength && !s.toList.any isBreak

/-- Lines one below the other at a column. -/
def stack (column : Nat) (lines : List (List Char)) : List Char :=
  [].intercalate ((lines.take 1) ++ (lines.drop 1).map fun l => spaces column ++ l)

/-- The text of a tree whose first line begins at a column, behind whatever stands there already. -/
def blockChars (column : Nat) : Json → List Char
  | .array ys => if ys.isEmpty then ['[', ']', '\n'] else
    stack column (ys.map fun y => '-' :: ' ' :: blockChars (column + indentWidth) y)
  | .object ms => if ms.isEmpty then ['\x7b', '\x7d', '\n'] else
    stack column (ms.map fun m =>
      if isSimpleKey m.1 then
        stringChars true (column + indentWidth) m.1 ++ ':' ::
          match inlineChars? (column + indentWidth) m.2 with
          | some cs => ' ' :: endLine cs
          | none =>
            let deeper := match m.2 with
              | .array _ => column
              | _ => column + indentWidth
            '\n' :: (spaces deeper ++ blockChars deeper m.2)
      else
        '?' :: ' ' :: (endLine (stringChars false (column + indentWidth) m.1) ++ spaces column
          ++ ':' :: ' ' :: blockChars (column + indentWidth) m.2))
  | j => endLine ((inlineChars? column j).getD [])
termination_by j => sizeOf j
decreasing_by
  · have := List.sizeOf_lt_of_mem ‹_›
    simp only [Json.array.sizeOf_spec]; omega
  · have := Json.sizeOf_member_lt ‹_›
    simp only [Json.object.sizeOf_spec]; omega
  · have := Json.sizeOf_member_lt ‹_›
    simp only [Json.object.sizeOf_spec]; omega

/-- The text of a document. -/
def print (j : Json) : String :=
  String.ofList (match inlineChars? indentWidth j with
    | some cs => endLine cs
    | none => blockChars 0 j)

end Crosswalk.Yaml
