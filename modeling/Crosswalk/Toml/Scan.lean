import Crosswalk.Toml.Basic
import Crosswalk.Toml.Moment
import Crosswalk.Decimal.Reading
import Crosswalk.Text.Hex

/-!
# Keys and scalars in TOML text

The readers work on the unread characters, in which every line ends with a line feed.

* `scanKey`: a dotted key.
* `scanString?`: a string in one of its four forms.
* `scanNumber`: a moment, a binary64 number or an integer.
-/

namespace Crosswalk.Toml

/-- Why a text is not TOML. -/
inductive Problem where
  | key
  | equals
  | value
  | string
  | escape
  | number
  | closing (mark : String)
  | lineEnd
  | tooDeep
  | repeated (name : String)
  | notTable (name : String)
deriving DecidableEq, Repr

/-- The text of a problem. -/
def Problem.message : Problem → String
  | key => "expected a key"
  | equals => "expected an equals sign"
  | value => "expected a value"
  | string => "unclosed string"
  | escape => "unknown escape"
  | number => "not a number"
  | closing mark => "expected " ++ mark
  | lineEnd => "expected the end of the line"
  | tooDeep => "nested too deep"
  | repeated name => "key " ++ name ++ " is repeated"
  | notTable name => "key " ++ name ++ " is no table"

/-- A text that is not TOML: what is wrong, and what is unread. -/
structure Fault where
  problem : Problem
  rest : List Char
deriving DecidableEq, Repr

/-- A result and the unread characters. -/
abbrev Scan (α : Type) := Except Fault (α × List Char)

/-! ## Characters -/

def isSpace (c : Char) : Bool := c = ' ' || c = '\t'

def skipSpace (cs : List Char) : List Char := cs.dropWhile isSpace

/-- Characters of a comment and, but for their closing marks, of a string on one line. -/
def isText (c : Char) : Bool := c = '\t' || (0x20 ≤ c.toNat && c.toNat ≠ 0x7F)

/-- Every line ends with a line feed alone. A carriage return stays where no line feed follows. -/
def unifyBreaks : List Char → List Char
  | [] => []
  | '\r' :: '\n' :: cs => '\n' :: unifyBreaks cs
  | c :: cs => c :: unifyBreaks cs

/-- Behind the end of a line; none if there is none. -/
def newline? : List Char → Option (List Char)
  | '\n' :: cs => some cs
  | _ => none

/-- Behind a comment, if there is one. -/
def skipComment : List Char → List Char
  | '#' :: cs => cs.dropWhile isText
  | cs => cs

/-- Behind blanks, comments and the ends of lines. Every round but the last reads a line, so `fuel`
rounds suffice for a text of that length. -/
def skipLines : (fuel : Nat) → List Char → List Char
  | 0, cs => cs
  | fuel + 1, cs =>
    match newline? (skipComment (skipSpace cs)) with
    | some rest => skipLines fuel rest
    | none => skipSpace cs

/-! ## Strings -/

/-- The character with a code of exactly `count` hexadecimal digits. -/
def scanCode? (count : Nat) (cs : List Char) : Option (Char × List Char) :=
  let ds := cs.take count
  if ds.length = count then
    match ds.foldlM (fun n c => (Text.hexValue? c).map fun d => 16 * n + d) 0 with
    | some n => if n.isValidChar then some (Char.ofNat n, cs.drop count) else none
    | none => none
  else none

/-- The character of an escape behind its backslash. -/
def scanEscape? : List Char → Option (Char × List Char)
  | 'b' :: cs => some ('\x08', cs)
  | 't' :: cs => some ('\t', cs)
  | 'n' :: cs => some ('\n', cs)
  | 'f' :: cs => some ('\x0c', cs)
  | 'r' :: cs => some ('\r', cs)
  | '"' :: cs => some ('"', cs)
  | '\\' :: cs => some ('\\', cs)
  | 'u' :: cs => scanCode? 4 cs
  | 'U' :: cs => scanCode? 8 cs
  | _ => none

/-- The characters of a string on one line up to its quote, given those read, the last one first.
Every round reads at least one character. -/
def scanShort (quote : Char) : (fuel : Nat) → (read : List Char) → List Char → Scan String
  | 0, _, cs => .error ⟨.string, cs⟩
  | _ + 1, _, [] => .error ⟨.string, []⟩
  | fuel + 1, read, c :: cs =>
    if c = quote then .ok (String.ofList read.reverse, cs)
    else if c = '\\' ∧ quote = '"' then
      match scanEscape? cs with
      | some (d, rest) => scanShort quote fuel (d :: read) rest
      | none => .error ⟨.escape, cs⟩
    else if isText c then scanShort quote fuel (c :: read) cs
    else .error ⟨.string, c :: cs⟩

/-- Behind the blanks and ends of lines, if the line ends behind the next blanks. -/
def skipFold? (cs : List Char) : Option (List Char) :=
  (newline? (skipSpace cs)).map fun rest =>
    rest.dropWhile fun c => isSpace c || c = '\n'

/-- The characters of a long string up to its three quotes, given those read, the last one first.
Up to two quotes may stand before the closing ones. -/
def scanLongChars (quote : Char) : (fuel : Nat) → (read : List Char) → List Char → Scan String
  | 0, _, cs => .error ⟨.string, cs⟩
  | _ + 1, _, [] => .error ⟨.string, []⟩
  | fuel + 1, read, c :: cs =>
    if c = quote then
      let run := ((c :: cs).takeWhile (· = quote)).length
      if run ≤ 2 then scanLongChars quote fuel (c :: read) cs
      else
        let closing := min run 5
        .ok (String.ofList (read.reverse ++ List.replicate (closing - 3) quote),
          (c :: cs).drop closing)
    else if c = '\\' ∧ quote = '"' then
      match skipFold? cs with
      | some rest => scanLongChars quote fuel read rest
      | none =>
        match scanEscape? cs with
        | some (d, rest) => scanLongChars quote fuel (d :: read) rest
        | none => .error ⟨.escape, cs⟩
    else if c = '\n' ∨ isText c then scanLongChars quote fuel (c :: read) cs
    else .error ⟨.string, c :: cs⟩

/-- A long string behind its opening quotes. A line that ends there is not part of it. -/
def scanLong (quote : Char) (cs : List Char) : Scan String :=
  let cs := (newline? cs).getD cs
  scanLongChars quote (cs.length + 1) [] cs

/-- A string, if a quote stands here. -/
def scanString? : List Char → Option (Scan String)
  | '"' :: '"' :: '"' :: cs => some (scanLong '"' cs)
  | '\'' :: '\'' :: '\'' :: cs => some (scanLong '\'' cs)
  | '"' :: cs => some (scanShort '"' (cs.length + 1) [] cs)
  | '\'' :: cs => some (scanShort '\'' (cs.length + 1) [] cs)
  | _ => none

/-! ## Keys -/

/-- One part of a key. -/
def scanKeyPart : List Char → Scan String
  | '"' :: cs => scanShort '"' (cs.length + 1) [] cs
  | '\'' :: cs => scanShort '\'' (cs.length + 1) [] cs
  | cs =>
    let name := cs.takeWhile isBareChar
    if name.isEmpty then .error ⟨.key, cs⟩ else .ok (String.ofList name, cs.dropWhile isBareChar)

/-- Keys and containers nest less deep than this. -/
def maxDepth : Nat := 80

/-- The parts of a key, with blanks around each of them. `count` parts are still allowed. -/
def scanKeyParts : (count : Nat) → List Char → Scan (List String)
  | 0, cs => .error ⟨.tooDeep, cs⟩
  | count + 1, cs =>
    match scanKeyPart (skipSpace cs) with
    | .error f => .error f
    | .ok (name, rest) =>
      match skipSpace rest with
      | '.' :: rest => (scanKeyParts count rest).map fun (names, rest) => (name :: names, rest)
      | rest => .ok ([name], rest)

/-- A dotted key. -/
def scanKey (cs : List Char) : Scan (List String) := scanKeyParts (maxDepth - 1) cs

/-! ## Numbers -/

/-- Digits with single underscores between them, without the underscores. -/
def scanDigits? (isDigit : Char → Bool) : List Char → Option (List Char × List Char)
  | [] => none
  | c :: cs =>
    if isDigit c then
      match cs with
      | '_' :: rest => (scanDigits? isDigit rest).map fun (ds, rest) => (c :: ds, rest)
      | d :: rest =>
        if isDigit d then (scanDigits? isDigit (d :: rest)).map fun (ds, rest) => (c :: ds, rest)
        else some ([c], d :: rest)
      | [] => some ([c], [])
    else none

/-- The digits of a decimal integer: a zero alone, or digits that begin with another one. -/
def scanWhole? : List Char → Option (List Char × List Char)
  | '0' :: cs => some (['0'], cs)
  | cs => scanDigits? Decimal.isDigit cs

/-- The places of a number behind its point. -/
def scanPlaces? : List Char → Option (List Char × List Char)
  | '.' :: cs => (scanDigits? Decimal.isDigit cs).map fun (ds, rest) => ('.' :: ds, rest)
  | cs => some ([], cs)

/-- The exponent part of a number. -/
def scanExponent? : List Char → Option (List Char × List Char)
  | c :: cs =>
    if c = 'e' ∨ c = 'E' then
      let (sign, cs) := match cs with
        | '+' :: rest => ([], rest)
        | '-' :: rest => (['-'], rest)
        | cs => ([], cs)
      (scanDigits? Decimal.isDigit cs).map fun (ds, rest) => ('e' :: (sign ++ ds), rest)
    else some ([], c :: cs)
  | [] => some ([], [])

/-- The number of digits in a base up to sixteen, if it fits in 64 bits. -/
def ofDigits? (base : Nat) (ds : List Char) : Option Int64 :=
  let n := ds.foldl (fun n c => n * base + (Text.hexValue? c).getD 0) 0
  if n < Nat.pow 2 63 then some (Int64.ofInt n) else none

/-- An integer in a base behind the mark of that base. -/
def scanBased (base : Nat) (cs : List Char) : Scan Toml :=
  let isDigit := fun c => (Text.hexValue? c).any (· < base)
  match scanDigits? isDigit cs with
  | some (ds, rest) =>
    match ofDigits? base ds with
    | some n => .ok (.int n, rest)
    | none => .error ⟨.number, cs⟩
  | none => .error ⟨.number, cs⟩

/-- A decimal: an integer, unless it has places or an exponent part. A number above the greatest
binary64 number is refused. -/
def scanDecimal (negative : Bool) (cs : List Char) : Scan Toml :=
  let parts : Option (List Char × List Char × List Char × List Char) := do
    let (whole, rest) ← scanWhole? cs
    let (places, rest) ← scanPlaces? rest
    let (exponent, rest) ← scanExponent? rest
    some (whole, places, exponent, rest)
  let refused : Scan Toml := .error ⟨.number, cs⟩
  match parts with
  | none => refused
  | some (whole, [], [], rest) =>
    match Decimal.int64OfText? (String.ofList ((if negative then ['-'] else []) ++ whole)) with
    | some n => .ok (.int n, rest)
    | none => refused
  | some (whole, places, exponent, rest) =>
    match Binary64.ofUnsignedChars? negative (whole ++ places ++ exponent) with
    | some x => if x = Binary64.infinity false then refused else .ok (.float x, rest)
    | none => refused

/-- A number behind its sign. -/
def scanSigned (negative : Bool) : List Char → Scan Toml
  | 'i' :: 'n' :: 'f' :: rest => .ok (.float (Binary64.infinity negative), rest)
  | 'n' :: 'a' :: 'n' :: rest => .ok (.float (Binary64.nan negative), rest)
  | cs => scanDecimal negative cs

/-- A moment or a number. -/
def scanNumber (cs : List Char) : Scan Toml :=
  match scanMoment? cs with
  | some (m, rest) => .ok (.moment m.text, rest)
  | none =>
    match cs with
    | '0' :: 'x' :: cs => scanBased 16 cs
    | '0' :: 'o' :: cs => scanBased 8 cs
    | '0' :: 'b' :: cs => scanBased 2 cs
    | '-' :: cs => scanSigned true cs
    | '+' :: cs => scanSigned false cs
    | cs => scanSigned false cs

end Crosswalk.Toml
