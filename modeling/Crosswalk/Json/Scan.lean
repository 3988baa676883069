import Crosswalk.Json.Basic
import Crosswalk.Decimal.Reading
import Crosswalk.Text.Hex

/-!
# Numbers and strings in JSON text

The readers work on the unread characters. A fault hands back what is unread behind the offending
character, which fixes the line that it is on.

* `scanNumber`: a number. Its digits are taken up as long as they fit in 64 bits, and the
  significand is then scaled by a power of ten, both of them rounded to binary64.
* `scanString`: the characters of a string up to its closing quote.
* A `skim` reads the same shape and leaves the contents unchecked.
-/

namespace Crosswalk.Json

/-- A text that is not JSON: what is unread behind the offending character. -/
structure Fault where
  rest : List Char
deriving DecidableEq, Repr

/-- A result and the unread characters. -/
abbrev Scan (α : Type) := Except Fault (α × List Char)

/-- How much of a text is checked: a skim passes over contents that nobody asks for. -/
inductive Care where
  | full
  | skim
deriving DecidableEq, Repr

def isSpace (c : Char) : Bool := c = ' ' || c = '\n' || c = '\t' || c = '\r'

/-- The unread characters from the next one that is not a blank. -/
def skipSpace (cs : List Char) : List Char := cs.dropWhile isSpace

/-- The next character is not what it should be. -/
def faultAt (cs : List Char) : Fault := ⟨cs.tail⟩

/-- The line, counted from one, on which a fault in a text lies. -/
def Fault.line (f : Fault) (text : List Char) : Nat := 1 + text.count '\n' - f.rest.count '\n'

/-- The characters of a word, one after the other. -/
def scanWord : (word : List Char) → List Char → Except Fault (List Char)
  | [], cs => .ok cs
  | _, [] => .error ⟨[]⟩
  | w :: word, c :: cs => if c = w then scanWord word cs else .error ⟨cs⟩

/-! ## Numbers -/

/-- The digits at the head of a text and what follows them. -/
def spanDigits (cs : List Char) : List Char × List Char :=
  (cs.takeWhile Decimal.isDigit, cs.dropWhile Decimal.isDigit)

/-- Digits taken up behind a significand as long as it fits in 64 bits, and the digits left. -/
def takeDigits (significand : Nat) : List Char → Nat × List Char
  | [] => (significand, [])
  | c :: cs =>
    let next := Decimal.readDigits significand [c]
    if Nat.pow 2 64 ≤ next then (significand, c :: cs) else takeDigits next cs

/-- The parts of a number text. -/
structure NumberParts where
  whole : List Char
  places : Option (List Char)
  exponent : Option Int
deriving DecidableEq, Repr

/-- The digits before the point: a zero alone, or digits that begin with another one. -/
def scanWhole : List Char → Scan (List Char)
  | '0' :: cs =>
    match cs with
    | c :: rest => if Decimal.isDigit c then .error ⟨rest⟩ else .ok (['0'], c :: rest)
    | [] => .ok (['0'], [])
  | c :: cs =>
    if Decimal.isDigit c then
      let (ds, rest) := spanDigits (c :: cs)
      .ok (ds, rest)
    else .error ⟨cs⟩
  | [] => .error ⟨[]⟩

/-- The digits behind a point, if there is one. -/
def scanPlaces : List Char → Scan (Option (List Char))
  | '.' :: cs =>
    let (ds, rest) := spanDigits cs
    if ds.isEmpty then .error (faultAt rest) else .ok (some ds, rest)
  | cs => .ok (none, cs)

/-- The exponent part, if there is one. -/
def scanExponent : List Char → Scan (Option Int)
  | c :: cs =>
    if c = 'e' ∨ c = 'E' then
      let (negative, cs) := Decimal.splitSign cs
      let (ds, rest) := spanDigits cs
      if ds.isEmpty then .error (faultAt rest)
      else
        let n : Int := Decimal.readDigits 0 ds
        .ok (some (if negative then -n else n), rest)
    else .ok (none, c :: cs)
  | [] => .ok (none, [])

/-- The parts of an unsigned number. -/
def scanParts (cs : List Char) : Except Fault (NumberParts × List Char) := do
  let (whole, cs) ← scanWhole cs
  let (places, cs) ← scanPlaces cs
  let (exponent, cs) ← scanExponent cs
  .ok (⟨whole, places, exponent⟩, cs)

/-- The binary64 number nearest to a power of ten. -/
def powerOfTen (n : Nat) : Binary64 := Binary64.ofNat (Nat.pow 10 n)

/-- A magnitude divided by a power of ten, by at most `10 ^ 308` at a time. -/
def scaleDown (x : Binary64) (n : Nat) : Binary64 :=
  if n ≤ 308 then x.div (powerOfTen n)
  else if x.grains = 0 then x
  else scaleDown (x.div (powerOfTen 308)) (n - 308)
termination_by n

/-- A magnitude times a power of ten; none if that is not finite. -/
def scale? (x : Binary64) (exponent : Int) : Option Binary64 :=
  if exponent < 0 then some (scaleDown x exponent.natAbs)
  else if exponent ≤ 308 then
    let y := x.mul (powerOfTen exponent.toNat)
    if y.isFinite then some y else none
  else if x.grains = 0 then some x
  else none

/-- The greatest exponent that is formed; a greater one decides the number by its sign. -/
def maxExponent : Int := 2147483647

/-- The number of its parts; none if it is out of range. A whole number that fits in 64 bits stays
whole. -/
def NumberParts.number? (negative : Bool) (p : NumberParts) : Option Number :=
  let (significand, dropped) := takeDigits 0 p.whole
  let signed := fun (x : Binary64) => if negative then x.neg else x
  match p.places, p.exponent with
  | none, none =>
    if dropped.isEmpty then
      if negative then
        if 0 < significand ∧ significand ≤ Nat.pow 2 63 then
          some (.negative (Int64.ofInt (-(significand : Int))))
        else some (.real (Binary64.ofNat significand).neg)
      else some (.natural (UInt64.ofNat significand))
    else (scale? (Binary64.ofNat significand) dropped.length).map fun x => .real (signed x)
  | places, exponent =>
    let digits := places.getD []
    let (significand, unused) := takeDigits significand digits
    let start : Int := dropped.length - (digits.length - unused.length : Nat)
    let e := exponent.getD 0
    if maxExponent < e ∨ e < -maxExponent then
      if 0 < e ∧ significand ≠ 0 then none
      else some (.real (Binary64.zero negative))
    else (scale? (Binary64.ofNat significand) (start + e)).map fun x => .real (signed x)

/-- The digits of a number behind its sign. -/
def scanMagnitude (care : Care) (negative : Bool) (cs : List Char) :
    Except Fault (Number × List Char) := do
  let (parts, rest) ← scanParts cs
  match care, parts.number? negative with
  | _, some n => .ok (n, rest)
  | .skim, none => .ok (.natural 0, rest)
  | .full, none => .error ⟨rest⟩

/-- A number. -/
def scanNumber (care : Care) : List Char → Scan Number
  | '-' :: cs => scanMagnitude care true cs
  | cs => scanMagnitude care false cs

/-! ## Strings -/

/-- The characters behind the first `n` bytes. -/
def dropBytes : (n : Nat) → List Char → List Char
  | 0, cs => cs
  | _, [] => []
  | n, c :: cs => dropBytes (n - c.utf8Size) cs

/-- Four hexadecimal digits. -/
def scanHex4 : List Char → Scan Nat
  | a :: b :: c :: d :: cs =>
    match Text.hexValue? a, Text.hexValue? b, Text.hexValue? c, Text.hexValue? d with
    | some a, some b, some c, some d => .ok (4096 * a + 256 * b + 16 * c + d, cs)
    | _, _, _, _ => .error ⟨dropBytes 4 (a :: b :: c :: d :: cs)⟩
  | cs => .error ⟨dropBytes 4 cs⟩

/-- The character of a backslash escape other than `u`. -/
def simpleEscape? (c : Char) : Option Char :=
  if c = '"' ∨ c = '\\' ∨ c = '/' then some c
  else if c = 'b' then some '\x08'
  else if c = 'f' then some '\x0c'
  else if c = 'n' then some '\n'
  else if c = 'r' then some '\r'
  else if c = 't' then some '\t'
  else none

/-- The second half of a pair of escapes that stand for one character, given the first. -/
def scanLowSurrogate (high : Nat) : List Char → Except Fault (Char × List Char)
  | '\\' :: 'u' :: cs => do
    let (low, rest) ← scanHex4 cs
    if 0xDC00 ≤ low ∧ low ≤ 0xDFFF then
      .ok (Char.ofNat (0x10000 + (high - 0xD800) * 0x400 + (low - 0xDC00)), rest)
    else .error ⟨rest⟩
  | '\\' :: cs => .error (faultAt cs)
  | cs => .error (faultAt cs)

/-- The character of an escape behind its backslash and `u`. -/
def scanUnicode (care : Care) (cs : List Char) : Except Fault (Char × List Char) := do
  let (n, rest) ← scanHex4 cs
  match care with
  | .skim => .ok (' ', rest)
  | .full =>
    if 0xDC00 ≤ n ∧ n ≤ 0xDFFF then .error ⟨rest⟩
    else if 0xD800 ≤ n ∧ n ≤ 0xDBFF then scanLowSurrogate n rest
    else .ok (Char.ofNat n, rest)

/-- The characters of a string, the last one read first, up to its closing quote. Every round reads
at least one character, so `fuel` rounds suffice for a text of that length. -/
def scanChars (care : Care) : (fuel : Nat) → (read : List Char) → List Char → Scan (List Char)
  | 0, _, _ => .error ⟨[]⟩
  | _ + 1, _, [] => .error ⟨[]⟩
  | fuel + 1, read, c :: cs =>
    if c = '"' then .ok (read.reverse, cs)
    else if c = '\\' then
      match cs with
      | [] => .error ⟨[]⟩
      | 'u' :: cs =>
        match scanUnicode care cs with
        | .error f => .error f
        | .ok (d, rest) => scanChars care fuel (d :: read) rest
      | e :: cs =>
        match simpleEscape? e with
        | some d => scanChars care fuel (d :: read) cs
        | none => .error ⟨cs⟩
    else if c.toNat < 32 then
      .error ⟨match care with
        | .full => cs
        | .skim => c :: cs⟩
    else scanChars care fuel (c :: read) cs

/-- A string behind its opening quote. -/
def scanString (care : Care) (cs : List Char) : Scan String :=
  match scanChars care (cs.length + 1) [] cs with
  | .error f => .error f
  | .ok (s, rest) => .ok (String.ofList s, rest)

end Crosswalk.Json
