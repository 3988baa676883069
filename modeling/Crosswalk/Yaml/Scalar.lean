import Crosswalk.Yaml.Basic
import Crosswalk.Decimal.Reading
import Crosswalk.Text.Hex

/-!
# Plain scalars

A scalar without quotes is resolved by its text.

* `null?`, `bool?`, `integer?`, `float?`: what a text stands for, in the order in which they are
  tried.
* `ofPlain`: the tree of a plain text, a string if nothing else fits. An integer that needs more
  than 64 bits is refused.
-/

namespace Crosswalk.Yaml

def isNullText (s : String) : Bool := s = "null" || s = "Null" || s = "NULL" || s = "~"

/-- An empty text stands for null as well. -/
def isBlankOrNull (s : String) : Bool := s = "" || isNullText s

def bool? (s : String) : Option Bool :=
  if s = "true" ∨ s = "True" ∨ s = "TRUE" then some true
  else if s = "false" ∨ s = "False" ∨ s = "FALSE" then some false
  else none

/-- Digits behind a leading zero: not a number, so that the zero is kept. -/
def hasLeadingZero (cs : List Char) : Bool :=
  match (Decimal.splitSign cs).2 with
  | '0' :: c :: rest => (c :: rest).all Decimal.isDigit
  | _ => false

/-- The value of a digit in a base up to sixteen. -/
def digitIn? (base : Nat) (c : Char) : Option Nat :=
  (Text.hexValue? c).bind fun d => if d < base then some d else none

/-- A nonempty run of digits in a base. -/
def natIn? (base : Nat) (cs : List Char) : Option Nat :=
  if cs.isEmpty then none
  else cs.foldlM (fun n c => (digitIn? base c).map fun d => n * base + d) 0

/-- A natural number in the base that its mark names. -/
def marked? : List Char → Option Nat
  | '0' :: 'x' :: cs => natIn? 16 cs
  | '0' :: 'o' :: cs => natIn? 8 cs
  | '0' :: 'b' :: cs => natIn? 2 cs
  | _ => none

/-- The magnitude of an unsigned text. -/
def magnitude? (cs : List Char) : Option Nat := (marked? cs).orElse fun _ => natIn? 10 cs

/-- Why a scalar is refused. -/
inductive Refusal where
  | tooLarge
deriving DecidableEq, Repr

/-- The integer of a text, if it reads as one of at most 128 bits. One of more than 64 bits is
refused. -/
def integer? (s : String) : Option (Except Refusal Number) :=
  let cs := s.toList
  if hasLeadingZero cs then none
  else
    match cs with
    | '-' :: rest =>
      match magnitude? rest with
      | some n =>
        if n ≤ Nat.pow 2 63 then some (.ok (Number.ofInt64 (Int64.ofInt (-(n : Int)))))
        else if n ≤ Nat.pow 2 127 then some (.error .tooLarge)
        else none
      | none => none
    | _ =>
      match magnitude? (Decimal.splitSign cs).2 with
      | some n =>
        if n < Nat.pow 2 64 then some (.ok (.natural (UInt64.ofNat n)))
        else if n < Nat.pow 2 128 then some (.error .tooLarge)
        else none
      | none => none

/-- The binary64 number of a text: a decimal, or one of the words for infinity and for what is not
a number. -/
def float? (s : String) : Option Binary64 :=
  let body := match s.toList with
    | '+' :: '+' :: _ => none
    | '+' :: '-' :: _ => none
    | '+' :: rest => some (String.ofList rest)
    | _ => some s
  match body with
  | none => none
  | some t =>
    if t = ".inf" ∨ t = ".Inf" ∨ t = ".INF" then some (Binary64.infinity false)
    else if s = "-.inf" ∨ s = "-.Inf" ∨ s = "-.INF" then some (Binary64.infinity true)
    else if s = ".nan" ∨ s = ".NaN" ∨ s = ".NAN" then some (Binary64.nan false)
    else
      match Binary64.ofText? t with
      | some x => if x.isFinite then some x else none
      | none => none

/-- The tree of a plain text. -/
def ofPlain (s : String) : Except Refusal Yaml :=
  if isBlankOrNull s then .ok null
  else
    match bool? s with
    | some b => .ok (bool b)
    | none =>
      match integer? s with
      | some (.ok n) => .ok (number n)
      | some (.error e) => .error e
      | none =>
        if hasLeadingZero s.toList then .ok (string s)
        else
          match float? s with
          | some x => .ok (number (.real x))
          | none => .ok (string s)

end Crosswalk.Yaml
