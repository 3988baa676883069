import Crosswalk.Decimal.Basic

/-!
# Dates and times

A moment is a date, a time of day, or both, and in the last case perhaps a distance from universal
time.

* `Moment.text`: a moment in its usual form: a `T` between date and time, and no zeros at the end
  of a fraction.
* `scanMoment?`: the moment at the head of a text.
-/

namespace Crosswalk.Toml

structure Date where
  year : Nat
  month : Nat
  day : Nat
deriving DecidableEq, Repr

structure Time where
  hour : Nat
  minute : Nat
  second : Nat
  nanosecond : Nat
deriving DecidableEq, Repr

/-- A distance from universal time. -/
inductive Offset where
  | none
  | universal
  | minutes (n : Int)
deriving DecidableEq, Repr

/-- A date, a time of day, or both. -/
inductive Moment where
  | date (date : Date)
  | time (time : Time)
  | both (date : Date) (time : Time) (offset : Offset)
deriving DecidableEq, Repr

/-! ## Written form -/

/-- A number with zeros in front, up to a width. -/
def padded (width n : Nat) : String :=
  let ds := Decimal.digits n
  String.ofList (List.replicate (width - ds.length) '0' ++ ds)

def Date.text (d : Date) : String :=
  padded 4 d.year ++ "-" ++ padded 2 d.month ++ "-" ++ padded 2 d.day

/-- The digits of a fraction of a second without zeros at the end. -/
def fractionText (nanosecond : Nat) : String :=
  if nanosecond = 0 then ""
  else
    let ds := (padded 9 nanosecond).toList
    "." ++ String.ofList (ds.reverse.dropWhile (· = '0')).reverse

def Time.text (t : Time) : String :=
  padded 2 t.hour ++ ":" ++ padded 2 t.minute ++ ":" ++ padded 2 t.second
    ++ fractionText t.nanosecond

def Offset.text : Offset → String
  | none => ""
  | universal => "Z"
  | minutes n =>
    (if n < 0 then "-" else "+") ++ padded 2 (n.natAbs / 60) ++ ":" ++ padded 2 (n.natAbs % 60)

def Moment.text : Moment → String
  | date d => d.text
  | time t => t.text
  | both d t o => d.text ++ "T" ++ t.text ++ o.text

/-! ## Reading -/

/-- The calendar has a leap day every fourth year, except in centuries not divisible by four. -/
def isLeapYear (year : Nat) : Bool := year % 4 = 0 && (year % 100 ≠ 0 || year % 400 = 0)

def daysInMonth (year month : Nat) : Nat :=
  if month = 2 then if isLeapYear year then 29 else 28
  else if month = 4 ∨ month = 6 ∨ month = 9 ∨ month = 11 then 30
  else 31

/-- A number of exactly `count` digits, within bounds. -/
def scanField? (count least greatest : Nat) (cs : List Char) : Option (Nat × List Char) :=
  let ds := cs.take count
  if ds.length = count ∧ ds.all Decimal.isDigit then
    let n := Decimal.readDigits 0 ds
    if least ≤ n ∧ n ≤ greatest then some (n, cs.drop count) else none
  else none

/-- A mark. -/
def scanMark? (mark : Char) : List Char → Option (List Char)
  | c :: cs => if c = mark then some cs else none
  | [] => none

def scanDate? (cs : List Char) : Option (Date × List Char) := do
  let (year, cs) ← scanField? 4 0 9999 cs
  let (month, cs) ← scanField? 2 1 12 (← scanMark? '-' cs)
  let (day, cs) ← scanField? 2 1 (daysInMonth year month) (← scanMark? '-' cs)
  some (⟨year, month, day⟩, cs)

/-- Places of a fraction kept. -/
def fractionPlaces : Nat := 9

/-- The fraction of a second, in billionths; further digits are dropped. -/
def scanFraction : List Char → Nat × List Char
  | '.' :: cs =>
    let ds := cs.takeWhile Decimal.isDigit
    if ds.isEmpty then (0, '.' :: cs)
    else
      let kept := ds.take fractionPlaces
      (Decimal.readDigits 0 kept * Nat.pow 10 (fractionPlaces - kept.length),
        cs.dropWhile Decimal.isDigit)
  | cs => (0, cs)

/-- A time of day; a second may be a leap second. -/
def scanTime? (cs : List Char) : Option (Time × List Char) := do
  let (hour, cs) ← scanField? 2 0 23 cs
  let (minute, cs) ← scanField? 2 0 59 (← scanMark? ':' cs)
  let (second, cs) ← scanField? 2 0 60 (← scanMark? ':' cs)
  let (nanosecond, cs) := scanFraction cs
  some (⟨hour, minute, second, nanosecond⟩, cs)

/-- The hours and minutes of an offset. -/
def scanMinutes? (cs : List Char) : Option (Nat × List Char) := do
  let (hour, cs) ← scanField? 2 0 23 cs
  let (minute, cs) ← scanField? 2 0 59 (← scanMark? ':' cs)
  some (60 * hour + minute, cs)

/-- The offset behind a time, if there is one. -/
def scanOffset : List Char → Offset × List Char
  | 'Z' :: cs => (.universal, cs)
  | 'z' :: cs => (.universal, cs)
  | '+' :: cs =>
    match scanMinutes? cs with
    | some (n, rest) => (.minutes n, rest)
    | none => (.none, '+' :: cs)
  | '-' :: cs =>
    match scanMinutes? cs with
    | some (n, rest) => (.minutes (-(n : Int)), rest)
    | none => (.none, '-' :: cs)
  | cs => (.none, cs)

/-- What stands between a date and a time. -/
def isTimeMark (c : Char) : Bool := c = 'T' || c = 't' || c = ' '

/-- The moment at the head of a text. -/
def scanMoment? (cs : List Char) : Option (Moment × List Char) :=
  match scanDate? cs with
  | none => (scanTime? cs).map fun (t, rest) => (.time t, rest)
  | some (d, rest) =>
    match rest with
    | [] => some (.date d, [])
    | c :: later =>
      match if isTimeMark c then scanTime? later else none with
      | none => some (.date d, rest)
      | some (t, rest) =>
        let (o, rest) := scanOffset rest
        some (.both d t o, rest)

end Crosswalk.Toml
