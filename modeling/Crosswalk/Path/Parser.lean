import Crosswalk.Path.Basic

/-!
# Reading path texts

A path is a field or an index, followed by fields behind dots and by indices. The reader goes
through the characters once; where it stops, it hands back the unread rest, from which the place of
the fault follows.

* `readName`: the longest name, with its escapes taken off.
* `readSuffix`: an index or a slice in brackets.
* `readSteps`: the segments of a text, each with the text it was read from.
* `Path.parse`: the path of a text, blanks around it aside, or the fault and its place in bytes.
-/

namespace Crosswalk

/-- The greatest number in an index or a slice. -/
def maxInteger : Nat := 2147483647

/-- What a path text should have at some place. -/
inductive Expectation where
  | separator
  | character (c : Char)
  | escapedCharacter
  | nameCharacter
  | name
  | sizeOrClose
  | digit
deriving DecidableEq, Repr

/-- Why a path text is refused. -/
inductive PathProblem where
  | expected (what : Expectation) (found : Option Char)
  | integerTooLarge
deriving DecidableEq, Repr

/-- A refused path text: the reason, the place of the offending character in bytes, and the text. -/
structure PathFault where
  problem : PathProblem
  offset : Nat
  text : String
deriving DecidableEq, Repr

def Expectation.message : Expectation → String
  | separator => "'.' or '['"
  | character c => "'" ++ String.singleton c ++ "'"
  | escapedCharacter => "an escaped character"
  | nameCharacter => "an identifier character"
  | name => "an identifier"
  | sizeOrClose => "',' or ']'"
  | digit => "a digit"

def PathProblem.message : PathProblem → String
  | expected what (some c) =>
    "expected " ++ what.message ++ ", found '" ++ String.singleton c ++ "'"
  | expected what none => "expected " ++ what.message ++ ", found end of input"
  | integerTooLarge =>
    "integer literal out of range (limit is " ++ Decimal.ofNatText maxInteger ++ ")"

/-! ## Readers over characters -/

/-- Where a reader stopped, and why: the offending character heads the unread rest. -/
structure Stop where
  problem : PathProblem
  rest : List Char
deriving DecidableEq, Repr

/-- A reader's result and the unread rest. -/
abbrev Read (α : Type) := Except Stop (α × List Char)

/-- Something else was expected here. -/
def stopAt (what : Expectation) (rest : List Char) : Stop := ⟨.expected what rest.head?, rest⟩

/-- One given character. -/
def readCharacter (c : Char) : List Char → Except Stop (List Char)
  | d :: rest => if d = c then .ok rest else .error (stopAt (.character c) (d :: rest))
  | [] => .error (stopAt (.character c) [])

/-- Puts characters in front of a name that was read. -/
def prepend (cs : List Char) : Read (List Char) → Read (List Char)
  | .ok (name, rest) => .ok (cs ++ name, rest)
  | .error stop => .error stop

/-- Whether dots belong to a name after an escaped character, given whether they did before it. -/
def dotsAfter (inBrackets : Bool) (c : Char) : Bool :=
  if c = '[' then true else if c = ']' then false else inBrackets

/-- The longest name from here on. A backslash takes the next character as it is; `[]` belongs to
the name; a dot belongs to it while the last escaped bracket, if any, is an opening one, which
`inBrackets` tells. -/
def readName (inBrackets : Bool) : List Char → Read (List Char)
  | [] => .ok ([], [])
  | ['\\'] => .error (stopAt .escapedCharacter [])
  | '\\' :: c :: rest =>
    prepend [c] (readName (dotsAfter inBrackets c) rest)
  | '[' :: ']' :: rest => prepend ['[', ']'] (readName inBrackets rest)
  | c :: rest =>
    if c = ']' then .error (stopAt .nameCharacter (c :: rest))
    else if c = '[' ∨ (c = '.' ∧ inBrackets = false) then .ok ([], c :: rest)
    else prepend [c] (readName inBrackets rest)

/-- A field with a name of at least one character. -/
def readField (cs : List Char) : Read Segment :=
  match readName false cs with
  | .error stop => .error stop
  | .ok ([], rest) => .error (stopAt .name rest)
  | .ok (name, rest) => .ok (.field (String.ofList name), rest)

/-- The number that digits continue from `n`. It is refused at the first digit that takes it past
the greatest number. -/
def readNumber (n : Nat) : List Char → Read Nat
  | [] => .ok (n, [])
  | c :: rest =>
    match Decimal.digitValue? c with
    | none => .ok (n, c :: rest)
    | some d =>
      if maxInteger < n * 10 + d then .error ⟨.integerTooLarge, c :: rest⟩
      else readNumber (n * 10 + d) rest

/-- At least one digit. -/
def readDigits1 (cs : List Char) : Read Nat :=
  match cs with
  | c :: _ => if Decimal.isDigit c then readNumber 0 cs else .error (stopAt .digit cs)
  | [] => .error (stopAt .digit [])

/-- Digits behind an optional sign. -/
def readInteger : List Char → Read Int
  | '-' :: rest => (readDigits1 rest).map fun (n, rest) => (-(n : Int), rest)
  | '+' :: rest => (readDigits1 rest).map fun (n, rest) => ((n : Int), rest)
  | cs => (readDigits1 cs).map fun (n, rest) => ((n : Int), rest)

/-- The optional size of a slice, behind a comma. -/
def readSize : List Char → Read (Option Int)
  | ',' :: rest => (readInteger rest).map fun (n, rest) => (some n, rest)
  | ']' :: rest => .ok (none, ']' :: rest)
  | cs => .error (stopAt .sizeOrClose cs)

/-- A slice, behind its two opening brackets. -/
def readSlice (cs : List Char) : Except Stop (Segment × List Char) := do
  let (start, cs) ← readInteger cs
  let (size, cs) ← readSize cs
  let cs ← readCharacter ']' cs
  let cs ← readCharacter ']' cs
  return (.slice ⟨start, size⟩, cs)

/-- An index, behind its opening bracket. -/
def readIndexNumber (cs : List Char) : Except Stop (Segment × List Char) := do
  let (i, cs) ← readInteger cs
  let cs ← readCharacter ']' cs
  return (.index i, cs)

/-- An index or a slice, behind an opening bracket. -/
def readSuffix : List Char → Except Stop (Segment × List Char)
  | '[' :: rest => readSlice rest
  | cs => readIndexNumber cs

/-! ## What readers leave -/

theorem readCharacter_length {c : Char} {cs rest : List Char} (h : readCharacter c cs = .ok rest) :
    rest.length < cs.length := by
  cases cs with
  | nil => simp [readCharacter] at h
  | cons d ds =>
    simp only [readCharacter] at h
    split at h
    · simp at h; subst h; simp
    · simp at h

theorem readNumber_length {n m : Nat} {cs rest : List Char} (h : readNumber n cs = .ok (m, rest)) :
    rest.length ≤ cs.length := by
  induction cs generalizing n with
  | nil => simp [readNumber] at h; simp [h]
  | cons c cs ih =>
    simp only [readNumber] at h
    split at h
    · simp at h; simp [← h.2]
    · split at h
      · simp at h
      · exact Nat.le_succ_of_le (ih h)

theorem prepend_eq_ok {cs name rest : List Char} {r : Read (List Char)} :
    prepend cs r = .ok (name, rest) ↔ ∃ n, r = .ok (n, rest) ∧ name = cs ++ n := by
  cases r with
  | error stop => simp [prepend]
  | ok r =>
    obtain ⟨n, rest'⟩ := r
    simp only [prepend, Except.ok.injEq, Prod.mk.injEq]
    constructor
    · rintro ⟨rfl, rfl⟩; exact ⟨n, ⟨rfl, rfl⟩, rfl⟩
    · rintro ⟨_, ⟨rfl, rfl⟩, rfl⟩; exact ⟨rfl, rfl⟩

/-- A name takes at least as many characters as it has. -/
theorem readName_length {b : Bool} {cs name rest : List Char}
    (h : readName b cs = .ok (name, rest)) : rest.length + name.length ≤ cs.length := by
  fun_induction readName b cs generalizing name rest with
  | case1 => simp at h; simp [h]
  | case2 => simp at h
  | case3 b c cs ih =>
    obtain ⟨n, hn, rfl⟩ := prepend_eq_ok.1 h
    have := ih hn; simp; omega
  | case4 b cs ih =>
    obtain ⟨n, hn, rfl⟩ := prepend_eq_ok.1 h
    have := ih hn; simp; omega
  | case5 => simp at h
  | case6 => simp at h; simp [h]
  | case7 b c cs _ _ _ _ _ ih =>
    obtain ⟨n, hn, rfl⟩ := prepend_eq_ok.1 h
    have := ih hn; simp; omega

theorem readField_length {cs rest : List Char} {s : Segment} (h : readField cs = .ok (s, rest)) :
    rest.length < cs.length := by
  unfold readField at h
  cases hn : readName false cs with
  | error stop => simp [hn] at h
  | ok r =>
    obtain ⟨name, r⟩ := r
    have := readName_length hn
    cases name with
    | nil => simp [hn] at h
    | cons c name =>
      simp [hn] at h
      rw [← h.2]
      simp at this; omega

theorem readDigits1_length {cs rest : List Char} {n : Nat} (h : readDigits1 cs = .ok (n, rest)) :
    rest.length ≤ cs.length := by
  unfold readDigits1 at h
  split at h
  · split at h
    · exact readNumber_length h
    · simp at h
  · simp at h

theorem readInteger_length {cs rest : List Char} {n : Int} (h : readInteger cs = .ok (n, rest)) :
    rest.length ≤ cs.length := by
  have sub : ∀ {f : Nat → Int} {ds : List Char},
      (readDigits1 ds).map (fun (n, rest) => (f n, rest)) = .ok (n, rest) →
        rest.length ≤ ds.length := by
    intro f ds h
    cases hd : readDigits1 ds with
    | error stop => simp [hd, Except.map] at h
    | ok r =>
      simp only [hd, Except.map, Except.ok.injEq, Prod.mk.injEq] at h
      rw [← h.2]; exact readDigits1_length hd
  unfold readInteger at h
  split at h
  · exact Nat.le_succ_of_le (sub (f := fun n => -(n : Int)) h)
  · exact Nat.le_succ_of_le (sub (f := fun n => (n : Int)) h)
  · exact sub (f := fun n => (n : Int)) h

theorem readSize_length {cs rest : List Char} {n : Option Int} (h : readSize cs = .ok (n, rest)) :
    rest.length ≤ cs.length := by
  unfold readSize at h
  split at h
  · rename_i ds
    cases hd : readInteger ds with
    | error stop => simp [hd, Except.map] at h
    | ok r =>
      simp only [hd, Except.map, Except.ok.injEq, Prod.mk.injEq] at h
      rw [← h.2]; exact Nat.le_succ_of_le (readInteger_length hd)
  · simp at h; simp [← h.2]
  · simp at h

theorem readSuffix_length {cs rest : List Char} {s : Segment}
    (h : readSuffix cs = .ok (s, rest)) : rest.length < cs.length := by
  unfold readSuffix at h
  split at h
  · rename_i ds
    unfold readSlice at h
    cases h1 : readInteger ds with
    | error stop => simp [h1, bind, Except.bind] at h
    | ok r1 =>
      obtain ⟨start, cs1⟩ := r1
      cases h2 : readSize cs1 with
      | error stop => simp [h1, h2, bind, Except.bind] at h
      | ok r2 =>
        obtain ⟨size, cs2⟩ := r2
        cases h3 : readCharacter ']' cs2 with
        | error stop => simp [h1, h2, h3, bind, Except.bind] at h
        | ok cs3 =>
          cases h4 : readCharacter ']' cs3 with
          | error stop => simp [h1, h2, h3, h4, bind, Except.bind] at h
          | ok cs4 =>
            simp [h1, h2, h3, h4, bind, Except.bind, pure, Except.pure] at h
            have := readInteger_length h1
            have := readSize_length h2
            have := readCharacter_length h3
            have := readCharacter_length h4
            rw [← h.2]; simp; omega
  · unfold readIndexNumber at h
    cases h1 : readInteger cs with
    | error stop => simp [h1, bind, Except.bind] at h
    | ok r1 =>
      obtain ⟨i, cs1⟩ := r1
      cases h2 : readCharacter ']' cs1 with
      | error stop => simp [h1, h2, bind, Except.bind] at h
      | ok cs2 =>
        simp [h1, h2, bind, Except.bind, pure, Except.pure] at h
        have := readInteger_length h1
        have := readCharacter_length h2
        rw [← h.2]; omega

/-! ## Paths -/

/-- A segment with the text between its first character and the unread rest. `stop` is the place, in
bytes, where the whole text ends, so a place is what is left of it. -/
def stepOf (stop : Nat) (s : Segment) (text rest : List Char) : Step where
  segment := s
  text := String.ofList (text.take (text.length - rest.length))
  offset := stop - Text.byteLength text

/-- The segments that follow others, to the end of the text. -/
def readTail (stop : Nat) (cs : List Char) : Except Stop (List Step) :=
  match cs with
  | [] => .ok []
  | '.' :: rest =>
    match _h : readField rest with
    | .error e => .error e
    | .ok (s, after) => (readTail stop after).map (stepOf stop s rest after :: ·)
  | '[' :: rest =>
    match _h : readSuffix rest with
    | .error e => .error e
    | .ok (s, after) => (readTail stop after).map (stepOf stop s ('[' :: rest) after :: ·)
  | c :: rest => .error (stopAt .separator (c :: rest))
termination_by cs.length
decreasing_by
  · have := readField_length _h; simp; omega
  · have := readSuffix_length _h; simp; omega

/-- Whether a text opens with an index: a bracket that is not the first half of a literal pair. -/
def opensIndex : List Char → Bool
  | '[' :: ']' :: _ => false
  | '[' :: _ => true
  | _ => false

/-- The first segment of a text and the unread rest. -/
def readFirst (cs : List Char) : Except Stop (Segment × List Char) :=
  if opensIndex cs then readSuffix cs.tail else readField cs

/-- The segments of a text. -/
def readSteps (stop : Nat) (cs : List Char) : Except Stop (List Step) :=
  match readFirst cs with
  | .error e => .error e
  | .ok (s, rest) => (readTail stop rest).map (stepOf stop s cs rest :: ·)

/-- The path of a text. Blanks around it are passed over, and a blank text is the empty path. -/
def Path.parse (text : String) : Except PathFault Path :=
  let trimmed := Text.trim text.toList
  let stop := Text.byteLength (Text.trimEnd text.toList)
  if trimmed = [] then .ok Path.root
  else
    match readSteps stop trimmed with
    | .error e => .error ⟨e.problem, stop - Text.byteLength e.rest, text⟩
    | .ok steps => .ok ⟨steps, String.ofList trimmed⟩

end Crosswalk
