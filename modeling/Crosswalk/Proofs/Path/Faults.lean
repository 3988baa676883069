import Crosswalk.Error
import Crosswalk.Proofs.Path.Stops
import Crosswalk.Proofs.Text.Blank

/-!
# Where path texts are refused

A refused path text is refused at the first character behind which no path text goes on, an opening
bracket in the place of a name aside; what stands before that character is the beginning of a path
text. The place is told in bytes, and the caret of a report stands under the character itself.

* `PathProblem.end_infix_message_iff`, `PathProblem.found_suffix_message_iff`: what a message tells
  of what was found.
* `Path.Accepted`: the texts of paths.
* `PathFault.PointsTo`: what a fault says of the place to which it points.
* `Path.exists_pointsTo`: every fault points to such a place.
-/

namespace Crosswalk

open Decimal Text

/-! ## Messages -/

/-- A text without a character that is part of two others around that character is part of one of
them. -/
theorem infix_of_append_cons {α : Type} {part xs ys : List α} {a : α} (ha : a ∉ part)
    (h : part <:+: xs ++ a :: ys) : part <:+: xs ∨ part <:+: ys := by
  obtain ⟨before, after, heq⟩ := h
  rcases List.append_eq_append_iff.mp heq with ⟨cs, hxs, -⟩ | ⟨cs, hcs, hafter⟩
  · exact .inl ⟨before, cs, hxs.symm⟩
  rcases List.append_eq_append_iff.mp hcs with ⟨ds, hds, hpart⟩ | ⟨ds, hds, hpart⟩
  · cases cs with
    | nil => exact .inl ⟨before, [], by simp [hds, hpart]⟩
    | cons c cs =>
      obtain ⟨rfl, -⟩ := List.cons.inj hafter
      simp [hpart] at ha
  · cases ds with
    | nil =>
      obtain rfl : cs = part := hpart
      cases cs with
      | nil => exact .inl List.nil_infix
      | cons c cs =>
        obtain ⟨rfl, -⟩ := List.cons.inj hafter
        simp at ha
    | cons d ds =>
      rw [hpart] at hafter
      obtain ⟨-, rfl⟩ := List.cons.inj hafter
      exact .inr ⟨ds, after, rfl⟩

theorem eq_of_suffix {α : Type} {part other whole : List α} (h : part <:+ whole)
    (h' : other <:+ whole) (hlen : part.length = other.length) : part = other :=
  (List.suffix_of_suffix_length_le h h' (Nat.le_of_eq hlen)).eq_of_length hlen

namespace PathProblem

theorem message_some (what : Expectation) (c : Char) : (expected what (some c)).message.toList
    = ("expected ".toList ++ what.message.toList ++ ", found ".toList) ++ ['\'', c, '\''] := by
  have hmessage : (expected what (some c)).message
      = "expected " ++ what.message ++ ", found '" ++ String.singleton c ++ "'" := rfl
  have hfound : ", found '".toList = ", found ".toList ++ ['\''] := by
    simp only [String.reduceToList, List.cons_append, List.nil_append]
  have hquote : "'".toList = ['\''] := by simp only [String.reduceToList]
  rw [hmessage]
  simp only [String.toList_append, String.toList_singleton, hfound, hquote, List.append_assoc,
    List.cons_append, List.nil_append]

theorem message_none (what : Expectation) : (expected what none).message.toList
    = ("expected ".toList ++ what.message.toList ++ ", ".toList)
      ++ "found end of input".toList := by
  have hmessage : (expected what none).message
      = "expected " ++ what.message ++ ", found end of input" := rfl
  have hfound : ", found end of input".toList = ", ".toList ++ "found end of input".toList := by
    simp only [String.reduceToList, List.cons_append, List.nil_append]
  rw [hmessage]
  simp only [String.toList_append, hfound, List.append_assoc]

theorem message_integerTooLarge : integerTooLarge.message.toList
    = "integer literal out of range (limit is ".toList ++ digits maxInteger ++ ")".toList := by
  have hmessage : integerTooLarge.message
      = "integer literal out of range (limit is " ++ ofNatText maxInteger ++ ")" := rfl
  have hdigits : (ofNatText maxInteger).toList = digits maxInteger := String.toList_ofList
  rw [hmessage, String.toList_append, String.toList_append, hdigits]

theorem not_end_infix_of_count {cs : List Char} (h : cs.count 'u' < 2) :
    ¬ "found end of input".toList <:+: cs := by
  intro hinfix
  have := hinfix.sublist.count_le 'u'
  have htwo : ("found end of input".toList).count 'u' = 2 := by
    simp only [String.reduceToList]
    decide
  omega

theorem quote_not_mem_end : '\'' ∉ "found end of input".toList := by
  simp only [String.reduceToList]
  decide

theorem length_end : ("found end of input".toList).length = 18 := by
  simp only [String.reduceToList]
  decide

/-- What is expected does not tell that the end of the text was found. -/
theorem not_end_infix_expected (what : Expectation) : ¬ "found end of input".toList <:+:
    "expected ".toList ++ what.message.toList ++ ", found ".toList := by
  cases what with
  | character c =>
    have hmessage : (Expectation.character c).message.toList = '\'' :: c :: ['\''] := by
      simp [Expectation.message]
    rw [hmessage, List.append_assoc]
    intro h
    rcases infix_of_append_cons quote_not_mem_end h with hfront | hback
    · refine not_end_infix_of_count ?_ hfront
      simp only [String.reduceToList]
      decide
    · have hback : "found end of input".toList <:+: [c] ++ '\'' :: ", found ".toList := hback
      rcases infix_of_append_cons quote_not_mem_end hback with hchar | hfound
      · have := hchar.length_le
        rw [length_end] at this
        simp at this
      · refine not_end_infix_of_count ?_ hfound
        simp only [String.reduceToList]
        decide
  | _ =>
    refine not_end_infix_of_count ?_
    simp only [Expectation.message, String.reduceToList]
    decide

/-- A message tells that the end of the text was found exactly if it was. -/
theorem end_infix_message_iff (p : PathProblem) :
    "found end of input".toList <:+: p.message.toList ↔ ∃ what, p = .expected what none := by
  constructor
  · intro h
    cases p with
    | expected what found =>
      cases found with
      | none => exact ⟨what, rfl⟩
      | some c =>
        rw [message_some] at h
        rcases infix_of_append_cons quote_not_mem_end h with hfront | hback
        · exact absurd hfront (not_end_infix_expected what)
        · have := hback.length_le
          rw [length_end] at this
          simp at this
    | integerTooLarge =>
      have hd : 'd' ∈ integerTooLarge.message.toList := by
        refine h.subset ?_
        simp only [String.reduceToList]
        decide
      rw [message_integerTooLarge] at hd
      have hdigit : 'd' ∉ digits maxInteger := fun hmem =>
        absurd (isDigit_of_mem_digits hmem) (by decide)
      simp [hdigit] at hd
  · rintro ⟨what, rfl⟩
    rw [message_none]
    exact (List.suffix_append _ _).isInfix

theorem toList_found (c : Char) : ("found '" ++ String.singleton c ++ "'").toList
    = "found ".toList ++ ['\'', c, '\''] := by
  simp

/-- A message ends with a character that was found exactly if that one was found. -/
theorem found_suffix_message_iff (p : PathProblem) (c : Char) :
    ("found '" ++ String.singleton c ++ "'").toList <:+ p.message.toList ↔
      ∃ what, p = .expected what (some c) := by
  rw [toList_found]
  constructor
  · intro h
    have hquoted : ['\'', c, '\''] <:+ p.message.toList := (List.suffix_append _ _).trans h
    cases p with
    | expected what found =>
      cases found with
      | some d =>
        have hfound : ['\'', d, '\''] <:+ (expected what (some d)).message.toList := by
          rw [message_some]
          exact List.suffix_append _ _
        obtain ⟨-, hcd⟩ := List.cons.inj (eq_of_suffix hquoted hfound rfl)
        obtain ⟨rfl, -⟩ := List.cons.inj hcd
        exact ⟨what, rfl⟩
      | none =>
        have hput : ['p', 'u', 't'] <:+ "found end of input".toList := by
          simp only [String.reduceToList]
          decide
        have hend : ['p', 'u', 't'] <:+ (expected what none).message.toList := by
          rw [message_none]
          exact hput.trans (List.suffix_append _ _)
        exact absurd (List.cons.inj (eq_of_suffix hquoted hend rfl)).1 (by decide)
    | integerTooLarge =>
      have hlast : ['\''] <:+ integerTooLarge.message.toList :=
        (List.suffix_append ['\'', c] ['\'']).trans hquoted
      have hclose : [')'] <:+ integerTooLarge.message.toList := by
        rw [message_integerTooLarge]
        exact List.suffix_append _ _
      exact absurd (List.cons.inj (eq_of_suffix hlast hclose rfl)).1 (by decide)
  · rintro ⟨what, rfl⟩
    have hcomma : ", found ".toList = ", ".toList ++ "found ".toList := by
      simp only [String.reduceToList, List.cons_append, List.nil_append]
    rw [message_some, hcomma, ← List.append_assoc, List.append_assoc _ "found ".toList]
    exact List.suffix_append _ _

end PathProblem

/-! ## Places -/

/-- The text of a path. -/
def Path.Accepted (cs : List Char) : Prop := ∃ p, Path.parse (String.ofList cs) = .ok p

theorem Path.Accepted.of_pathText {cs : List Char} {ss : List Segment} (h : PathText cs ss)
    (htrim : trim cs = cs) : Path.Accepted cs := by
  have hparse : (Path.parse (String.ofList cs)).map Path.segments = .ok ss := by
    rw [Path.parse_eq_ok, String.toList_ofList, htrim]
    exact .inr h
  obtain ⟨p, hp, -⟩ := map_eq_ok.mp hparse
  exact ⟨p, hp⟩

theorem Path.Accepted.pathText {cs : List Char} (h : Path.Accepted cs) (htrim : trim cs = cs)
    (hne : cs ≠ []) : ∃ ss, PathText cs ss := by
  obtain ⟨p, hp⟩ := h
  have hparse : (Path.parse (String.ofList cs)).map Path.segments = .ok p.segments := by
    rw [hp]
    rfl
  rw [Path.parse_eq_ok, String.toList_ofList, htrim] at hparse
  rcases hparse with ⟨hnil, -⟩ | hpath
  · exact absurd hnil hne
  · exact ⟨_, hpath⟩

/-- A caret at a place counted in bytes stands behind as many characters as the text has before that
place. -/
theorem Error.caretColumn_append (cs ds : List Char) :
    Error.caretColumn (byteLength cs) (cs ++ ds) = cs.length := by
  induction cs with
  | nil =>
    cases ds with
    | nil => rfl
    | cons d ds => rfl
  | cons c cs ih =>
    have hpos : 0 < c.utf8Size := Char.utf8Size_pos c
    have hbytes : byteLength (c :: cs) = c.utf8Size + byteLength cs := rfl
    rw [List.cons_append, Error.caretColumn, hbytes, Nat.add_sub_cancel_left, ih,
      List.length_cons, Nat.add_comm]
    omega

/-- A place in a text: between the blanks `lead` and `trail` around it, `before` and `after` stand
on its two sides. -/
structure Divides (text : String) (lead before after trail : List Char) : Prop where
  text_eq : text.toList = lead ++ (before ++ after) ++ trail
  trim_eq : trim text.toList = before ++ after
  lead_blank : ∀ c ∈ lead, isBlank c = true
  trail_blank : ∀ c ∈ trail, isBlank c = true

/-- What a fault says of a place in a text. -/
structure PathFault.PointsTo (f : PathFault) (text : String) (lead before after : List Char) :
    Prop where
  /-- It is an error of a path, with the text as it is and the place in bytes. -/
  toError_eq : f.toError = .path f.problem.message (byteLength (lead ++ before)) text
  /-- The message ends with a character exactly if this stands at the place, except for the message
  of a number that is out of range. -/
  found : ∀ c, ("found '" ++ String.singleton c ++ "'").toList <:+ f.problem.message.toList ↔
    after.head? = some c ∧ f.problem ≠ .integerTooLarge
  /-- The message tells of the end of the text exactly if the place is there. -/
  foundEnd : "found end of input".toList <:+: f.problem.message.toList ↔ after = []
  /-- A path text begins with what stands before the place. -/
  viable : ∃ more, Path.Accepted (before ++ more)
  /-- None begins with that and the character behind it, unless this is an opening bracket in the
  place of a name; then it is the first half of a literal pair. -/
  offends : ∀ c rest cs, after = c :: rest → Path.Accepted cs → trim cs = cs →
    before ++ [c] <+: cs → c = '[' ∧ f.problem = .expected .name (some '[') ∧
      before ++ ['[', ']'] <+: cs
  /-- A number that is out of range is refused at the first digit that takes it there. -/
  outOfRange : f.problem = .integerTooLarge → ∃ front k ds c rest, before = front ++ k :: ds ∧
    k ∈ ['[', ',', '+', '-'] ∧ (∀ x ∈ ds, isDigit x = true) ∧ readDigits 0 ds ≤ maxInteger ∧
    after = c :: rest ∧ isDigit c = true ∧ maxInteger < readDigits 0 (ds ++ [c])
  /-- A report shows the text and, under the place, a caret. -/
  report : f.toError.report = "error: " ++ f.problem.message ++ "\n" ++ ("  | " ++ text ++ "\n  | "
    ++ String.ofList (List.replicate (lead ++ before).length ' ') ++ "^")

/-! ## Faults -/

theorem Reason.head_eq {read : List Char} {e : Stop} (h : Reason read e) {what : Expectation}
    {found : Option Char} (hp : e.problem = .expected what found) : e.rest.head? = found := by
  cases h with
  | expected _ rest => exact (PathProblem.expected.inj hp).2
  | outOfRange => cases hp

theorem Reason.found_suffix_iff {read : List Char} {e : Stop} (h : Reason read e) (c : Char) :
    ("found '" ++ String.singleton c ++ "'").toList <:+ e.problem.message.toList ↔
      e.rest.head? = some c ∧ e.problem ≠ .integerTooLarge := by
  rw [PathProblem.found_suffix_message_iff]
  constructor
  · rintro ⟨what, hwhat⟩
    exact ⟨h.head_eq hwhat, by simp [hwhat]⟩
  · rintro ⟨hhead, hfits⟩
    cases h with
    | expected what rest => exact ⟨what, congrArg _ hhead⟩
    | outOfRange => exact absurd rfl hfits

theorem Reason.end_infix_iff {read : List Char} {e : Stop} (h : Reason read e) :
    "found end of input".toList <:+: e.problem.message.toList ↔ e.rest = [] := by
  rw [PathProblem.end_infix_message_iff]
  cases h with
  | expected what rest =>
    constructor
    · rintro ⟨_, hwhat⟩
      exact List.head?_eq_none_iff.mp (PathProblem.expected.inj hwhat).2
    · intro hnil
      obtain rfl : rest = [] := hnil
      exact ⟨what, rfl⟩
  | outOfRange => simp

theorem Reason.outOfRange_digit {read : List Char} {e : Stop} (h : Reason read e)
    (hlarge : e.problem = .integerTooLarge) : ∃ front k ds c rest, read = front ++ k :: ds ∧
      k ∈ ['[', ',', '+', '-'] ∧ (∀ x ∈ ds, isDigit x = true) ∧ readDigits 0 ds ≤ maxInteger ∧
      e.rest = c :: rest ∧ isDigit c = true ∧ maxInteger < readDigits 0 (ds ++ [c]) := by
  cases h with
  | expected _ _ => cases hlarge
  | @outOfRange front ds more k c d hk hds hle hc hnext =>
    refine ⟨front, k, ds, c, more, rfl, hk, hds, hle, rfl, by simp [isDigit, hc], ?_⟩
    rwa [readDigits_append, readDigits_cons hc]

/-- What was read of a path can be completed to a path that is accepted. -/
theorem Halts.exists_accepted {α : Type} {R : List Char → Except Stop α} {read : List Char}
    {e : Stop} (h : Halts R (fun cs => ∃ ss, PathText cs ss) read e)
    (hstart : startsBlank read = false) : ∃ more, Path.Accepted (read ++ more) := by
  cases read with
  | nil => exact ⟨['a'], .of_pathText (.field (by simp) (nameText_letter false) .nil) (by decide)⟩
  | cons c read =>
    obtain ⟨more, last, hlast, ss, hpath⟩ := h.viable
    refine ⟨more ++ [last], .of_pathText hpath (trim_eq_self ?_ ?_)⟩
    · simpa [startsBlank] using hstart
    · rw [endsBlank, ← List.append_assoc, List.getLast?_concat]
      exact hlast

/-- A path text that goes on with the character that was found goes on with a literal pair. -/
theorem Halts.pair_of_accepted {stop : Nat} {read : List Char} {e : Stop}
    (h : Halts (readSteps stop) (fun cs => ∃ ss, PathText cs ss) read e) {c : Char}
    {rest cs : List Char} (hrest : e.rest = c :: rest) (hcs : Path.Accepted cs)
    (htrim : trim cs = cs) (hpre : read ++ [c] <+: cs) :
    c = '[' ∧ e.problem = .expected .name (some '[') ∧ read ++ ['[', ']'] <+: cs := by
  obtain ⟨more, rfl⟩ := hpre
  rw [List.append_assoc, List.singleton_append] at hcs htrim ⊢
  by_cases hpair : e.problem = .expected .name (some '[') ∧ more.head? = some ']'
  · obtain ⟨hproblem, hclose⟩ := hpair
    obtain ⟨more, rfl⟩ := List.head?_eq_some_iff.mp hclose
    obtain rfl : c = '[' := by
      have hfound := h.reason.head_eq hproblem
      rw [hrest] at hfound
      exact Option.some.inj hfound
    exact ⟨rfl, hproblem, ⟨more, by simp⟩⟩
  · -- the reader stops on this text too, so that it is the text of no path
    have hholds : e.Holds (c :: more) := by
      refine ⟨by simp, by rw [hrest]; rfl, fun hproblem hclose => hpair ⟨hproblem, hclose⟩⟩
    obtain ⟨ss, hpath⟩ := hcs.pathText htrim (by simp)
    have hread := (readSteps_eq_ok stop).mpr hpath
    rw [h.firm _ hholds] at hread
    cases hread

theorem Path.parse_eq_error {text : String} {f : PathFault} (h : Path.parse text = .error f) :
    ∃ e, readSteps (byteLength (trimEnd text.toList)) (trim text.toList) = .error e ∧
      f = ⟨e.problem, byteLength (trimEnd text.toList) - byteLength e.rest, text⟩ := by
  simp only [Path.parse] at h
  split at h
  · cases h
  · split at h
    · rename_i e hread
      exact ⟨e, hread, (Except.error.inj h).symm⟩
    · cases h

/-- A fault at the place where the reader of a text stopped. -/
theorem Halts.pointsTo {stop : Nat} {before : List Char} {e : Stop}
    (h : Halts (readSteps stop) (fun cs => ∃ ss, PathText cs ss) before e)
    (hstart : startsBlank before = false) {text : String} {lead trail : List Char}
    (htext : text.toList = lead ++ (before ++ e.rest) ++ trail) :
    PathFault.PointsTo ⟨e.problem, byteLength (lead ++ before), text⟩ text lead before e.rest where
  toError_eq := rfl
  found c := h.reason.found_suffix_iff c
  foundEnd := h.reason.end_infix_iff
  viable := h.exists_accepted hstart
  offends c rest cs hrest hcs htrim hpre := h.pair_of_accepted hrest hcs htrim hpre
  outOfRange hlarge := h.reason.outOfRange_digit hlarge
  report := by
    have hcolumn : Error.caretColumn (byteLength (lead ++ before)) text.toList
        = (lead ++ before).length := by
      rw [htext, ← List.append_assoc lead, List.append_assoc (lead ++ before),
        Error.caretColumn_append]
    rw [← hcolumn]
    rfl

/-- Every refused text is refused at a place of it to which the fault points. -/
theorem Path.exists_pointsTo {text : String} {f : PathFault} (h : Path.parse text = .error f) :
    ∃ lead before after trail, Divides text lead before after trail ∧
      f.PointsTo text lead before after := by
  obtain ⟨e, hread, rfl⟩ := Path.parse_eq_error h
  obtain ⟨lead, trail, hend, htext, hlead, htrail⟩ := exists_trim text.toList
  obtain ⟨before, hbefore, hstop⟩ := readSteps_halts hread
  rw [hbefore] at htext
  have hoffset : byteLength (trimEnd text.toList) - byteLength e.rest
      = byteLength (lead ++ before) := by
    rw [hend, hbefore, ← List.append_assoc, byteLength_append (lead ++ before),
      Nat.add_sub_cancel]
  have hstart : startsBlank before = false := by
    have hfirst := startsBlank_trim text.toList
    rw [hbefore] at hfirst
    cases before with
    | nil => rfl
    | cons c before => exact hfirst
  rw [hoffset]
  exact ⟨lead, before, e.rest, trail, ⟨htext, hbefore, hlead, htrail⟩, hstop.pointsTo hstart htext⟩

/-- A blank, a name with letters of two bytes, and an index out of range. -/
def farIndex : String := " größe[9999999999]"

theorem readSteps_farIndex (stop : Nat) :
    readSteps stop "größe[9999999999]".toList = .error ⟨.integerTooLarge, ['9', ']']⟩ := by
  have hname : readFirst "größe[9999999999]".toList
      = .ok (.field "größe", "[9999999999]".toList) := by decide
  have hindex : readSuffix "9999999999]".toList = .error ⟨.integerTooLarge, ['9', ']']⟩ := by decide
  have htail : readTail stop "[9999999999]".toList = .error ⟨.integerTooLarge, ['9', ']']⟩ := by
    simp only [String.reduceToList] at hindex ⊢
    exact readTail_bracket_error hindex
  rw [readSteps, hname]
  simp only [htail, Except.map]

theorem parse_farIndex : Path.parse farIndex = .error ⟨.integerTooLarge, 18, farIndex⟩ := by
  have htrim : trim farIndex.toList = "größe[9999999999]".toList := by decide
  have hne : ¬ "größe[9999999999]".toList = [] := by decide
  rw [Path.parse]
  simp only [htrim, hne, readSteps_farIndex, if_false]
  decide

theorem exists_pointsTo_farIndex :
    Path.parse farIndex = .error ⟨.integerTooLarge, 18, farIndex⟩ ∧
      ∃ lead before after trail, Divides farIndex lead before after trail ∧
        PathFault.PointsTo ⟨.integerTooLarge, 18, farIndex⟩ farIndex lead before after :=
  ⟨parse_farIndex, Path.exists_pointsTo parse_farIndex⟩

end Crosswalk
