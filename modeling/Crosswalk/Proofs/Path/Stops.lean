import Crosswalk.Proofs.Path.Derivation
import Crosswalk.Proofs.Path.Lookahead
import Crosswalk.Proofs.Path.Rendering

/-!
# Where readers of path texts stop

A reader that stops has read a text that can still be completed, and it stops there whatever follows
the character that it found. The one exception is an opening bracket in the place of a name, which
a closing one could follow.

* `Reason`: something else was expected, or a number went out of range.
* `Stop.Holds`: the texts on which a reader stops in the same way.
* `Halts`: what is true where a reader stops.
* `readSuffix_halts`, `readField_halts`, `readTail_halts`, `readSteps_halts`: every reader of
  segments, from the smallest up.
-/

namespace Crosswalk

open Decimal Text

/-! ## Why readers stop -/

/-- Why a reader stops behind `read`: something else was expected there, or the next digit takes the
digits read last, all of a number from its first digit on, out of range. -/
inductive Reason : (read : List Char) → Stop → Prop
  | expected {read : List Char} (what : Expectation) (rest : List Char) :
    Reason read (stopAt what rest)
  | outOfRange {before ds more : List Char} {k c : Char} {d : Nat} : k ∈ ['[', ',', '+', '-'] →
    (∀ x ∈ ds, isDigit x = true) → readDigits 0 ds ≤ maxInteger → digitValue? c = some d →
    maxInteger < readDigits 0 ds * 10 + d →
    Reason (before ++ k :: ds) ⟨.integerTooLarge, c :: more⟩

theorem Reason.append {read : List Char} {e : Stop} (h : Reason read e) (before : List Char) :
    Reason (before ++ read) e := by
  cases h with
  | expected what rest => exact .expected what rest
  | outOfRange hk hds hle hc hlarge =>
    rw [← List.append_assoc]
    exact .outOfRange hk hds hle hc hlarge

/-- A dot is no part of a number. -/
theorem Reason.of_dot {read : List Char} {e : Stop} (h : Reason ('.' :: read) e) :
    Reason read e := by
  generalize hcs : '.' :: read = cs at h
  cases h with
  | expected what rest => exact .expected what rest
  | @outOfRange before _ _ k _ _ hk hds hle hc hlarge =>
    cases before with
    | nil =>
      obtain ⟨rfl, -⟩ := List.cons.inj hcs
      simp at hk
    | cons x before =>
      obtain ⟨-, rfl⟩ := List.cons.inj hcs
      exact .outOfRange hk hds hle hc hlarge

/-- What a number that cannot be read has of a number. -/
inductive NumberStop : (read : List Char) → Stop → Prop
  | noDigit (rest : List Char) : NumberStop [] (stopAt .digit rest)
  | outOfRange {ds more : List Char} {c : Char} {d : Nat} : NumberText ds (readDigits 0 ds) →
    digitValue? c = some d → maxInteger < readDigits 0 ds * 10 + d →
    NumberStop ds ⟨.integerTooLarge, c :: more⟩

/-- What an integer that cannot be read has of an integer. -/
inductive IntegerStop : (read : List Char) → Stop → Prop
  | unsigned {read : List Char} {e : Stop} : NumberStop read e → IntegerStop read e
  | plus {read : List Char} {e : Stop} : NumberStop read e → IntegerStop ('+' :: read) e
  | minus {read : List Char} {e : Stop} : NumberStop read e → IntegerStop ('-' :: read) e

theorem readDigits1_stop {cs : List Char} {e : Stop} (h : readDigits1 cs = .error e) :
    ∃ read, cs = read ++ e.rest ∧ NumberStop read e := by
  unfold readDigits1 at h
  split at h
  · split at h
    · obtain ⟨ds, c, more, d, hcs, hds, hle, hc, hlarge, rfl⟩ :=
        (readNumber_eq_error (Nat.zero_le _)).mp h
      refine ⟨ds, hcs, .outOfRange ⟨?_, hds, rfl, hle⟩ hc hlarge⟩
      rintro rfl
      have := digitValue?_le hc
      simp only [readDigits, List.foldl_nil, maxInteger] at hlarge
      omega
    · obtain rfl := Except.error.inj h
      exact ⟨[], rfl, .noDigit _⟩
  · obtain rfl := Except.error.inj h
    exact ⟨[], rfl, .noDigit _⟩

theorem readInteger_stop {cs : List Char} {e : Stop} (h : readInteger cs = .error e) :
    ∃ read, cs = read ++ e.rest ∧ IntegerStop read e := by
  unfold readInteger at h
  split at h <;> obtain ⟨read, hcs, hstop⟩ := readDigits1_stop (map_eq_error.mp h)
  · exact ⟨'-' :: read, by rw [hcs]; rfl, .minus hstop⟩
  · exact ⟨'+' :: read, by rw [hcs]; rfl, .plus hstop⟩
  · exact ⟨read, hcs, .unsigned hstop⟩

theorem numberText_zero : NumberText ['0'] 0 := by
  have h := numberText_digits (Nat.zero_le maxInteger)
  rwa [digits_lt (by decide)] at h

theorem NumberStop.viable {read : List Char} {e : Stop} (h : NumberStop read e) :
    ∃ more n, NumberText (read ++ more) n := by
  cases h with
  | noDigit rest => exact ⟨_, 0, numberText_zero⟩
  | outOfRange hnum _ _ => exact ⟨[], _, by rwa [List.append_nil]⟩

theorem IntegerStop.viable {read : List Char} {e : Stop} (h : IntegerStop read e) :
    ∃ more i, IntegerText (read ++ more) i := by
  cases h with
  | unsigned hstop =>
    obtain ⟨more, n, hnum⟩ := hstop.viable
    exact ⟨more, n, .unsigned hnum⟩
  | plus hstop =>
    obtain ⟨more, n, hnum⟩ := hstop.viable
    exact ⟨more, n, .plus hnum⟩
  | minus hstop =>
    obtain ⟨more, n, hnum⟩ := hstop.viable
    exact ⟨more, _, .minus hnum⟩

theorem NumberStop.reason {read : List Char} {e : Stop} (h : NumberStop read e) {k : Char}
    (hk : k ∈ ['[', ',', '+', '-']) : Reason (k :: read) e := by
  cases h with
  | noDigit rest => exact .expected _ _
  | outOfRange hnum hc hlarge =>
    exact (Reason.outOfRange hk hnum.digits hnum.inRange hc hlarge : Reason ([] ++ k :: _) _)

theorem IntegerStop.reason {read : List Char} {e : Stop} (h : IntegerStop read e) {k : Char}
    (hk : k ∈ ['[', ',', '+', '-']) : Reason (k :: read) e := by
  cases h with
  | unsigned hstop => exact hstop.reason hk
  | plus hstop => exact (hstop.reason (k := '+') (by simp)).append [k]
  | minus hstop => exact (hstop.reason (k := '-') (by simp)).append [k]

/-! ## Indices and slices -/

theorem readCharacter_stop {c : Char} {cs : List Char} {e : Stop}
    (h : readCharacter c cs = .error e) : e = stopAt (.character c) cs := by
  cases cs with
  | nil => exact (Except.error.inj h).symm
  | cons d ds =>
    simp only [readCharacter] at h
    split at h
    · cases h
    · exact (Except.error.inj h).symm

theorem readSize_stop {cs : List Char} {e : Stop} (h : readSize cs = .error e) :
    (∃ ds, cs = ',' :: ds ∧ readInteger ds = .error e) ∨ e = stopAt .sizeOrClose cs := by
  unfold readSize at h
  split at h
  · exact .inl ⟨_, rfl, map_eq_error.mp h⟩
  · cases h
  · exact .inr (Except.error.inj h).symm

/-- What was read of an index or a slice, brackets included, can be completed to one; the last
bracket is always missing. -/
structure SuffixStop (read : List Char) (e : Stop) : Prop where
  viable : ∃ more s, SuffixText (read ++ (more ++ [']'])) s
  reason : Reason read e

/-- A start and a size, if there is one, up to the closing brackets. -/
theorem exists_of_readSize {start : Int} {size : Option Int} {t cs rest : List Char}
    (ht : IntegerText t start) (h : readSize cs = .ok (size, rest)) : ∃ u, cs = u ++ rest ∧
      SuffixText ('[' :: '[' :: (t ++ u) ++ [']', ']']) (.slice ⟨start, size⟩) := by
  rcases readSize_eq_ok.mp h with ⟨ds, n, rfl, hn, rfl⟩ | ⟨ds, rfl, rfl, rfl⟩
  · obtain ⟨u, rfl, hu, -⟩ := readInteger_eq_ok.mp hn
    refine ⟨',' :: u, rfl, ?_⟩
    have := SuffixText.slice ht hu
    simpa using this
  · exact ⟨[], rfl, by simpa using SuffixText.openSlice ht⟩

theorem readSlice_stop {cs : List Char} {e : Stop} (h : readSlice cs = .error e) :
    ∃ read, cs = read ++ e.rest ∧ SuffixStop ('[' :: '[' :: read) e := by
  rcases bind_eq_error.mp h with hstart | ⟨⟨start, cs1⟩, hstart, hbehind⟩
  · obtain ⟨read, hcs, hstop⟩ := readInteger_stop hstart
    obtain ⟨more, i, htext⟩ := hstop.viable
    refine ⟨read, hcs, ⟨more ++ [']'], .slice ⟨i, none⟩, ?_⟩, (hstop.reason (by simp)).append ['[']⟩
    simpa using SuffixText.openSlice htext
  obtain ⟨t, rfl, ht, -⟩ := readInteger_eq_ok.mp hstart
  rcases bind_eq_error.mp hbehind with hsize | ⟨⟨size, cs2⟩, hsize, hclose⟩
  · rcases readSize_stop hsize with ⟨ds, rfl, hnumber⟩ | rfl
    · obtain ⟨read, hds, hstop⟩ := readInteger_stop hnumber
      obtain ⟨more, n, htext⟩ := hstop.viable
      refine ⟨t ++ ',' :: read, by simp [hds], ⟨more ++ [']'], .slice ⟨start, some n⟩, ?_⟩,
        (hstop.reason (by simp)).append ('[' :: '[' :: t)⟩
      simpa using SuffixText.slice ht htext
    · refine ⟨t, rfl, ⟨[']'], .slice ⟨start, none⟩, ?_⟩, .expected _ _⟩
      simpa using SuffixText.openSlice ht
  obtain ⟨u, rfl, hu⟩ := exists_of_readSize ht hsize
  rcases bind_eq_error.mp hclose with hfirst | ⟨cs3, hfirst, hlast⟩
  · obtain rfl := readCharacter_stop hfirst
    refine ⟨t ++ u, by simp [stopAt], ⟨[']'], .slice ⟨start, size⟩, ?_⟩, .expected _ _⟩
    simpa using hu
  obtain rfl := readCharacter_eq_ok.mp hfirst
  rcases bind_eq_error.mp hlast with hsecond | ⟨cs4, -, hdone⟩
  · obtain rfl := readCharacter_stop hsecond
    refine ⟨t ++ u ++ [']'], by simp [stopAt], ⟨[], .slice ⟨start, size⟩, ?_⟩, .expected _ _⟩
    simpa using hu
  · cases hdone

theorem readIndexNumber_stop {cs : List Char} {e : Stop} (h : readIndexNumber cs = .error e) :
    ∃ read, cs = read ++ e.rest ∧ SuffixStop ('[' :: read) e := by
  rcases bind_eq_error.mp h with hnumber | ⟨⟨i, cs1⟩, hnumber, hclose⟩
  · obtain ⟨read, hcs, hstop⟩ := readInteger_stop hnumber
    obtain ⟨more, i, htext⟩ := hstop.viable
    refine ⟨read, hcs, ⟨more, .index i, ?_⟩, hstop.reason (by simp)⟩
    simpa using SuffixText.index htext
  obtain ⟨t, rfl, ht, -⟩ := readInteger_eq_ok.mp hnumber
  rcases bind_eq_error.mp hclose with hlast | ⟨cs2, -, hdone⟩
  · obtain rfl := readCharacter_stop hlast
    exact ⟨t, rfl, ⟨[], .index i, by simpa using SuffixText.index ht⟩, .expected _ _⟩
  · cases hdone

theorem readSuffix_stop {cs : List Char} {e : Stop} (h : readSuffix cs = .error e) :
    ∃ read, cs = read ++ e.rest ∧ SuffixStop ('[' :: read) e := by
  unfold readSuffix at h
  split at h
  · obtain ⟨read, hcs, hstop⟩ := readSlice_stop h
    exact ⟨'[' :: read, by rw [hcs]; rfl, hstop⟩
  · exact readIndexNumber_stop h

/-! ## Readers of segments -/

/-- A text on which a reader stops in the same way: it begins with the character that was found, and
a bracket that was found in the place of a name is not the first half of a literal pair. -/
structure Stop.Holds (e : Stop) (rest : List Char) : Prop where
  ne_nil : rest ≠ []
  head : rest.head? = e.rest.head?
  unpaired : e.problem = .expected .name (some '[') → rest.tail.head? ≠ some ']'

/-- A reader stops behind `read`. It stops there in the same way whatever follows the character that
it found, what it has read can be completed to a text in `T`, and it has a reason to stop. -/
structure Halts {α : Type} (R : List Char → Except Stop α) (T : List Char → Prop)
    (read : List Char) (e : Stop) : Prop where
  firm : ∀ rest, e.Holds rest → R (read ++ rest) = .error ⟨e.problem, rest⟩
  viable : ∃ more last, isBlank last = false ∧ T (read ++ (more ++ [last]))
  reason : Reason read e

theorem readSuffix_halts {cs : List Char} {e : Stop} (h : readSuffix cs = .error e) :
    ∃ read, cs = read ++ e.rest ∧
      Halts (fun cs => readSuffix cs.tail) (fun cs => ∃ s, SuffixText cs s) ('[' :: read) e := by
  obtain ⟨read, rfl, hfirm⟩ := LooksAhead.stop readSuffix_looksAhead h
  obtain ⟨read', hcs, hstop⟩ := readSuffix_stop h
  obtain rfl := List.append_cancel_right hcs
  obtain ⟨more, s, htext⟩ := hstop.viable
  exact ⟨read, rfl, fun rest hrest => hfirm rest hrest.head, ⟨more, ']', rfl, s, htext⟩,
    hstop.reason⟩

/-! ### Names -/

theorem readName_plain {b : Bool} {c : Char} (hslash : c ≠ '\\') (hopen : c ≠ '[')
    (hclose : c ≠ ']') (hdot : c = '.' → b = true) (cs : List Char) :
    readName b (c :: cs) = prepend [c] (readName b cs) := by
  rw [readName] <;> simp_all

theorem prepend_eq_error {cs : List Char} {r : Read (List Char)} {e : Stop} :
    prepend cs r = .error e ↔ r = .error e := by
  cases r <;> simp [prepend]

/-- A name stops only at the end of the text, behind a backslash, and at a closing bracket. It can
always be completed by a letter. -/
structure NameStop (b : Bool) (read : List Char) (e : Stop) : Prop where
  firm : ∀ rest, rest.head? = e.rest.head? → readName b (read ++ rest) = .error ⟨e.problem, rest⟩
  viable : ∃ name, name ≠ [] ∧ NameText b (read ++ ['a']) name []
  reason : ∃ what, e = stopAt what e.rest

theorem nameText_letter (b : Bool) : NameText b ['a'] ['a'] [] :=
  .plain (by decide) (by decide) (by decide) (fun h => absurd h (by decide)) (.stop .nil)

/-- More of a name in front of one that stops. -/
theorem NameStop.append {b b' : Bool} {read : List Char} {e : Stop} (h : NameStop b' read e)
    (text chars : List Char)
    (hread : ∀ cs, readName b (text ++ cs) = prepend chars (readName b' cs))
    (hname : ∀ {cs name}, NameText b' cs name [] → NameText b (text ++ cs) (chars ++ name) []) :
    NameStop b (text ++ read) e where
  firm rest hhead := by
    rw [List.append_assoc, hread, h.firm rest hhead]
    rfl
  viable := by
    obtain ⟨name, hne, htext⟩ := h.viable
    refine ⟨chars ++ name, by simp [hne], ?_⟩
    rw [List.append_assoc]
    exact hname htext
  reason := h.reason

theorem readName_stop {b : Bool} {cs : List Char} {e : Stop} (h : readName b cs = .error e) :
    ∃ read, cs = read ++ e.rest ∧ NameStop b read e := by
  fun_induction readName b cs with
  | case1 => cases h
  | case2 b =>
    obtain rfl := Except.error.inj h
    refine ⟨['\\'], rfl, fun rest hhead => ?_, ⟨['a'], by simp, .escaped (.stop .nil)⟩, _, rfl⟩
    obtain rfl : rest = [] := by simpa [stopAt] using hhead
    rfl
  | case3 b c cs ih =>
    obtain ⟨read, rfl, hstop⟩ := ih (prepend_eq_error.mp h)
    exact ⟨'\\' :: c :: read, rfl, hstop.append ['\\', c] [c]
      (fun cs => by rw [List.cons_append, List.cons_append, readName]; rfl) .escaped⟩
  | case4 b cs ih =>
    obtain ⟨read, rfl, hstop⟩ := ih (prepend_eq_error.mp h)
    exact ⟨'[' :: ']' :: read, rfl, hstop.append ['[', ']'] ['[', ']']
      (fun cs => by rw [List.cons_append, List.cons_append, readName]; rfl) .pair⟩
  | case5 b cs hslash hescape hpair =>
    obtain rfl := Except.error.inj h
    refine ⟨[], rfl, fun rest hhead => ?_, ⟨['a'], by simp, nameText_letter b⟩, _, rfl⟩
    obtain ⟨more, rfl⟩ := List.head?_eq_some_iff.mp hhead
    rw [List.nil_append, readName] <;> simp [stopAt]
  | case6 => cases h
  | case7 b c cs hslash hescape hpair hclose hstop ih =>
    obtain ⟨read, rfl, hname⟩ := ih (prepend_eq_error.mp h)
    simp only [not_or, not_and] at hstop
    have hne : c ≠ '\\' := by
      rintro rfl
      cases hcs : read ++ e.rest with
      | nil => exact hslash rfl hcs
      | cons d ds => exact hescape d ds rfl hcs
    have hdot : c = '.' → b = true := fun hc => by simpa using hstop.2 hc
    exact ⟨c :: read, rfl, hname.append [c] [c]
      (readName_plain hne hstop.1 hclose hdot) (.plain hne hstop.1 hclose hdot)⟩

/-- An empty name leaves the whole text. -/
theorem NameText.eq_of_nil {b : Bool} {cs rest : List Char} (h : NameText b cs [] rest) :
    cs = rest ∧ NameEnds b cs := by
  cases h with
  | stop hends => exact ⟨rfl, hends⟩

/-- A name ends on every text on which it was found to end. -/
theorem NameEnds.holds {cs rest : List Char} (h : NameEnds false cs)
    (hrest : (stopAt .name cs).Holds rest) : NameEnds false rest := by
  obtain ⟨hne, hhead, hpair⟩ := hrest
  cases h with
  | nil => exact absurd (List.head?_eq_none_iff.mp hhead) hne
  | dot cs _ =>
    obtain ⟨more, rfl⟩ := List.head?_eq_some_iff.mp hhead
    exact .dot more rfl
  | bracket cs _ =>
    obtain ⟨more, rfl⟩ := List.head?_eq_some_iff.mp hhead
    exact .bracket more (hpair rfl)

theorem readField_halts {cs : List Char} {e : Stop} (h : readField cs = .error e) :
    ∃ read, cs = read ++ e.rest ∧
      Halts readField (fun cs => ∃ name, name ≠ [] ∧ NameText false cs name []) read e := by
  have hlast : isBlank 'a' = false := rfl
  cases hname : readName false cs with
  | error e' =>
    obtain rfl : e' = e := by simpa [readField, hname] using h
    obtain ⟨read, rfl, hstop⟩ := readName_stop hname
    obtain ⟨what, he⟩ := hstop.reason
    refine ⟨read, rfl, fun rest hrest => ?_, ⟨[], 'a', hlast, hstop.viable⟩, he ▸ .expected _ _⟩
    rw [readField, hstop.firm rest hrest.head]
  | ok r =>
    obtain ⟨name, rest⟩ := r
    cases name with
    | cons c name => simp [readField, hname] at h
    | nil =>
      obtain ⟨rfl, hends⟩ := (readName_eq_ok.mp hname).eq_of_nil
      obtain rfl : stopAt .name cs = e := by simpa [readField, hname] using h
      refine ⟨[], rfl, fun rest hrest => ?_, ⟨[], 'a', hlast, ['a'], by simp, nameText_letter _⟩,
        .expected _ _⟩
      have hempty := readName_eq_ok.mpr (NameText.stop (hends.holds hrest))
      rw [List.nil_append, readField, hempty]
      simp only [stopAt, hrest.head]

/-! ### Paths -/

theorem readTail_dot_error {stop : Nat} {cs : List Char} {e : Stop} (h : readField cs = .error e) :
    readTail stop ('.' :: cs) = .error e := by
  rw [readTail]
  split <;> simp_all

theorem readTail_bracket_error {stop : Nat} {cs : List Char} {e : Stop}
    (h : readSuffix cs = .error e) : readTail stop ('[' :: cs) = .error e := by
  rw [readTail]
  split <;> simp_all

/-- A name that ended still ends if the text goes on differently behind another character. -/
theorem NameEnds.append {b : Bool} {c : Char} {read rest rest' : List Char}
    (h : NameEnds b (c :: (read ++ rest))) (hhead : rest'.head? = rest.head?) :
    NameEnds b (c :: (read ++ rest')) := by
  generalize hcs : c :: (read ++ rest) = cs at h
  cases h with
  | nil => cases hcs
  | dot _ hb =>
    obtain ⟨rfl, -⟩ := List.cons.inj hcs
    exact .dot _ hb
  | bracket _ hpair =>
    obtain ⟨rfl, rfl⟩ := List.cons.inj hcs
    refine .bracket _ ?_
    rwa [head?_append_of_eq hhead]

/-- A name that ended still ends if segments follow that begin with the same character. -/
theorem NameEnds.tailText {b : Bool} {c : Char} {cs ds : List Char} {ss : List Segment}
    (h : NameEnds b (c :: cs)) (htail : TailText (c :: ds) ss) : NameEnds b (c :: ds) := by
  refine htail.nameEnds fun s hs hfield => ?_
  generalize hcs : c :: ds = text at htail
  cases htail with
  | nil => cases hs
  | field _ _ _ =>
    obtain ⟨rfl, -⟩ := List.cons.inj hcs
    cases h with
    | dot _ hb => exact hb
  | suffix htext _ =>
    obtain rfl := Option.mem_some.mp hs
    rw [htext.isField_eq_false] at hfield
    cases hfield

/-- Segments that follow others stop behind a character at least, unless no name could have ended
before them. -/
theorem readTail_halts {stop : Nat} {cs : List Char} {e : Stop} (h : readTail stop cs = .error e) :
    ∃ read, cs = read ++ e.rest ∧ (read = [] → ∀ b, ¬ NameEnds b cs) ∧
      Halts (readTail stop) (fun cs => ∃ ss, TailText cs ss) read e := by
  fun_induction readTail stop cs with
  | case1 => cases h
  | case2 rest e' hread =>
    obtain rfl := Except.error.inj h
    obtain ⟨read, rfl, hstop⟩ := readField_halts hread
    refine ⟨'.' :: read, rfl, by simp, fun rest hrest => ?_, ?_, hstop.reason.append ['.']⟩
    · exact readTail_dot_error (hstop.firm rest hrest)
    · obtain ⟨more, last, hlast, name, hne, hname⟩ := hstop.viable
      exact ⟨more, last, hlast, _, .field hne hname .nil⟩
  | case3 rest s after hread ih =>
    obtain ⟨read, hafter, hopened, hstop⟩ := ih (map_eq_error.mp h)
    obtain ⟨name, hne, hname, rfl⟩ := readField_eq_ok.mp hread
    obtain ⟨text, b, rfl, hpieces, hends⟩ := nameText_iff.mp hname
    -- the name was found to end, so that more was read than the name
    obtain ⟨c, read, rfl⟩ : ∃ c more, read = c :: more := by
      cases read with
      | nil => exact absurd hends (hopened rfl b)
      | cons c more => exact ⟨c, more, rfl⟩
    rw [hafter] at hends
    refine ⟨'.' :: text ++ c :: read, by simp [hafter], by simp, fun rest hrest => ?_, ?_,
      hstop.reason.append ('.' :: text)⟩
    · have hfield := readField_eq_ok.mpr ⟨name, hne,
        nameText_iff.mpr ⟨text, b, rfl, hpieces, hends.append hrest.head⟩, rfl⟩
      rw [List.append_assoc, List.cons_append, List.cons_append, readTail_dot hfield,
        ← List.cons_append, hstop.firm rest hrest]
      rfl
    · obtain ⟨more, last, hlast, ss, htail⟩ := hstop.viable
      refine ⟨more, last, hlast, .field (String.ofList name) :: ss, ?_⟩
      rw [List.append_assoc, List.cons_append]
      exact .field hne (nameText_iff.mpr ⟨text, b, rfl, hpieces, hends.tailText htail⟩) htail
  | case4 rest e' hread =>
    obtain rfl := Except.error.inj h
    obtain ⟨read, rfl, hstop⟩ := readSuffix_halts hread
    refine ⟨'[' :: read, rfl, by simp, fun rest hrest => ?_, ?_, hstop.reason⟩
    · exact readTail_bracket_error (hstop.firm rest hrest)
    · obtain ⟨more, last, hlast, s, htext⟩ := hstop.viable
      refine ⟨more, last, hlast, [s], ?_⟩
      have := TailText.suffix htext .nil
      rwa [List.append_nil] at this
  | case5 rest s after hread ih =>
    obtain ⟨read, hafter, -, hstop⟩ := ih (map_eq_error.mp h)
    obtain ⟨text, htext, hkeep⟩ := readSuffix_looksAhead.ok hread
    obtain ⟨text', htext', hs⟩ := readSuffix_eq_ok.mp hread
    obtain rfl : text' = '[' :: text := by
      rw [htext] at htext'
      exact (List.append_cancel_right htext').symm
    refine ⟨'[' :: text ++ read, by simp [htext, hafter], by simp, fun rest hrest => ?_, ?_,
      hstop.reason.append ('[' :: text)⟩
    · have hsuffix := hkeep (read ++ rest) (by
        rw [hafter]
        exact head?_append_of_eq hrest.head)
      rw [List.append_assoc, List.cons_append, readTail_bracket hsuffix, hstop.firm rest hrest]
      rfl
    · obtain ⟨more, last, hlast, ss, htail⟩ := hstop.viable
      refine ⟨more, last, hlast, s :: ss, ?_⟩
      rw [List.append_assoc]
      exact .suffix hs htail
  | case6 c rest hdot hopen =>
    obtain rfl := Except.error.inj h
    refine ⟨[], rfl, fun _ b hends => ?_, fun rest' hrest => ?_, ?_, .expected _ _⟩
    · cases hends with
      | dot _ _ => exact hdot rfl
      | bracket _ _ => exact hopen rfl
    · obtain ⟨more, rfl⟩ := List.head?_eq_some_iff.mp hrest.head
      rw [List.nil_append, readTail]
      · rfl
      · exact hdot
      · exact hopen
    · exact ⟨['.'], 'a', rfl, _, .field (by simp) (nameText_letter _) .nil⟩

/-- A path is read like segments that follow others, with a dot before a field. -/
theorem readSteps_eq (stop : Nat) (cs : List Char) :
    readSteps stop cs = readTail stop (if opensIndex cs then cs else '.' :: cs) := by
  unfold readSteps readFirst
  by_cases hopens : opensIndex cs = true
  · obtain ⟨ds, rfl⟩ := opensIndex_eq_true hopens
    rw [if_pos hopens, if_pos hopens, List.tail_cons]
    cases hread : readSuffix ds with
    | error e => exact (readTail_bracket_error hread).symm
    | ok r => exact (readTail_bracket hread).symm
  · rw [if_neg hopens, if_neg hopens]
    cases hread : readField cs with
    | error e => exact (readTail_dot_error hread).symm
    | ok r => exact (readTail_dot hread).symm

theorem opensIndex_cons (c : Char) (cs : List Char) :
    opensIndex (c :: cs) = (decide (c = '[') && decide (cs.head? ≠ some ']')) := by
  by_cases hopen : c = '['
  · subst hopen
    cases cs with
    | nil => rfl
    | cons d ds =>
      by_cases hclose : d = ']'
      · subst hclose
        rfl
      · rw [opensIndex] <;> simp [hclose]
  · rw [opensIndex] <;> simp [hopen]

/-- Whether a text opens with an index shows in its first two characters. -/
theorem opensIndex_append_of_eq {c : Char} {read rest rest' : List Char}
    (h : rest'.head? = rest.head?) :
    opensIndex (c :: read ++ rest') = opensIndex (c :: read ++ rest) := by
  rw [List.cons_append, List.cons_append, opensIndex_cons, opensIndex_cons, head?_append_of_eq h]

/-- A literal pair at the front of a path is read before the reader stops. -/
theorem length_rest_lt_of_pair {stop : Nat} {cs : List Char} {e : Stop}
    (h : readTail stop ('.' :: '[' :: ']' :: cs) = .error e) :
    e.rest.length < ('[' :: ']' :: cs).length := by
  cases hread : readField ('[' :: ']' :: cs) with
  | error e' =>
    rw [readTail_dot_error hread] at h
    obtain rfl := Except.error.inj h
    have hname : readName false cs = .error e' := by
      rw [readField, readName] at hread
      cases hname : readName false cs with
      | error e => simpa [hname, prepend] using hread
      | ok r => simp [hname, prepend] at hread
    obtain ⟨read, hcs, -⟩ := readName_stop hname
    have := congrArg List.length hcs
    simp only [List.length_append, List.length_cons] at this ⊢
    omega
  | ok r =>
    obtain ⟨s, after⟩ := r
    have hlt := readField_length hread
    rw [readTail_dot hread] at h
    obtain ⟨read, hafter, -⟩ := readTail_halts (map_eq_error.mp h)
    have := congrArg List.length hafter
    rw [List.length_append] at this
    omega

/-- What follows the dot of a field is read in the same way at the front of a path, unless it begins
an index there. -/
theorem opensIndex_eq_false_of_holds {stop : Nat} {read rest : List Char} {e : Stop}
    (h : readTail stop ('.' :: (read ++ e.rest)) = .error e)
    (hopens : opensIndex (read ++ e.rest) = false) (hrest : e.Holds rest) :
    opensIndex (read ++ rest) = false := by
  cases read with
  | cons c read => rw [opensIndex_append_of_eq hrest.head, hopens]
  | nil =>
    obtain ⟨c, more, hfound⟩ := List.exists_cons_of_ne_nil (l := e.rest) (by
      intro hnil
      exact hrest.ne_nil (List.head?_eq_none_iff.mp (by rw [hrest.head, hnil]; rfl)))
    rw [List.nil_append] at h hopens ⊢
    rw [hfound] at h hopens
    obtain ⟨more', rfl⟩ := List.head?_eq_some_iff.mp (hrest.head.trans (by rw [hfound]; rfl))
    by_cases hopen : c = '['
    · -- a bracket that opens no index is half of a literal pair, which would have been read
      subst hopen
      have hpair : more.head? = some ']' := by simpa [opensIndex_cons] using hopens
      obtain ⟨more, rfl⟩ := List.head?_eq_some_iff.mp hpair
      have := length_rest_lt_of_pair h
      rw [hfound] at this
      omega
    · simp [opensIndex_cons, hopen]

/-- A field behind a dot begins a path without the dot. -/
theorem TailText.pathText_of_dot {cs : List Char} {ss : List Segment}
    (h : TailText ('.' :: cs) ss) : PathText cs ss := by
  generalize hcs : '.' :: cs = text at h
  cases h with
  | nil => cases hcs
  | field hne hname htail =>
    obtain ⟨-, rfl⟩ := List.cons.inj hcs
    exact .field hne hname htail
  | suffix htext _ =>
    obtain ⟨c, more, rfl, -, -⟩ := htext.readSuffix_append []
    exact absurd (List.cons.inj hcs).1 (by decide)

/-- A suffix begins a path as it follows other segments. -/
theorem TailText.pathText_of_bracket {cs : List Char} {ss : List Segment}
    (h : TailText ('[' :: cs) ss) : PathText ('[' :: cs) ss := by
  generalize hcs : '[' :: cs = text at h
  cases h with
  | nil => cases hcs
  | field _ _ _ => exact absurd (List.cons.inj hcs).1 (by decide)
  | suffix htext htail => exact .suffix htext htail

/-- A path stops where a tail with a dot in front of its first field stops. -/
theorem readSteps_halts {stop : Nat} {cs : List Char} {e : Stop}
    (h : readSteps stop cs = .error e) : ∃ read, cs = read ++ e.rest ∧
      Halts (readSteps stop) (fun cs => ∃ ss, PathText cs ss) read e := by
  rw [readSteps_eq] at h
  cases hopens : opensIndex cs with
  | true =>
    rw [hopens, if_pos rfl] at h
    obtain ⟨ds, rfl⟩ := opensIndex_eq_true hopens
    obtain ⟨read, hcs, hopened, hstop⟩ := readTail_halts h
    cases read with
    | nil =>
      -- a name could have ended at a bracket that opens an index
      have hpair : ds.head? ≠ some ']' := by simpa [opensIndex_cons] using hopens
      exact absurd (.bracket ds hpair) (hopened rfl false)
    | cons c read =>
      obtain ⟨rfl, htail⟩ := List.cons.inj hcs
      obtain rfl : ds = read ++ e.rest := htail
      refine ⟨'[' :: read, rfl, fun rest hrest => ?_, ?_, hstop.reason⟩
      · rw [readSteps_eq, opensIndex_append_of_eq hrest.head, List.cons_append, hopens, if_pos rfl]
        exact hstop.firm rest hrest
      · obtain ⟨more, last, hlast, ss, htail⟩ := hstop.viable
        exact ⟨more, last, hlast, ss, htail.pathText_of_bracket⟩
  | false =>
    rw [hopens, if_neg (by simp)] at h
    obtain ⟨read, hcs, hopened, hstop⟩ := readTail_halts h
    cases read with
    | nil => exact absurd (.dot cs rfl) (hopened rfl false)
    | cons c read =>
      obtain ⟨rfl, htail⟩ := List.cons.inj hcs
      obtain rfl : cs = read ++ e.rest := htail
      refine ⟨read, rfl, fun rest hrest => ?_, ?_, hstop.reason.of_dot⟩
      · rw [readSteps_eq, opensIndex_eq_false_of_holds h hopens hrest, if_neg (by simp)]
        exact hstop.firm rest hrest
      · obtain ⟨more, last, hlast, ss, htail⟩ := hstop.viable
        exact ⟨more, last, hlast, ss, htail.pathText_of_dot⟩

end Crosswalk
