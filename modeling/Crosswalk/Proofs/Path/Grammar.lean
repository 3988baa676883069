import Crosswalk.Path.Parser
import Crosswalk.Proofs.Decimal.Digits
import Crosswalk.Proofs.Outcome
import Mathlib.Data.List.Basic

/-!
# The grammar of path texts

What the readers of path texts accept, as relations between characters and what they stand for. A
reader takes a text off the front of its input if and only if the relation says so.

* `NameText`: a name, extended as far as possible, and what is left behind it.
* `IntegerText`, `SuffixText`: numbers, and indices and slices in brackets.
* `TailText`, `PathText`: segments behind others, and a whole path.
* `readSteps_eq_ok`, `Path.parse_eq_ok`: the segments of a text are those of the grammar.
-/

namespace Crosswalk

open Decimal

/-! ## Names -/

/-- Where a name ends: at the end of the text, at a dot that does not belong to it, and at a bracket
that does not open a literal pair. -/
inductive NameEnds (inBrackets : Bool) : List Char → Prop
  | nil : NameEnds inBrackets []
  | dot (cs : List Char) : inBrackets = false → NameEnds inBrackets ('.' :: cs)
  | bracket (cs : List Char) : cs.head? ≠ some ']' → NameEnds inBrackets ('[' :: cs)

/-- `NameText inBrackets cs name rest`: the longest name at the front of `cs` is `name`, and `rest`
follows it. A dot belongs to the name while the last escaped bracket is an opening one. -/
inductive NameText : (inBrackets : Bool) → (cs name rest : List Char) → Prop
  | stop {b : Bool} {rest : List Char} : NameEnds b rest → NameText b rest [] rest
  | escaped {b : Bool} {c : Char} {cs name rest : List Char} :
    NameText (dotsAfter b c) cs name rest → NameText b ('\\' :: c :: cs) (c :: name) rest
  | pair {b : Bool} {cs name rest : List Char} :
    NameText b cs name rest → NameText b ('[' :: ']' :: cs) ('[' :: ']' :: name) rest
  | plain {b : Bool} {c : Char} {cs name rest : List Char} : c ≠ '\\' → c ≠ '[' → c ≠ ']' →
    (c = '.' → b = true) → NameText b cs name rest → NameText b (c :: cs) (c :: name) rest

theorem readName_eq_ok {b : Bool} {cs name rest : List Char} :
    readName b cs = .ok (name, rest) ↔ NameText b cs name rest := by
  constructor
  · intro h
    fun_induction readName b cs generalizing name rest with
    | case1 =>
      simp only [Except.ok.injEq, Prod.mk.injEq] at h
      obtain ⟨rfl, rfl⟩ := h
      exact .stop .nil
    | case2 => simp at h
    | case3 b c cs ih =>
      obtain ⟨n, hn, rfl⟩ := prepend_eq_ok.1 h
      exact .escaped (ih hn)
    | case4 b cs ih =>
      obtain ⟨n, hn, rfl⟩ := prepend_eq_ok.1 h
      exact .pair (ih hn)
    | case5 => simp at h
    | case6 b c cs hslash hescape hpair hclose hstop =>
      simp only [Except.ok.injEq, Prod.mk.injEq] at h
      obtain ⟨rfl, rfl⟩ := h
      rcases hstop with rfl | ⟨rfl, hb⟩
      · refine .stop (.bracket cs fun hhead => ?_)
        obtain ⟨ds, rfl⟩ := List.head?_eq_some_iff.mp hhead
        exact hpair ds rfl rfl
      · exact .stop (.dot cs hb)
    | case7 b c cs hslash hescape hpair hclose hstop ih =>
      obtain ⟨n, hn, rfl⟩ := prepend_eq_ok.1 h
      simp only [not_or, not_and] at hstop
      refine .plain ?_ hstop.1 hclose (fun hc => by simpa using hstop.2 hc) (ih hn)
      rintro rfl
      cases cs with
      | nil => exact hslash rfl rfl
      | cons d ds => exact hescape d ds rfl rfl
  · intro h
    induction h with
    | stop hends =>
      cases hends with
      | nil => rfl
      | dot cs hb => rw [readName] <;> simp [hb]
      | bracket cs hhead =>
        rw [readName] <;> simp
        rintro ds rfl
        simp at hhead
    | escaped _ ih => rw [readName, ih]; rfl
    | pair _ ih => rw [readName, ih]; rfl
    | plain hslash hopen hclose hdot _ ih =>
      rw [readName] <;> simp_all [prepend]

/-- A name is a list of characters that were in the text, in their order. -/
theorem NameText.countP_le {b : Bool} {cs name rest : List Char} (h : NameText b cs name rest)
    (p : Char → Bool) : name.countP p + rest.countP p ≤ cs.countP p := by
  induction h with
  | stop _ => simp
  | escaped _ ih => simp only [List.countP_cons]; omega
  | pair _ ih => simp only [List.countP_cons]; omega
  | plain _ _ _ _ _ ih => simp only [List.countP_cons]; omega

/-- A dot ends a name only where no bracket is open in it. The brackets of literal pairs are closed
again, so `b'` may run behind the brackets that were escaped. -/
theorem NameText.closed_of_dot {b b' : Bool} {cs name rest : List Char}
    (h : NameText b cs name ('.' :: rest)) (hb : b' = true → b = true) :
    name.foldl dotsAfter b' = false := by
  generalize hdot : '.' :: rest = tail at h
  induction h generalizing b' with
  | stop hends =>
    subst hdot
    cases hends with
    | dot _ hfalse => simpa [hfalse] using hb
  | @escaped b c _ _ _ _ ih =>
    refine ih (fun h => ?_) hdot
    simp only [dotsAfter] at h ⊢
    split <;> simp_all
  | pair _ ih => exact ih (by simp [dotsAfter]) hdot
  | @plain b c _ _ _ _ hopen hclose _ _ ih =>
    rw [List.foldl_cons, dotsAfter, if_neg hopen, if_neg hclose]
    exact ih hb hdot

theorem readField_eq_ok {cs rest : List Char} {s : Segment} : readField cs = .ok (s, rest) ↔
    ∃ name, name ≠ [] ∧ NameText false cs name rest ∧ s = .field (String.ofList name) := by
  simp only [← readName_eq_ok, readField]
  cases readName false cs with
  | error stop => simp
  | ok r =>
    obtain ⟨name, rest'⟩ := r
    cases name with
    | nil => simp
    | cons c name =>
      simp only [Except.ok.injEq, Prod.mk.injEq]
      constructor
      · rintro ⟨rfl, rfl⟩
        exact ⟨c :: name, by simp, ⟨rfl, rfl⟩, rfl⟩
      · rintro ⟨_, -, ⟨rfl, rfl⟩, rfl⟩
        exact ⟨rfl, rfl⟩

/-! ## Numbers -/

/-- The next character, if any, is no digit. -/
def NoDigit (rest : List Char) : Prop := ∀ c, rest.head? = some c → isDigit c = false

/-- One digit or more, for a number within range. -/
structure NumberText (ds : List Char) (n : Nat) : Prop where
  ne_nil : ds ≠ []
  digits : ∀ d ∈ ds, isDigit d = true
  value : readDigits 0 ds = n
  inRange : n ≤ maxInteger

/-- A number behind an optional sign. -/
inductive IntegerText : List Char → Int → Prop
  | unsigned {ds : List Char} {n : Nat} : NumberText ds n → IntegerText ds n
  | plus {ds : List Char} {n : Nat} : NumberText ds n → IntegerText ('+' :: ds) n
  | minus {ds : List Char} {n : Nat} : NumberText ds n → IntegerText ('-' :: ds) (-n)

theorem readDigits_cons {n d : Nat} {c : Char} {cs : List Char} (h : digitValue? c = some d) :
    readDigits n (c :: cs) = readDigits (n * 10 + d) cs := by
  rw [readDigits, List.foldl_cons, h]
  rfl

/-- Digits never make a number smaller. -/
theorem le_readDigits (n : Nat) (ds : List Char) : n ≤ readDigits n ds := by
  induction ds generalizing n with
  | nil => exact Nat.le_refl n
  | cons c ds ih =>
    rw [readDigits, List.foldl_cons]
    refine Nat.le_trans ?_ (ih _)
    split <;> omega

theorem readNumber_eq_ok {n m : Nat} {cs rest : List Char} (hn : n ≤ maxInteger) :
    readNumber n cs = .ok (m, rest) ↔ ∃ ds, cs = ds ++ rest ∧ (∀ d ∈ ds, isDigit d = true) ∧
      NoDigit rest ∧ readDigits n ds = m ∧ m ≤ maxInteger := by
  induction cs generalizing n with
  | nil =>
    simp only [readNumber, Except.ok.injEq, Prod.mk.injEq]
    constructor
    · rintro ⟨rfl, rfl⟩
      exact ⟨[], rfl, by simp, by simp [NoDigit], rfl, hn⟩
    · rintro ⟨ds, hcs, -, -, hm, -⟩
      obtain ⟨rfl, rfl⟩ := List.append_eq_nil_iff.mp hcs.symm
      exact ⟨hm, rfl⟩
  | cons c cs ih =>
    cases hc : digitValue? c with
    | none =>
      have hno : isDigit c = false := by simp [isDigit, hc]
      simp only [readNumber, hc, Except.ok.injEq, Prod.mk.injEq]
      constructor
      · rintro ⟨rfl, rfl⟩
        exact ⟨[], rfl, by simp, by simp [NoDigit, hno], rfl, hn⟩
      · rintro ⟨ds, hcs, hds, -, hm, -⟩
        cases ds with
        | nil => exact ⟨hm, hcs⟩
        | cons d ds =>
          obtain ⟨rfl, -⟩ := List.cons.inj hcs
          simp [hno] at hds
    | some d =>
      have hdigit : isDigit c = true := by simp [isDigit, hc]
      simp only [readNumber, hc]
      constructor
      · intro h
        split at h
        · simp at h
        · obtain ⟨ds, rfl, hds, hrest, hm, hle⟩ := (ih (by omega)).mp h
          exact ⟨c :: ds, rfl, by simpa [hdigit] using hds, hrest, by rw [readDigits_cons hc, hm],
            hle⟩
      · rintro ⟨ds, hcs, hds, hrest, hm, hle⟩
        cases ds with
        | nil => simp [NoDigit, ← show c :: cs = rest from hcs, hdigit] at hrest
        | cons d' ds =>
          obtain ⟨rfl, rfl⟩ := List.cons.inj hcs
          rw [readDigits_cons hc] at hm
          have := le_readDigits (n * 10 + d) ds
          rw [if_neg (by omega)]
          exact (ih (by omega)).mpr ⟨ds, rfl, fun x hx => hds x (by simp [hx]), hrest, hm, hle⟩

theorem readDigits1_eq_ok {n : Nat} {cs rest : List Char} : readDigits1 cs = .ok (n, rest) ↔
    ∃ ds, cs = ds ++ rest ∧ NumberText ds n ∧ NoDigit rest := by
  have hzero : 0 ≤ maxInteger := Nat.zero_le _
  cases cs with
  | nil =>
    simp only [readDigits1, reduceCtorEq, false_iff]
    rintro ⟨ds, hcs, hnum, -⟩
    exact hnum.ne_nil (List.append_eq_nil_iff.mp hcs.symm).1
  | cons c cs =>
    cases hc : isDigit c with
    | true =>
      rw [readDigits1, if_pos hc, readNumber_eq_ok hzero]
      constructor
      · rintro ⟨ds, hcs, hds, hrest, hn, hle⟩
        refine ⟨ds, hcs, ⟨?_, hds, hn, hle⟩, hrest⟩
        rintro rfl
        simp [NoDigit, ← show c :: cs = rest from hcs, hc] at hrest
      · rintro ⟨ds, hcs, hnum, hrest⟩
        exact ⟨ds, hcs, hnum.digits, hrest, hnum.value, hnum.inRange⟩
    | false =>
      simp only [readDigits1, hc, Bool.false_eq_true, if_false, reduceCtorEq, false_iff]
      rintro ⟨ds, hcs, hnum, -⟩
      cases ds with
      | nil => exact hnum.ne_nil rfl
      | cons d ds =>
        obtain ⟨rfl, -⟩ := List.cons.inj hcs
        simpa [hc] using hnum.digits c (by simp)

/-- A number begins with a digit. -/
theorem NumberText.exists_cons {n : Nat} {ds : List Char} (h : NumberText ds n) :
    ∃ d more, ds = d :: more ∧ isDigit d = true := by
  cases ds with
  | nil => exact absurd rfl h.ne_nil
  | cons d more => exact ⟨d, more, rfl, h.digits d (by simp)⟩

/-- A number without a sign is read from its first digit on. -/
theorem NumberText.readInteger_append {n : Nat} {ds : List Char} (h : NumberText ds n)
    (rest : List Char) : readInteger (ds ++ rest)
      = (readDigits1 (ds ++ rest)).map fun (n, rest) => ((n : Int), rest) := by
  obtain ⟨d, more, rfl, hd⟩ := h.exists_cons
  have hminus : d ≠ '-' := by rintro rfl; exact absurd hd (by decide)
  have hplus : d ≠ '+' := by rintro rfl; exact absurd hd (by decide)
  rw [List.cons_append, readInteger] <;> simp_all

theorem readInteger_eq_ok {i : Int} {cs rest : List Char} : readInteger cs = .ok (i, rest) ↔
    ∃ text, cs = text ++ rest ∧ IntegerText text i ∧ NoDigit rest := by
  constructor
  · intro h
    unfold readInteger at h
    split at h <;> obtain ⟨⟨n, rest'⟩, hd, hi⟩ := map_eq_ok.mp h <;>
      obtain ⟨rfl, rfl⟩ := Prod.mk.inj hi <;>
      obtain ⟨ds, rfl, hnum, hrest⟩ := readDigits1_eq_ok.mp hd
    · exact ⟨'-' :: ds, rfl, .minus hnum, hrest⟩
    · exact ⟨'+' :: ds, rfl, .plus hnum, hrest⟩
    · exact ⟨ds, rfl, .unsigned hnum, hrest⟩
  · rintro ⟨text, rfl, htext, hrest⟩
    cases htext with
    | unsigned hnum =>
      rw [hnum.readInteger_append, readDigits1_eq_ok.mpr ⟨_, rfl, hnum, hrest⟩]
      rfl
    | plus hnum =>
      rw [List.cons_append, readInteger, readDigits1_eq_ok.mpr ⟨_, rfl, hnum, hrest⟩]
      rfl
    | minus hnum =>
      rw [List.cons_append, readInteger, readDigits1_eq_ok.mpr ⟨_, rfl, hnum, hrest⟩]
      rfl

/-- An integer begins with a sign or a digit. -/
theorem IntegerText.exists_cons {text : List Char} {i : Int} (h : IntegerText text i) :
    ∃ c more, text = c :: more ∧ c ≠ '[' ∧ c ≠ ']' := by
  cases h with
  | unsigned hnum =>
    obtain ⟨d, more, rfl, hd⟩ := hnum.exists_cons
    refine ⟨d, more, rfl, ?_, ?_⟩ <;> rintro rfl <;> exact absurd hd (by decide)
  | plus _ => exact ⟨_, _, rfl, by decide, by decide⟩
  | minus _ => exact ⟨_, _, rfl, by decide, by decide⟩

theorem IntegerText.inRange {text : List Char} {i : Int} (h : IntegerText text i) :
    i.natAbs ≤ maxInteger := by
  cases h with
  | unsigned hnum => exact hnum.inRange
  | plus hnum => exact hnum.inRange
  | minus hnum => rw [Int.natAbs_neg]; exact hnum.inRange

/-! ## Indices and slices -/

/-- The text of an index or a slice, with its brackets. -/
inductive SuffixText : List Char → Segment → Prop
  | index {t : List Char} {i : Int} : IntegerText t i → SuffixText ('[' :: t ++ [']']) (.index i)
  | openSlice {t : List Char} {start : Int} : IntegerText t start →
    SuffixText ('[' :: '[' :: t ++ [']', ']']) (.slice ⟨start, none⟩)
  | slice {t u : List Char} {start size : Int} : IntegerText t start → IntegerText u size →
    SuffixText ('[' :: '[' :: t ++ ',' :: u ++ [']', ']']) (.slice ⟨start, some size⟩)

theorem readCharacter_eq_ok {c : Char} {cs rest : List Char} :
    readCharacter c cs = .ok rest ↔ cs = c :: rest := by
  cases cs with
  | nil => simp [readCharacter]
  | cons d ds =>
    simp only [readCharacter, List.cons.injEq]
    split <;> simp_all

theorem readSize_eq_ok {size : Option Int} {cs rest : List Char} :
    readSize cs = .ok (size, rest) ↔
      (∃ ds n, cs = ',' :: ds ∧ readInteger ds = .ok (n, rest) ∧ size = some n) ∨
      (∃ ds, cs = ']' :: ds ∧ rest = ']' :: ds ∧ size = none) := by
  constructor
  · intro h
    unfold readSize at h
    split at h
    · obtain ⟨⟨n, rest'⟩, hn, hpair⟩ := map_eq_ok.mp h
      obtain ⟨rfl, rfl⟩ := Prod.mk.inj hpair
      exact .inl ⟨_, n, rfl, hn, rfl⟩
    · obtain ⟨rfl, rfl⟩ := Prod.mk.inj (Except.ok.inj h)
      exact .inr ⟨_, rfl, rfl, rfl⟩
    · simp at h
  · rintro (⟨ds, n, rfl, hn, rfl⟩ | ⟨ds, rfl, rfl, rfl⟩)
    · rw [readSize, hn]; rfl
    · rw [readSize]

theorem noDigit_cons {c : Char} (h : isDigit c = false) (rest : List Char) :
    NoDigit (c :: rest) := by
  simp [NoDigit, h]

theorem suffixText_of_readSlice {s : Segment} {cs rest : List Char}
    (h : readSlice cs = .ok (s, rest)) :
    ∃ text, '[' :: '[' :: cs = text ++ rest ∧ SuffixText text s := by
  obtain ⟨⟨start, cs1⟩, h1, h⟩ := bind_eq_ok.mp h
  obtain ⟨⟨size, cs2⟩, h2, h⟩ := bind_eq_ok.mp h
  obtain ⟨cs3, h3, h⟩ := bind_eq_ok.mp h
  obtain ⟨cs4, h4, h⟩ := bind_eq_ok.mp h
  obtain ⟨rfl, rfl⟩ := Prod.mk.inj (Except.ok.inj h)
  rw [readCharacter_eq_ok] at h3 h4
  subst h3 h4
  obtain ⟨t, rfl, ht, -⟩ := readInteger_eq_ok.mp h1
  rcases readSize_eq_ok.mp h2 with ⟨ds, n, rfl, hn, rfl⟩ | ⟨ds, rfl, hrest, rfl⟩
  · obtain ⟨u, rfl, hu, -⟩ := readInteger_eq_ok.mp hn
    exact ⟨_, by simp, .slice ht hu⟩
  · obtain ⟨-, rfl⟩ := List.cons.inj hrest
    exact ⟨_, by simp, .openSlice ht⟩

/-- The text of an index or a slice is read as such, and is never mistaken for a literal pair. -/
theorem SuffixText.readSuffix_append {text : List Char} {s : Segment} (h : SuffixText text s)
    (rest : List Char) : ∃ c more, text = '[' :: c :: more ∧ c ≠ ']' ∧
      readSuffix (c :: (more ++ rest)) = .ok (s, rest) := by
  cases h with
  | @index t i ht =>
    have hi := readInteger_eq_ok.mpr ⟨_, rfl, ht, noDigit_cons (c := ']') (by decide) rest⟩
    obtain ⟨c, more, rfl, hopen, hclose⟩ := ht.exists_cons
    refine ⟨c, more ++ [']'], rfl, hclose, ?_⟩
    rw [List.append_assoc, List.singleton_append, readSuffix]
    · rw [List.cons_append] at hi
      simp [readIndexNumber, hi, bind, Except.bind, readCharacter, pure, Except.pure]
    · simp [hopen]
  | @openSlice t start ht =>
    have hi := readInteger_eq_ok.mpr
      ⟨_, rfl, ht, noDigit_cons (c := ']') (by decide) (']' :: rest)⟩
    refine ⟨'[', t ++ [']', ']'], rfl, by decide, ?_⟩
    simp [readSuffix, readSlice, hi, bind, Except.bind, readSize, readCharacter, pure, Except.pure]
  | @slice t u start size ht hu =>
    have hn := readInteger_eq_ok.mpr
      ⟨_, rfl, hu, noDigit_cons (c := ']') (by decide) (']' :: rest)⟩
    have hi := readInteger_eq_ok.mpr
      ⟨_, rfl, ht, noDigit_cons (c := ',') (by decide) (u ++ ']' :: ']' :: rest)⟩
    refine ⟨'[', t ++ ',' :: u ++ [']', ']'], rfl, by decide, ?_⟩
    simp [readSuffix, readSlice, hi, hn, bind, Except.bind, readSize, readCharacter, pure,
      Except.pure, Except.map]

theorem readSuffix_eq_ok {s : Segment} {cs rest : List Char} : readSuffix cs = .ok (s, rest) ↔
    ∃ text, '[' :: cs = text ++ rest ∧ SuffixText text s := by
  constructor
  · intro h
    unfold readSuffix at h
    split at h
    · exact suffixText_of_readSlice h
    · obtain ⟨⟨i, cs1⟩, h1, h⟩ := bind_eq_ok.mp h
      obtain ⟨cs2, h2, h⟩ := bind_eq_ok.mp h
      obtain ⟨rfl, rfl⟩ := Prod.mk.inj (Except.ok.inj h)
      rw [readCharacter_eq_ok] at h2
      subst h2
      obtain ⟨t, rfl, ht, -⟩ := readInteger_eq_ok.mp h1
      exact ⟨_, by simp, .index ht⟩
  · rintro ⟨text, hcs, htext⟩
    obtain ⟨c, more, rfl, -, hread⟩ := htext.readSuffix_append rest
    obtain ⟨-, rfl⟩ := List.cons.inj hcs
    exact hread

/-- A segment whose numbers are within range. -/
def Segment.InRange : Segment → Prop
  | .field _ => True
  | .index i => i.natAbs ≤ maxInteger
  | .slice s => s.start.natAbs ≤ maxInteger ∧ ∀ n, s.size = some n → n.natAbs ≤ maxInteger

theorem SuffixText.inRange {text : List Char} {s : Segment} (h : SuffixText text s) :
    s.InRange := by
  cases h with
  | index ht => exact ht.inRange
  | openSlice ht => exact ⟨ht.inRange, by simp⟩
  | slice ht hu => exact ⟨ht.inRange, by rintro n ⟨⟩; exact hu.inRange⟩

theorem SuffixText.isField_eq_false {text : List Char} {s : Segment} (h : SuffixText text s) :
    s.isField = false := by
  cases h <;> rfl

/-! ## Paths -/

/-- The text of segments that follow others. -/
inductive TailText : List Char → List Segment → Prop
  | nil : TailText [] []
  | field {cs name rest : List Char} {ss : List Segment} : name ≠ [] → NameText false cs name rest →
    TailText rest ss → TailText ('.' :: cs) (.field (String.ofList name) :: ss)
  | suffix {text rest : List Char} {s : Segment} {ss : List Segment} : SuffixText text s →
    TailText rest ss → TailText (text ++ rest) (s :: ss)

/-- The text of the segments of a path. -/
inductive PathText : List Char → List Segment → Prop
  | field {cs name rest : List Char} {ss : List Segment} : name ≠ [] → NameText false cs name rest →
    TailText rest ss → PathText cs (.field (String.ofList name) :: ss)
  | suffix {text rest : List Char} {s : Segment} {ss : List Segment} : SuffixText text s →
    TailText rest ss → PathText (text ++ rest) (s :: ss)

/-- A path reads like segments behind others, but for the dot before its first field. -/
theorem pathText_cons_iff {cs : List Char} {s : Segment} {ss : List Segment} :
    PathText cs (s :: ss) ↔ TailText (if s.isField then '.' :: cs else cs) (s :: ss) := by
  constructor
  · intro h
    cases h with
    | field hne hname htail => exact .field hne hname htail
    | suffix htext htail =>
      rw [htext.isField_eq_false]
      exact .suffix htext htail
  · intro h
    generalize hcs : (if s.isField then '.' :: cs else cs) = ds at h
    cases h with
    | field hne hname htail =>
      obtain ⟨-, rfl⟩ := List.cons.inj hcs
      exact .field hne hname htail
    | suffix htext htail =>
      rw [htext.isField_eq_false] at hcs
      obtain rfl : cs = _ := hcs
      exact .suffix htext htail

/-- A reader's steps count by their segments only. -/
theorem map_steps_eq_ok {r : Except Stop (List Step)} {step : Step} {ss : List Segment} :
    (r.map (step :: ·)).map (List.map Step.segment) = .ok ss ↔
      ∃ rest, r.map (List.map Step.segment) = .ok rest ∧ ss = step.segment :: rest := by
  cases r with
  | error stop => simp [Except.map]
  | ok steps => simp [Except.map, eq_comm]

theorem readTail_dot {stop : Nat} {cs rest : List Char} {s : Segment}
    (h : readField cs = .ok (s, rest)) :
    readTail stop ('.' :: cs) = (readTail stop rest).map (stepOf stop s cs rest :: ·) := by
  rw [readTail]
  split <;> simp_all

theorem readTail_bracket {stop : Nat} {cs rest : List Char} {s : Segment}
    (h : readSuffix cs = .ok (s, rest)) :
    readTail stop ('[' :: cs) = (readTail stop rest).map (stepOf stop s ('[' :: cs) rest :: ·) := by
  rw [readTail]
  split <;> simp_all

theorem readTail_eq_ok {stop : Nat} {cs : List Char} {ss : List Segment} :
    (readTail stop cs).map (List.map Step.segment) = .ok ss ↔ TailText cs ss := by
  constructor
  · intro h
    fun_induction readTail stop cs generalizing ss with
    | case1 =>
      obtain rfl : [] = ss := by simpa [Except.map] using h
      exact .nil
    | case2 => simp [Except.map] at h
    | case3 rest s after hread ih =>
      obtain ⟨ss, htail, rfl⟩ := map_steps_eq_ok.mp h
      obtain ⟨name, hne, hname, rfl⟩ := readField_eq_ok.mp hread
      exact .field hne hname (ih htail)
    | case4 => simp [Except.map] at h
    | case5 rest s after hread ih =>
      obtain ⟨ss, htail, rfl⟩ := map_steps_eq_ok.mp h
      obtain ⟨text, htext, hs⟩ := readSuffix_eq_ok.mp hread
      rw [htext]
      exact .suffix hs (ih htail)
    | case6 => simp [Except.map] at h
  · intro h
    induction h with
    | nil => rw [readTail]; rfl
    | field hne hname _ ih =>
      rw [readTail_dot (readField_eq_ok.mpr ⟨_, hne, hname, rfl⟩), map_steps_eq_ok]
      exact ⟨_, ih, rfl⟩
    | @suffix text rest s ss htext _ ih =>
      obtain ⟨c, more, rfl, -, hread⟩ := htext.readSuffix_append rest
      rw [List.cons_append, List.cons_append, readTail_bracket hread, map_steps_eq_ok]
      exact ⟨_, ih, rfl⟩

theorem opensIndex_eq_true {cs : List Char} (h : opensIndex cs = true) : ∃ ds, cs = '[' :: ds := by
  unfold opensIndex at h
  split at h
  · cases h
  · exact ⟨_, rfl⟩
  · cases h

theorem SuffixText.opensIndex_append {text : List Char} {s : Segment} (h : SuffixText text s)
    (rest : List Char) : opensIndex (text ++ rest) = true := by
  obtain ⟨c, more, rfl, hclose, -⟩ := h.readSuffix_append rest
  rw [List.cons_append, List.cons_append, opensIndex]
  simpa using hclose

/-- A text that a field opens does not open with an index. -/
theorem NameText.opensIndex_eq_false {b : Bool} {cs name rest : List Char}
    (h : NameText b cs name rest) (hne : name ≠ []) : opensIndex cs = false := by
  cases h with
  | stop _ => exact absurd rfl hne
  | escaped _ => rfl
  | pair _ => rfl
  | plain _ hopen _ _ _ =>
    rw [opensIndex] <;> simp_all

theorem readFirst_eq_ok {cs rest : List Char} {s : Segment} : readFirst cs = .ok (s, rest) ↔
    (∃ name, name ≠ [] ∧ NameText false cs name rest ∧ s = .field (String.ofList name)) ∨
    (∃ text, cs = text ++ rest ∧ SuffixText text s) := by
  constructor
  · intro h
    unfold readFirst at h
    split at h
    · rename_i hopens
      obtain ⟨ds, rfl⟩ := opensIndex_eq_true hopens
      exact .inr (readSuffix_eq_ok.mp h)
    · exact .inl (readField_eq_ok.mp h)
  · rintro (hfield | ⟨text, rfl, htext⟩)
    · obtain ⟨name, hne, hname, -⟩ := id hfield
      rw [readFirst, hname.opensIndex_eq_false hne]
      exact readField_eq_ok.mpr hfield
    · rw [readFirst, htext.opensIndex_append, if_pos rfl]
      obtain ⟨c, more, rfl, -, hread⟩ := htext.readSuffix_append rest
      exact hread

theorem readSteps_eq_ok (stop : Nat) {cs : List Char} {ss : List Segment} :
    (readSteps stop cs).map (List.map Step.segment) = .ok ss ↔ PathText cs ss := by
  constructor
  · intro h
    unfold readSteps at h
    split at h
    · simp [Except.map] at h
    · rename_i s rest hfirst
      obtain ⟨ss, htail, rfl⟩ := map_steps_eq_ok.mp h
      rcases readFirst_eq_ok.mp hfirst with ⟨name, hne, hname, rfl⟩ | ⟨text, rfl, htext⟩
      · exact .field hne hname (readTail_eq_ok.mp htail)
      · exact .suffix htext (readTail_eq_ok.mp htail)
  · intro h
    cases h with
    | field hne hname htail =>
      rw [readSteps, readFirst_eq_ok.mpr (.inl ⟨_, hne, hname, rfl⟩)]
      exact map_steps_eq_ok.mpr ⟨_, readTail_eq_ok.mpr htail, rfl⟩
    | suffix htext htail =>
      rw [readSteps, readFirst_eq_ok.mpr (.inr ⟨_, rfl, htext⟩)]
      exact map_steps_eq_ok.mpr ⟨_, readTail_eq_ok.mpr htail, rfl⟩

/-- A path that has a text has segments. -/
theorem PathText.ne_nil {cs : List Char} {ss : List Segment} (h : PathText cs ss) : cs ≠ [] := by
  cases h with
  | field hne hname _ =>
    rintro rfl
    cases hname
    exact hne rfl
  | suffix htext _ =>
    obtain ⟨c, more, rfl, -⟩ := htext.readSuffix_append []
    simp

/-- The empty path is the path of a blank text, any other that of its text without the blanks around
it. -/
theorem Path.parse_eq_ok {text : String} {ss : List Segment} :
    (Path.parse text).map Path.segments = .ok ss ↔
      (Text.trim text.toList = [] ∧ ss = []) ∨ PathText (Text.trim text.toList) ss := by
  unfold Path.parse
  by_cases hblank : Text.trim text.toList = []
  · have hno : ¬ PathText (Text.trim text.toList) ss := fun h => h.ne_nil hblank
    simp only [hblank, if_true, true_and]
    rw [← hblank, or_iff_left hno, eq_comm (b := [])]
    exact ⟨Except.ok.inj, congrArg Except.ok⟩
  · simp only [hblank, if_false, false_and, false_or]
    rw [← readSteps_eq_ok (Text.byteLength (Text.trimEnd text.toList))]
    cases readSteps (Text.byteLength (Text.trimEnd text.toList)) (Text.trim text.toList) with
    | error stop => simp [Except.map]
    | ok steps => simp [Except.map, Path.segments]

end Crosswalk
