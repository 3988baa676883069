import Crosswalk.Proofs.Path.Grammar
import Crosswalk.Proofs.Text.Blank
import Mathlib.Data.List.Chain

/-!
# Written forms read back

When the written form of segments is read as those segments again.

* `SuffixText.chars`, `NameText.escapeName`: the written forms of single segments are in the
  grammar.
* `PathText.renderChars`: so is that of a path whose dots are not taken for parts of names.
* `startsBlank_renderChars`, `endsBlank_renderChars`: blanks around a path are blanks of its names.
* `Rereadable`: what segments need to be read back.
* `Path.parse_render_iff`: they need all of it, and nothing else.
-/

namespace Crosswalk

open Decimal Text

/-! ## Numbers -/

theorem numberText_digits {n : Nat} (h : n ≤ maxInteger) : NumberText (digits n) n where
  ne_nil := digits_ne_nil n
  digits _ := isDigit_of_mem_digits
  value := readDigits_digits n
  inRange := h

theorem integerText_intDigits {i : Int} (h : i.natAbs ≤ maxInteger) :
    IntegerText (intDigits i) i := by
  by_cases hneg : i < 0
  · obtain ⟨n, rfl⟩ : ∃ n : Nat, i = -n := ⟨i.natAbs, by omega⟩
    rw [intDigits, if_pos hneg, Int.natAbs_neg, Int.natAbs_natCast]
    exact .minus (numberText_digits (by simpa using h))
  · obtain ⟨n, rfl⟩ : ∃ n : Nat, i = n := ⟨i.natAbs, by omega⟩
    rw [intDigits, if_neg hneg, Int.natAbs_natCast]
    exact .unsigned (numberText_digits h)

/-- The written form of an index or a slice within range is in the grammar. -/
theorem SuffixText.chars {s : Segment} (hs : s.isField = false) (h : s.InRange) :
    SuffixText s.chars s := by
  cases s with
  | field name => simp [Segment.isField] at hs
  | index i => exact .index (integerText_intDigits h)
  | slice s =>
    obtain ⟨start, size⟩ := s
    cases size with
    | none => exact .openSlice (integerText_intDigits h.1)
    | some size =>
      simpa [Segment.chars] using
        SuffixText.slice (integerText_intDigits h.1) (integerText_intDigits (h.2 size rfl))

/-! ## Names -/

/-- The brackets. -/
def isBracket (c : Char) : Bool := c = '[' || c = ']'

/-- The last bracket of a name. -/
def lastBracket? (name : List Char) : Option Char := (name.filter isBracket).getLast?

theorem lastBracket?_cons (c : Char) (name : List Char) : lastBracket? (c :: name)
    = (lastBracket? name).or (if isBracket c then some c else none) := by
  rw [lastBracket?, List.filter_cons]
  split
  · rw [List.getLast?_cons, lastBracket?]
    cases (name.filter isBracket).getLast? <;> rfl
  · rw [Option.or_none]
    rfl

/-- The last bracket decides whether dots belong to a name. -/
theorem foldl_dotsAfter (name : List Char) (b : Bool) :
    name.foldl dotsAfter b = ((lastBracket? name).map (decide <| · = '[')).getD b := by
  induction name generalizing b with
  | nil => rfl
  | cons c name ih =>
    rw [List.foldl_cons, ih, lastBracket?_cons]
    cases lastBracket? name with
    | some d => rfl
    | none =>
      by_cases hopen : c = '['
      · subst hopen
        rfl
      · by_cases hclose : c = ']'
        · subst hclose
          rfl
        · simp [dotsAfter, isBracket, hopen, hclose]

/-- A name behind whose escaped form it ends is read from that form. -/
theorem NameText.escapeName {b : Bool} {name rest : List Char}
    (h : NameEnds (name.foldl dotsAfter b) rest) :
    NameText b (escapeName name ++ rest) name rest := by
  induction name generalizing b with
  | nil => exact .stop h
  | cons c name ih =>
    by_cases hc : isSpecial c = true
    · simpa [Crosswalk.escapeName, hc] using NameText.escaped (ih h)
    · have hplain : c ≠ '\\' ∧ c ≠ '.' ∧ c ≠ '[' ∧ c ≠ ']' := by
        simpa [isSpecial, and_assoc] using hc
      obtain ⟨hslash, hdot, hopen, hclose⟩ := hplain
      have hsame : dotsAfter b c = b := by rw [dotsAfter, if_neg hopen, if_neg hclose]
      rw [List.foldl_cons, hsame] at h
      simpa [Crosswalk.escapeName, hc] using
        NameText.plain hslash hopen hclose (fun h => absurd h hdot) (ih h)

/-! ## Segments in a row -/

/-- A field behind this segment is told apart from it. -/
def Segment.Separable : Segment → Segment → Prop
  | .field name, .field _ => lastBracket? name.toList ≠ some '['
  | _, _ => True

theorem foldl_dotsAfter_false (name : List Char) :
    name.foldl dotsAfter false = false ↔ lastBracket? name ≠ some '[' := by
  rw [foldl_dotsAfter]
  cases lastBracket? name <;> simp

/-- A name ends where other segments begin, unless it takes their dot. -/
theorem TailText.nameEnds {b : Bool} {cs : List Char} {ss : List Segment} (h : TailText cs ss)
    (hb : ∀ s ∈ ss.head?, s.isField = true → b = false) : NameEnds b cs := by
  cases h with
  | nil => exact .nil
  | field _ _ _ => exact .dot _ (hb _ rfl rfl)
  | suffix htext _ =>
    obtain ⟨c, more, rfl, hclose, -⟩ := htext.readSuffix_append []
    exact .bracket _ (by simpa using hclose)

theorem Segment.Separable.closed {name : String} {s : Segment} (hs : s.isField = true)
    (h : Segment.Separable (.field name) s) : name.toList.foldl dotsAfter false = false := by
  cases s with
  | field other => exact (foldl_dotsAfter_false _).mpr h
  | index i => cases hs
  | slice s => cases hs

theorem toList_ne_nil {name : String} (h : Segment.field "" ≠ .field name) :
    name.toList ≠ [] := by
  intro hnil
  exact h (by rw [String.toList_eq_nil_iff.mp hnil])

section Written

variable {ss : List Segment} (named : .field "" ∉ ss) (inRange : ∀ s ∈ ss, s.InRange)
  (separable : ss.IsChain Segment.Separable)

include named inRange separable

theorem TailText.tailChars : TailText (tailChars ss) ss := by
  induction ss with
  | nil => exact .nil
  | cons s ss ih =>
    rw [List.mem_cons, not_or] at named
    rw [List.forall_mem_cons] at inRange
    rw [List.isChain_cons] at separable
    have htail := ih named.2 inRange.2 separable.2
    cases s with
    | field name =>
      have hne := toList_ne_nil named.1
      have hends := htail.nameEnds fun t ht hfield => (separable.1 t ht).closed hfield
      have := TailText.field hne (.escapeName hends) htail
      simpa [Crosswalk.tailChars, Segment.isField, Segment.chars] using this
    | index i => exact .suffix (.chars rfl inRange.1) htail
    | slice s => exact .suffix (.chars rfl inRange.1) htail

/-- The written form of a path is in the grammar. -/
theorem PathText.renderChars (hne : ss ≠ []) : PathText (renderChars ss) ss := by
  cases ss with
  | nil => exact absurd rfl hne
  | cons s ss =>
    have h := TailText.tailChars named inRange separable
    rw [Crosswalk.tailChars] at h
    rw [pathText_cons_iff, Crosswalk.renderChars]
    split <;> simp_all

end Written

/-! ## Segments of a text -/

theorem TailText.named {cs : List Char} {ss : List Segment} (h : TailText cs ss) :
    .field "" ∉ ss := by
  induction h with
  | nil => simp
  | field hne _ _ ih =>
    rw [List.mem_cons, not_or]
    refine ⟨fun h => hne ?_, ih⟩
    simpa using h.symm
  | suffix htext _ ih =>
    rw [List.mem_cons, not_or]
    refine ⟨?_, ih⟩
    rintro rfl
    cases htext

theorem TailText.inRange {cs : List Char} {ss : List Segment} (h : TailText cs ss) :
    ∀ s ∈ ss, s.InRange := by
  induction h with
  | nil => simp
  | field _ _ _ ih => exact List.forall_mem_cons.mpr ⟨trivial, ih⟩
  | suffix htext _ ih => exact List.forall_mem_cons.mpr ⟨htext.inRange, ih⟩

/-- A name that takes a dot behind it is not followed by a field. -/
theorem TailText.separable {cs : List Char} {ss : List Segment} (h : TailText cs ss) :
    ss.IsChain Segment.Separable := by
  induction h with
  | nil => exact .nil
  | @field _ name _ _ _ hname htail ih =>
    refine List.isChain_cons.mpr ⟨fun t ht => ?_, ih⟩
    cases htail with
    | nil => cases ht
    | field _ _ _ =>
      obtain rfl := Option.mem_some.mp ht
      have := hname.closed_of_dot id
      rw [foldl_dotsAfter_false] at this
      simpa [Segment.Separable] using this
    | suffix htext _ =>
      obtain rfl := Option.mem_some.mp ht
      cases htext <;> trivial
  | suffix htext _ ih =>
    refine List.isChain_cons.mpr ⟨fun t _ => ?_, ih⟩
    cases htext <;> trivial

/-- The name of a field; the other segments have none. -/
def Segment.name : Segment → List Char
  | field name => name.toList
  | _ => []

/-- The names of segments, one behind the other. -/
def names (ss : List Segment) : List Char := ss.flatMap Segment.name

/-- The names of a text have no more blanks than the text. -/
theorem TailText.countP_names_le {cs : List Char} {ss : List Segment} (h : TailText cs ss) :
    (names ss).countP isBlank ≤ cs.countP isBlank := by
  induction h with
  | nil => simp [names]
  | @field cs name rest ss _ hname _ ih =>
    have := hname.countP_le isBlank
    simp only [names, List.flatMap_cons, Segment.name, List.countP_append, List.countP_cons,
      String.toList_ofList] at ih ⊢
    omega
  | @suffix text rest s ss htext _ ih =>
    have hnone : names (s :: ss) = names ss := by cases htext <;> rfl
    rw [hnone, List.countP_append]
    omega

/-! ## Blanks -/

theorem isBlank_of_isSpecial {c : Char} (h : isSpecial c = true) : isBlank c = false := by
  simp only [isSpecial, Bool.or_eq_true, decide_eq_true_eq] at h
  rcases h with ((rfl | rfl) | rfl) | rfl <;> rfl

theorem isBlank_of_isDigit {c : Char} (h : isDigit c = true) : isBlank c = false := by
  unfold isDigit digitValue? at h
  split at h
  · rename_i hc
    have hlow : 48 ≤ c.toNat := hc.1
    have hhigh : c.toNat ≤ 57 := hc.2
    simp only [isBlank, Bool.or_eq_false_iff, Bool.and_eq_false_iff, decide_eq_false_iff_not,
      beq_eq_false_iff_ne]
    omega
  · cases h

theorem isBlank_intDigits {i : Int} {c : Char} (h : c ∈ intDigits i) : isBlank c = false := by
  unfold intDigits at h
  split at h
  · rcases List.mem_cons.mp h with rfl | h
    · rfl
    · exact isBlank_of_isDigit (isDigit_of_mem_digits h)
  · exact isBlank_of_isDigit (isDigit_of_mem_digits h)

@[simp] theorem countP_intDigits (i : Int) : (intDigits i).countP isBlank = 0 :=
  List.countP_eq_zero.mpr fun _ h => by simp [isBlank_intDigits h]

theorem countP_escapeName (name : List Char) :
    (escapeName name).countP isBlank = name.countP isBlank := by
  induction name with
  | nil => rfl
  | cons c name ih =>
    rw [escapeName, List.flatMap_cons, List.countP_append, List.countP_cons, ← escapeName, ih,
      Nat.add_comm]
    split
    · rename_i hc
      simp [isBlank_of_isSpecial hc, show isBlank '\\' = false from rfl]
    · simp

theorem Segment.countP_chars (s : Segment) : s.chars.countP isBlank = s.name.countP isBlank := by
  have hopen : isBlank '[' = false := rfl
  have hclose : isBlank ']' = false := rfl
  have hcomma : isBlank ',' = false := rfl
  cases s with
  | field name => exact countP_escapeName name.toList
  | index i => simp [chars, name, hopen, hclose]
  | slice s =>
    obtain ⟨start, size⟩ := s
    cases size <;> simp [chars, name, hopen, hclose, hcomma]

theorem countP_tailChars (ss : List Segment) :
    (tailChars ss).countP isBlank = (names ss).countP isBlank := by
  induction ss with
  | nil => rfl
  | cons s ss ih =>
    have hdot : isBlank '.' = false := rfl
    rw [tailChars, names, List.flatMap_cons, List.countP_append, List.countP_append, ih, names,
      ← s.countP_chars]
    split <;> simp [hdot]

/-- A written form has the blanks of its names. -/
theorem countP_renderChars (ss : List Segment) :
    (renderChars ss).countP isBlank = (names ss).countP isBlank := by
  cases ss with
  | nil => rfl
  | cons s ss =>
    rw [renderChars, List.countP_append, s.countP_chars, countP_tailChars, names, names,
      List.flatMap_cons, List.countP_append]

theorem startsBlank_tailChars (ss : List Segment) : startsBlank (tailChars ss) = false := by
  cases ss with
  | nil => rfl
  | cons s ss =>
    cases s with
    | field name => rfl
    | index i => rfl
    | slice s => obtain ⟨start, _ | size⟩ := s <;> rfl

/-- A written form begins with a blank if the name of its first segment does. -/
theorem startsBlank_renderChars (ss : List Segment) :
    startsBlank (renderChars ss) = ss.head?.any fun s => startsBlank s.name := by
  cases ss with
  | nil => rfl
  | cons s ss =>
    cases s with
    | field name =>
      simp only [renderChars, Segment.chars, Segment.name, List.head?_cons, Option.any_some]
      cases name.toList with
      | nil => exact startsBlank_tailChars ss
      | cons c cs =>
        simp only [escapeName, List.flatMap_cons]
        split
        · rename_i hc
          exact (isBlank_of_isSpecial hc).symm
        · rfl
    | index i => rfl
    | slice s => obtain ⟨start, _ | size⟩ := s <;> rfl

theorem endsBlank_append_escapeName {cs : List Char} (h : endsBlank cs = false)
    (name : List Char) : endsBlank (cs ++ escapeName name) = endsBlank name := by
  rcases List.eq_nil_or_concat name with rfl | ⟨init, c, rfl⟩
  · simpa [escapeName, endsBlank] using h
  · simp only [escapeName, List.concat_eq_append, List.flatMap_append, endsBlank]
    by_cases hc : isSpecial c = true <;> simp [hc, List.getLast?_append]

theorem endsBlank_append_chars {s : Segment} (hs : s.isField = false) (cs : List Char) :
    endsBlank (cs ++ s.chars) = false := by
  have hclose : isBlank ']' = false := rfl
  cases s with
  | field name => cases hs
  | index i => simp [Segment.chars, endsBlank, List.getLast?_append, List.getLast?_cons, hclose]
  | slice s =>
    obtain ⟨start, _ | size⟩ := s <;>
      simp [Segment.chars, endsBlank, List.getLast?_append, List.getLast?_cons, hclose]

theorem endsBlank_append_segment {cs : List Char} (h : endsBlank cs = false) (s : Segment) :
    endsBlank (cs ++ s.chars) = endsBlank s.name := by
  cases s with
  | field name => exact endsBlank_append_escapeName h name.toList
  | index i => exact endsBlank_append_chars rfl cs
  | slice s => exact endsBlank_append_chars rfl cs

theorem endsBlank_append_tailChars (cs : List Char) {ss : List Segment} (hne : ss ≠ []) :
    endsBlank (cs ++ tailChars ss) = ss.getLast?.any fun s => endsBlank s.name := by
  induction ss generalizing cs with
  | nil => exact absurd rfl hne
  | cons s ss ih =>
    cases ss with
    | cons t ss =>
      rw [tailChars, ← List.append_assoc, ih _ (by simp), List.getLast?_cons_cons]
    | nil =>
      rw [tailChars, tailChars, List.append_nil, List.getLast?_singleton, Option.any_some]
      split
      · have hdot : endsBlank (cs ++ ['.']) = false := by
          rw [endsBlank, List.getLast?_append]
          rfl
        rw [List.append_cons, endsBlank_append_segment hdot]
      · rename_i hs
        cases s with
        | field name => exact absurd rfl hs
        | index i => exact endsBlank_append_chars rfl cs
        | slice s => exact endsBlank_append_chars rfl cs

/-- A written form ends with a blank if the name of its last segment does. -/
theorem endsBlank_renderChars (ss : List Segment) :
    endsBlank (renderChars ss) = ss.getLast?.any fun s => endsBlank s.name := by
  cases ss with
  | nil => rfl
  | cons s ss =>
    cases ss with
    | nil =>
      rw [renderChars, tailChars, List.append_nil, List.getLast?_singleton, Option.any_some]
      rw [← List.nil_append s.chars]
      exact endsBlank_append_segment rfl s
    | cons t ss =>
      rw [renderChars, endsBlank_append_tailChars _ (by simp), List.getLast?_cons_cons]

/-! ## Reading written forms -/

/-- The segments that their written form stands for: every name has a character, every number is
within range, no name takes the dot behind it, and no blank stands at either end. -/
structure Rereadable (ss : List Segment) : Prop where
  named : .field "" ∉ ss
  inRange : ∀ s ∈ ss, s.InRange
  separable : ss.IsChain Segment.Separable
  starts : ∀ s ∈ ss.head?, startsBlank s.name = false
  ends : ∀ s ∈ ss.getLast?, endsBlank s.name = false

theorem Rereadable.trim_renderChars {ss : List Segment} (h : Rereadable ss) :
    trim (renderChars ss) = renderChars ss := by
  refine trim_eq_self ?_ ?_
  · rw [startsBlank_renderChars, Option.any_eq_false]
    exact h.starts
  · rw [endsBlank_renderChars, Option.any_eq_false]
    exact h.ends

/-- The segments of a text are rereadable if their written form keeps the blanks of the text. -/
theorem TailText.rereadable {cs : List Char} {ss : List Segment} (h : TailText cs ss)
    (hcs : cs.countP isBlank ≤ (trim (renderChars ss)).countP isBlank) : Rereadable ss := by
  have hle := h.countP_names_le
  rw [← countP_renderChars] at hle
  obtain ⟨hstarts, hends⟩ := ends_of_countP_le (Nat.le_trans hle hcs)
  rw [startsBlank_renderChars, Option.any_eq_false] at hstarts
  rw [endsBlank_renderChars, Option.any_eq_false] at hends
  exact ⟨h.named, h.inRange, h.separable, hstarts, hends⟩

/-- The written form of segments is read as those segments exactly where they are rereadable. -/
theorem Path.parse_render_iff (ss : List Segment) :
    (Path.parse (Path.ofSegments ss).render).map Path.segments = .ok ss ↔ Rereadable ss := by
  rw [Path.parse_eq_ok, Path.render, Path.segments_ofSegments, String.toList_ofList]
  constructor
  · intro h
    cases ss with
    | nil => exact ⟨by simp, by simp, .nil, by simp, by simp⟩
    | cons s ss =>
      rcases h with ⟨-, hnil⟩ | h
      · cases hnil
      · refine (pathText_cons_iff.mp h).rereadable ?_
        split <;> simp [show isBlank '.' = false from rfl]
  · intro h
    rw [h.trim_renderChars]
    cases ss with
    | nil => exact .inl ⟨rfl, rfl⟩
    | cons s ss => exact .inr (.renderChars h.named h.inRange h.separable (by simp))

end Crosswalk
