import Crosswalk.Proofs.Path.Grammar

/-!
# One character ahead

The readers of numbers, indices and slices look at the character behind what they take, and no
further. Behind that character the text can go on in any way: they take the same, or stop in the
same way.

* `LooksAhead`: the property, kept when readers are put together.
* `readNumber_eq_error`: a number is refused at the first digit that takes it out of range.
* `readInteger_looksAhead`, `readSuffix_looksAhead`: integers, and indices and slices.
-/

namespace Crosswalk

open Decimal

theorem head?_append_of_eq {read rest rest' : List Char} (h : rest'.head? = rest.head?) :
    (read ++ rest').head? = (read ++ rest).head? := by
  cases read with
  | nil => exact h
  | cons c read => rfl

/-- A reader looks at the character behind what it takes and no further: it takes the same, or stops
in the same way, if the text goes on differently behind that character. -/
structure LooksAhead {α : Type} (R : List Char → Read α) : Prop where
  ok {cs rest : List Char} {a : α} : R cs = .ok (a, rest) → ∃ read, cs = read ++ rest ∧
    ∀ rest', rest'.head? = rest.head? → R (read ++ rest') = .ok (a, rest')
  stop {cs rest : List Char} {p : PathProblem} : R cs = .error ⟨p, rest⟩ →
    ∃ read, cs = read ++ rest ∧
      ∀ rest', rest'.head? = rest.head? → R (read ++ rest') = .error ⟨p, rest'⟩

namespace LooksAhead

variable {α β : Type} {R : List Char → Read α}

/-- Taking nothing. -/
theorem pure (a : α) : LooksAhead fun cs => .ok (a, cs) where
  ok h := by
    obtain ⟨rfl, rfl⟩ := Prod.mk.inj (Except.ok.inj h)
    exact ⟨[], rfl, fun _ _ => rfl⟩
  stop h := by cases h

/-- Stopping at once. -/
theorem stopAt (what : Expectation) :
    LooksAhead fun cs => (.error (stopAt what cs) : Read α) where
  ok h := by cases h
  stop h := by
    obtain ⟨rfl, rfl⟩ := Stop.mk.inj (Except.error.inj h)
    refine ⟨[], rfl, fun rest' hhead => ?_⟩
    rw [List.nil_append, Crosswalk.stopAt, hhead]

/-- Reading on behind a character. -/
theorem tail (h : LooksAhead R) : LooksAhead fun cs => R cs.tail where
  ok {cs rest a} hok := by
    obtain ⟨read, hcs, hkeep⟩ := h.ok hok
    cases cs with
    | nil =>
      obtain ⟨rfl, rfl⟩ := List.append_eq_nil_iff.mp hcs.symm
      refine ⟨[], rfl, fun rest' hhead => ?_⟩
      obtain rfl : rest' = [] := by simpa using hhead
      exact hok
    | cons c cs =>
      obtain rfl : cs = read ++ rest := hcs
      exact ⟨c :: read, rfl, hkeep⟩
  stop {cs rest p} hstop := by
    obtain ⟨read, hcs, hkeep⟩ := h.stop hstop
    cases cs with
    | nil =>
      obtain ⟨rfl, rfl⟩ := List.append_eq_nil_iff.mp hcs.symm
      refine ⟨[], rfl, fun rest' hhead => ?_⟩
      obtain rfl : rest' = [] := by simpa using hhead
      exact hstop
    | cons c cs =>
      obtain rfl : cs = read ++ rest := hcs
      exact ⟨c :: read, rfl, hkeep⟩

/-- A choice by the first character. -/
theorem choose (choice : Option Char → List Char → Read α) (h : ∀ c, LooksAhead (choice c))
    (hR : ∀ cs, R cs = choice cs.head? cs) : LooksAhead R where
  ok {cs rest a} hok := by
    rw [hR] at hok
    obtain ⟨read, rfl, hkeep⟩ := (h _).ok hok
    refine ⟨read, rfl, fun rest' hhead => ?_⟩
    rw [hR, head?_append_of_eq hhead]
    exact hkeep rest' hhead
  stop {cs rest p} hstop := by
    rw [hR] at hstop
    obtain ⟨read, rfl, hkeep⟩ := (h _).stop hstop
    refine ⟨read, rfl, fun rest' hhead => ?_⟩
    rw [hR, head?_append_of_eq hhead]
    exact hkeep rest' hhead

/-- One reader behind another one. -/
theorem bind {S : α → List Char → Read β} (hR : LooksAhead R) (hS : ∀ a, LooksAhead (S a)) :
    LooksAhead fun cs => (R cs).bind fun r => S r.1 r.2 where
  ok {cs rest b} hok := by
    obtain ⟨⟨a, after⟩, hfirst, hsecond⟩ := bind_eq_ok.mp hok
    obtain ⟨read, rfl, hkeep⟩ := hR.ok hfirst
    obtain ⟨more, hafter, hkeep'⟩ := (hS a).ok hsecond
    obtain rfl : after = more ++ rest := hafter
    refine ⟨read ++ more, by rw [List.append_assoc], fun rest' hhead => ?_⟩
    simp only [List.append_assoc, hkeep _ (head?_append_of_eq hhead), Except.bind]
    exact hkeep' rest' hhead
  stop {cs rest p} hstop := by
    rcases bind_eq_error.mp hstop with hfirst | ⟨⟨a, after⟩, hfirst, hsecond⟩
    · obtain ⟨read, rfl, hkeep⟩ := hR.stop hfirst
      refine ⟨read, rfl, fun rest' hhead => ?_⟩
      simp only [hkeep rest' hhead, Except.bind]
    · obtain ⟨read, rfl, hkeep⟩ := hR.ok hfirst
      obtain ⟨more, hafter, hkeep'⟩ := (hS a).stop hsecond
      obtain rfl : after = more ++ rest := hafter
      refine ⟨read ++ more, by rw [List.append_assoc], fun rest' hhead => ?_⟩
      simp only [List.append_assoc, hkeep _ (head?_append_of_eq hhead), Except.bind]
      exact hkeep' rest' hhead

/-- What is made of a result plays no part. -/
theorem map (h : LooksAhead R) (f : α → β) :
    LooksAhead fun cs => (R cs).map fun r => (f r.1, r.2) := by
  have hbind := h.bind fun a => LooksAhead.pure (f a)
  convert hbind using 2 with cs
  cases R cs <;> rfl

/-- One given character before the rest. -/
theorem character (h : LooksAhead R) (c : Char) :
    LooksAhead fun cs => (readCharacter c cs).bind R := by
  refine choose (fun d => if d = some c then fun cs => R cs.tail
    else fun cs => .error (Crosswalk.stopAt (.character c) cs)) (fun d => ?_) fun cs => ?_
  · split
    · exact h.tail
    · exact stopAt _
  · cases cs with
    | nil => rfl
    | cons d ds =>
      by_cases hd : d = c <;> simp [readCharacter, hd, Except.bind]

end LooksAhead

/-! ## Numbers -/

/-- A number is refused at the first digit that takes it out of range. -/
theorem readNumber_eq_error {n : Nat} {cs : List Char} {e : Stop} (hn : n ≤ maxInteger) :
    readNumber n cs = .error e ↔ ∃ ds c more d, cs = ds ++ c :: more ∧
      (∀ x ∈ ds, isDigit x = true) ∧ readDigits n ds ≤ maxInteger ∧ digitValue? c = some d ∧
      maxInteger < readDigits n ds * 10 + d ∧ e = ⟨.integerTooLarge, c :: more⟩ := by
  constructor
  · intro h
    induction cs generalizing n with
    | nil => cases h
    | cons c cs ih =>
      cases hc : digitValue? c with
      | none => simp [readNumber, hc] at h
      | some d =>
        simp only [readNumber, hc] at h
        split at h
        · rename_i hlarge
          obtain rfl := Except.error.inj h
          exact ⟨[], c, cs, d, rfl, by simp, hn, hc, hlarge, rfl⟩
        · obtain ⟨ds, c', more, d', rfl, hds, hle, hc', hlarge, rfl⟩ := ih (by omega) h
          have hdigit : isDigit c = true := by simp [isDigit, hc]
          refine ⟨c :: ds, c', more, d', rfl, by simpa [hdigit] using hds, ?_, hc', ?_, rfl⟩
          · rwa [readDigits_cons hc]
          · rwa [readDigits_cons hc]
  · rintro ⟨ds, c, more, d, rfl, hds, hle, hc, hlarge, rfl⟩
    induction ds generalizing n with
    | nil =>
      rw [List.nil_append, readNumber, hc]
      exact if_pos hlarge
    | cons x ds ih =>
      obtain ⟨y, hx⟩ := Option.isSome_iff_exists.mp (hds x (by simp))
      rw [readDigits_cons hx] at hle hlarge
      have hfits := Nat.le_trans (le_readDigits _ ds) hle
      rw [List.cons_append, readNumber, hx]
      simp only [if_neg (Nat.not_lt.mpr hfits)]
      exact ih hfits (fun z hz => hds z (by simp [hz])) hle hlarge

theorem noDigit_of_head? {rest rest' : List Char} (h : rest'.head? = rest.head?)
    (hrest : NoDigit rest) : NoDigit rest' := by
  unfold NoDigit
  rwa [h]

theorem readNumber_looksAhead : LooksAhead (readNumber 0) where
  ok hok := by
    obtain ⟨ds, rfl, hds, hrest, hm, hle⟩ := (readNumber_eq_ok (Nat.zero_le _)).mp hok
    refine ⟨ds, rfl, fun rest' hhead => (readNumber_eq_ok (Nat.zero_le _)).mpr ?_⟩
    exact ⟨ds, rfl, hds, noDigit_of_head? hhead hrest, hm, hle⟩
  stop hstop := by
    obtain ⟨ds, c, more, d, rfl, hds, hle, hc, hlarge, he⟩ :=
      (readNumber_eq_error (Nat.zero_le _)).mp hstop
    obtain ⟨rfl, rfl⟩ := Stop.mk.inj he
    refine ⟨ds, rfl, fun rest' hhead => (readNumber_eq_error (Nat.zero_le _)).mpr ?_⟩
    obtain ⟨more', rfl⟩ := List.head?_eq_some_iff.mp hhead
    exact ⟨ds, c, more', d, rfl, hds, hle, hc, hlarge, rfl⟩

theorem readDigits1_looksAhead : LooksAhead readDigits1 := by
  refine .choose (fun c => if c.any isDigit then readNumber 0
    else fun cs => .error (stopAt .digit cs)) (fun c => ?_) fun cs => ?_
  · split
    · exact readNumber_looksAhead
    · exact .stopAt _
  · cases cs with
    | nil => rfl
    | cons c cs => by_cases hc : isDigit c <;> simp [readDigits1, hc]

theorem readInteger_looksAhead : LooksAhead readInteger := by
  have hdigits := readDigits1_looksAhead
  refine .choose (fun c =>
    if c = some '-' then fun cs => (readDigits1 cs.tail).map fun r => (-(r.1 : Int), r.2)
    else if c = some '+' then fun cs => (readDigits1 cs.tail).map fun r => ((r.1 : Int), r.2)
    else fun cs => (readDigits1 cs).map fun r => ((r.1 : Int), r.2)) (fun c => ?_) fun cs => ?_
  · split
    · exact hdigits.tail.map fun n => -(n : Int)
    · split
      · exact hdigits.tail.map fun n => (n : Int)
      · exact hdigits.map fun n => (n : Int)
  · unfold readInteger
    split
    · rfl
    · rfl
    · cases cs with
      | nil => rfl
      | cons c cs => simp_all

theorem readSize_looksAhead : LooksAhead readSize := by
  refine .choose (fun c =>
    if c = some ',' then fun cs => (readInteger cs.tail).map fun r => (some r.1, r.2)
    else if c = some ']' then fun cs => .ok (none, cs)
    else fun cs => .error (stopAt .sizeOrClose cs)) (fun c => ?_) fun cs => ?_
  · split
    · exact readInteger_looksAhead.tail.map _
    · split
      · exact .pure _
      · exact .stopAt _
  · unfold readSize
    split
    · rfl
    · rfl
    · cases cs with
      | nil => rfl
      | cons c cs => simp_all

theorem readSlice_looksAhead : LooksAhead readSlice := by
  have hclose : ∀ start size, LooksAhead fun cs => (readCharacter ']' cs).bind fun cs =>
      (readCharacter ']' cs).bind fun cs => .ok (Segment.slice ⟨start, size⟩, cs) :=
    fun start size => .character (.character (.pure _) ']') ']'
  exact readInteger_looksAhead.bind fun start => readSize_looksAhead.bind (hclose start)

theorem readIndexNumber_looksAhead : LooksAhead readIndexNumber := by
  have hclose : ∀ i, LooksAhead fun cs => (readCharacter ']' cs).bind fun cs =>
      .ok (Segment.index i, cs) := fun i => .character (.pure _) ']'
  exact readInteger_looksAhead.bind hclose

theorem readSuffix_looksAhead : LooksAhead readSuffix := by
  refine .choose (fun c => if c = some '[' then fun cs => readSlice cs.tail
    else readIndexNumber) (fun c => ?_) fun cs => ?_
  · split
    · exact readSlice_looksAhead.tail
    · exact readIndexNumber_looksAhead
  · unfold readSuffix
    split
    · rfl
    · cases cs with
      | nil => rfl
      | cons c cs => simp_all

end Crosswalk
