import Crosswalk.Decimal.Layout
import Crosswalk.Decimal.Reading
import Crosswalk.Proofs.Decimal.Digits
import Crosswalk.Proofs.Decimal.Shortest
import Mathlib.Data.List.TakeWhile

/-!
# Reading positional text

Digits that are set without an exponent part are read as the decimal that they were set for. Zeros
that fill the places up to the point make no other number, and a point tells a decimal from an
integer.

* `ofChars?_point`, `ofChars?_whole`: digits with and without a point.
* `readBack_positionalChars`: what is read from the digits of a decimal around a point.
* `Binary64.ofText?_text`: the text of a finite number is read as the number.
* `Binary64.intOfChars?_text`: the text of a whole number is that of an integer, and no other is.
-/

namespace Crosswalk

namespace Decimal

/-! ## Runs of digits -/

section Runs

variable {cs whole places : List Char} {n : Nat}

theorem readDigits_zeros (n k : Nat) : readDigits n (List.replicate k '0') = n * 10 ^ k := by
  induction k generalizing n with
  | zero => exact (Nat.mul_one n).symm
  | succ k ih =>
    have hzero : digitValue? '0' = some 0 := by decide
    rw [List.replicate_succ, readDigits, List.foldl_cons, hzero]
    exact (ih (n * 10 + 0)).trans (by rw [Nat.add_zero, Nat.pow_succ, Nat.mul_assoc,
      Nat.mul_comm 10])

theorem isDigit_of_mem_zeros {c : Char} {k : Nat} (h : c ∈ List.replicate k '0') :
    isDigit c = true := by
  obtain rfl := List.eq_of_mem_replicate h
  decide

theorem takeWhile_append_point (h : ∀ c ∈ whole, isDigit c = true) (rest : List Char) :
    (whole ++ '.' :: rest).takeWhile isDigit = whole ∧
      (whole ++ '.' :: rest).dropWhile isDigit = '.' :: rest := by
  rw [List.takeWhile_append_of_pos h, List.dropWhile_append_of_pos h]
  have hpoint : isDigit '.' = false := by decide
  exact ⟨by simp [hpoint], by simp [hpoint]⟩

theorem takeWhile_digits (h : ∀ c ∈ cs, isDigit c = true) :
    cs.takeWhile isDigit = cs ∧ cs.dropWhile isDigit = [] :=
  ⟨List.takeWhile_eq_self_iff.mpr h, List.dropWhile_eq_nil_iff.mpr h⟩

/-- Digits with a point between them. -/
theorem ofChars?_point (hwhole : ∀ c ∈ whole, isDigit c = true)
    (hplaces : ∀ c ∈ places, isDigit c = true) (hne : whole ≠ []) :
    ofChars? (whole ++ '.' :: places)
      = some ⟨readDigits 0 (whole ++ places), -(places.length : Int)⟩ := by
  obtain ⟨htake, hdrop⟩ := takeWhile_append_point hwhole places
  obtain ⟨htake', hdrop'⟩ := takeWhile_digits hplaces
  unfold ofChars?
  simp only [htake, hdrop, htake', hdrop', hne, false_and, ↓reduceIte, exponentOfChars?,
    Option.map_some, Int.zero_sub]

/-- Digits alone. -/
theorem ofChars?_whole (h : ∀ c ∈ whole, isDigit c = true) (hne : whole ≠ []) :
    ofChars? whole = some ⟨readDigits 0 whole, 0⟩ := by
  obtain ⟨htake, hdrop⟩ := takeWhile_digits h
  unfold ofChars?
  simp only [htake, hdrop, hne, false_and, ↓reduceIte, exponentOfChars?, Option.map_some,
    List.append_nil, List.length_nil]
  rfl

theorem natOfChars?_point : natOfChars? (whole ++ '.' :: places) = none := by
  refine if_neg fun h => ?_
  have hpoint := List.all_eq_true.mp h.2 '.' (by simp)
  exact absurd hpoint (by decide)

theorem natOfChars?_whole (h : ∀ c ∈ whole, isDigit c = true) (hne : whole ≠ []) :
    natOfChars? whole = some (readDigits 0 whole) :=
  if_pos ⟨hne, List.all_eq_true.mpr h⟩

/-- A digit is no sign. -/
theorem splitSign_of_digit {c : Char} (h : isDigit c = true) :
    splitSign (c :: cs) = (false, c :: cs) := by
  unfold splitSign
  split
  · next heq => exact absurd ((List.cons.inj heq).1 ▸ h) (by decide)
  · next heq => exact absurd ((List.cons.inj heq).1 ▸ h) (by decide)
  · rfl

end Runs

/-! ## Digits around a point -/

/-- A decimal without places behind the point, at the units. -/
def atUnits (d : Decimal) : Decimal := if d.exponent < 0 then d else ⟨d.num, 0⟩

/-- What is read from the digits of a decimal around a point, and what the first of them is. -/
structure ReadBack (d : Decimal) (cs : List Char) : Prop where
  decimal : ofChars? cs = some d.atUnits
  natural : natOfChars? cs = if d.exponent < 0 then none else some d.num
  head : ∃ c rest, cs = c :: rest ∧ isDigit c = true

section Around

variable {d : Decimal} {whole places : List Char}

theorem ReadBack.of_point (hwhole : ∀ c ∈ whole, isDigit c = true)
    (hplaces : ∀ c ∈ places, isDigit c = true) (hne : whole ≠ []) (hneg : d.exponent < 0)
    (hexponent : -(places.length : Int) = d.exponent)
    (hread : readDigits 0 (whole ++ places) = d.coefficient) :
    ReadBack d (whole ++ '.' :: places) where
  decimal := by rw [ofChars?_point hwhole hplaces hne, hread, hexponent, atUnits, if_pos hneg]
  natural := by rw [natOfChars?_point, if_pos hneg]
  head := by
    obtain ⟨c, rest, rfl⟩ := List.exists_cons_of_ne_nil hne
    exact ⟨c, rest ++ '.' :: places, rfl, hwhole c List.mem_cons_self⟩

theorem ReadBack.of_digits (h : ∀ c ∈ whole, isDigit c = true) (hne : whole ≠ [])
    (hexponent : 0 ≤ d.exponent) (hread : readDigits 0 whole = d.num) : ReadBack d whole where
  decimal := by rw [ofChars?_whole h hne, hread, atUnits, if_neg (Int.not_lt.mpr hexponent)]
  natural := by rw [natOfChars?_whole h hne, hread, if_neg (Int.not_lt.mpr hexponent)]
  head := by
    obtain ⟨c, rest, rfl⟩ := List.exists_cons_of_ne_nil hne
    exact ⟨c, rest, rfl, h c List.mem_cons_self⟩

theorem readBack_positionalChars (d : Decimal) :
    ReadBack d (positionalChars false (digits d.coefficient) d.exponent) := by
  have hdigits : ∀ c ∈ digits d.coefficient, isDigit c = true := fun _ => isDigit_of_mem_digits
  have hne := digits_ne_nil d.coefficient
  have hread := readDigits_digits d.coefficient
  generalize digits d.coefficient = ds at *
  have hlength : 0 < ds.length := List.length_pos_iff.mpr hne
  unfold positionalChars
  dsimp only
  split
  · -- All digits stand behind the point, and zeros between them and the point.
    next hpoint =>
    have hall : ∀ c ∈ List.replicate (-(d.exponent + ds.length)).toNat '0' ++ ds,
        isDigit c = true := by
      intro c hc
      rcases List.mem_append.mp hc with hc | hc
      · exact isDigit_of_mem_zeros hc
      · exact hdigits c hc
    have hzero : ∀ c ∈ ['0'], isDigit c = true := List.forall_mem_singleton.mpr (by decide)
    refine ReadBack.of_point hzero hall (List.cons_ne_nil _ _) (by omega) ?_ ?_
    · rw [List.length_append, List.length_replicate]
      omega
    · rw [← List.append_assoc, readDigits_append, ← List.replicate_one,
        List.replicate_append_replicate, readDigits_zeros, Nat.zero_mul, hread]
  split
  · -- All digits stand before the point, and zeros between them and the point.
    next hpoint =>
    have hall : ∀ c ∈ ds ++ List.replicate d.exponent.toNat '0', isDigit c = true := by
      intro c hc
      rcases List.mem_append.mp hc with hc | hc
      · exact hdigits c hc
      · exact isDigit_of_mem_zeros hc
    rw [if_neg Bool.false_ne_true, List.append_nil]
    refine ReadBack.of_digits hall (by simp [hne]) (by omega) ?_
    rw [readDigits_append, hread, readDigits_zeros]
    rfl
  · -- The point stands between two digits.
    next hbefore hbehind =>
    refine ReadBack.of_point (fun c hc => hdigits c (List.mem_of_mem_take hc))
      (fun c hc => hdigits c (List.mem_of_mem_drop hc)) ?_ (by omega) ?_ ?_
    · rw [Ne, List.take_eq_nil_iff, not_or]
      exact ⟨by omega, hne⟩
    · rw [List.length_drop]
      omega
    · rw [List.take_append_drop, hread]

end Around

/-! ## Texts of numbers -/

/-- The units of a decimal without places behind the point lie in the same interval. -/
theorem Within.atUnits {x : Binary64} {d : Decimal} (h : Within x d) : Within x d.atUnits := by
  unfold Decimal.atUnits
  split
  · exact h
  · next hexponent =>
    have hunits : d.num * unitNum 0 = d.coefficient * unitNum d.exponent := by
      rw [unitNum_of_nonpos (Int.le_refl 0), num, unitNum]
      generalize Binary64.one = n
      ring
    rw [within_mk, hunits, unitDen_of_nonneg (Int.le_refl 0)]
    have hwithin : (Interval.ofBinary64 x).holds (d.coefficient * unitNum d.exponent)
        (unitDen d.exponent) = true := h
    rwa [unitDen_of_nonneg (by omega)] at hwithin

theorem toBinary64_atUnits {x : Binary64} (tie : Tie) (hx : x.isFinite) :
    (ofBinary64 tie x).atUnits.toBinary64 x.isNegative = x := by
  rcases Nat.eq_zero_or_pos x.grains with hzero | hpos
  · have hdecimal := toBinary64_ofBinary64 tie hx
    rw [ofBinary64, if_pos hzero] at hdecimal ⊢
    exact hdecimal
  · refine toBinary64_of_within hx (within_ofBinary64 tie hpos).atUnits hpos ?_
    have hexponent := exponent_ofBinary64_le tie hx
    unfold Decimal.atUnits
    split
    · exact hexponent
    · exact Int.ofNat_le.mpr (Nat.zero_le 400)

/-- The integer that stands in the text of a whole number. -/
def signedNum (tie : Tie) (x : Binary64) : Int :=
  if x.isNegative then -((ofBinary64 tie x).num : Int) else (ofBinary64 tie x).num

theorem splitSign_signChars {cs : List Char} (x : Binary64)
    (h : ∃ c rest, cs = c :: rest ∧ isDigit c = true) :
    splitSign (x.signChars ++ cs) = (x.isNegative, cs) := by
  obtain ⟨c, rest, rfl, hc⟩ := h
  unfold Binary64.signChars
  cases x.isNegative with
  | true => rfl
  | false => exact splitSign_of_digit hc

end Decimal

namespace Binary64

open Decimal

variable {l : Layout} {x : Binary64}

/-- Without a range for positional text there is no other. -/
theorem text_eq (hx : x.isFinite) (hrange : l.positional = none) (hpoint : l.keepsPoint = false) :
    (x.text l).toList = x.signChars ++ positionalChars false
      (digits (ofBinary64 l.tie x).coefficient) (ofBinary64 l.tie x).exponent := by
  rw [text, if_pos hx, String.toList_ofList, finiteChars, Layout.chars]
  simp only [hrange, hpoint, ↓reduceIte]

/-- The text of a finite number without an exponent part is read as the number. -/
theorem ofText?_text (hx : x.isFinite) (hrange : l.positional = none)
    (hpoint : l.keepsPoint = false) : ofText? (x.text l) = some x := by
  have hread := readBack_positionalChars (ofBinary64 l.tie x)
  rw [ofText?, text_eq hx hrange hpoint, splitSign_signChars x hread.head]
  dsimp only
  rw [ofUnsignedChars?, hread.decimal]
  exact congrArg some (toBinary64_atUnits l.tie hx)

/-- The text of a whole number is that of an integer, and no other text is. -/
theorem intOfChars?_text (hx : x.isFinite) (hrange : l.positional = none)
    (hpoint : l.keepsPoint = false) : intOfChars? (x.text l).toList
      = if one ∣ x.grains then some (signedNum l.tie x) else none := by
  have hread := readBack_positionalChars (ofBinary64 l.tie x)
  rw [intOfChars?, text_eq hx hrange hpoint, splitSign_signChars x hread.head]
  dsimp only
  rw [hread.natural]
  by_cases hwhole : one ∣ x.grains
  · rw [if_neg (Int.not_lt.mpr (exponent_nonneg_of_dvd hwhole)), if_pos hwhole]
    rfl
  · have hneg : (ofBinary64 l.tie x).exponent < 0 :=
      Int.not_le.mp fun h => hwhole (exponent_nonneg_iff.mp h)
    rw [if_pos hneg, if_neg hwhole]
    rfl

end Binary64

end Crosswalk
