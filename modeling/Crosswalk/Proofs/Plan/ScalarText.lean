import Crosswalk.Plan.Converter
import Crosswalk.Proofs.Decimal.Positional

/-!
# Scalars and their texts

The kind of a scalar is guessed from its text, an integer first, then a binary64 number, then a
truth value. Integers and truth values come back from their texts as they were. A finite binary64
number comes back unless its text is that of an integer of 64 bits, which is so for the whole
numbers below `2 ^ 63`: they come back as integers, each of which is rounded to the number it came
from.

* `Decimal.int64OfText?_ofIntText`: an integer and its text.
* `Binary64.int64OfText?_text`: which texts of binary64 numbers are read as integers.
* `Converter.scalars_come_back`: scalars of all kinds through their texts.
-/

namespace Crosswalk

open Value

namespace Decimal

/-! ## Integers -/

theorem intOfChars?_intDigits (n : Int) : intOfChars? (intDigits n) = some n := by
  have hread : natOfChars? (digits n.natAbs) = some n.natAbs := by
    rw [natOfChars?_whole (fun _ => isDigit_of_mem_digits) (digits_ne_nil _), readDigits_digits]
  by_cases hneg : n < 0
  · rw [intOfChars?, intDigits, if_pos hneg, splitSign]
    dsimp only
    rw [hread]
    exact congrArg some (show -(n.natAbs : Int) = n by omega)
  · obtain ⟨c, rest, hdigits⟩ := List.exists_cons_of_ne_nil (digits_ne_nil n.natAbs)
    have hc : isDigit c = true := isDigit_of_mem_digits (hdigits ▸ List.mem_cons_self)
    have hsign : splitSign (digits n.natAbs) = (false, digits n.natAbs) := by
      rw [hdigits]
      exact splitSign_of_digit hc
    rw [intOfChars?, intDigits, if_neg hneg, hsign]
    dsimp only
    rw [hread]
    exact congrArg some (show (n.natAbs : Int) = n by omega)

theorem int64OfText?_ofIntText (n : Int64) : int64OfText? (ofIntText n.toInt) = some n := by
  have hrange : -(Nat.pow 2 63) ≤ n.toInt ∧ n.toInt < Nat.pow 2 63 := ⟨n.le_toInt, n.toInt_lt⟩
  rw [int64OfText?, ofIntText, String.toList_ofList, intOfChars?_intDigits]
  dsimp only
  rw [if_pos hrange, Int64.ofInt_toInt]

/-! ## Numbers -/

/-- A natural number at the units is rounded as a ratio. -/
theorem toBinary64_units (negative : Bool) (n : Nat) :
    (⟨n, 0⟩ : Decimal).toBinary64 negative = Binary64.ofRatio negative n 1 := by
  by_cases hzero : n = 0
  · subst hzero
    cases negative <;> decide +kernel
  · have hnum : (⟨n, 0⟩ : Decimal).num = n := Nat.mul_one n
    have hmost : ¬ (400 : Int) < 0 := by decide
    have hleast : ¬ (0 : Int) + (Nat.log2 n / 3 + 1 : Nat) < -400 := by omega
    rw [toBinary64, if_neg hzero, if_neg hmost, if_neg hleast, hnum]
    rfl

theorem natAbs_signedNum (tie : Tie) (x : Binary64) :
    (signedNum tie x).natAbs = (ofBinary64 tie x).num := by
  unfold signedNum
  split <;> omega

/-- The integer in the text of a whole number is rounded to the number. -/
theorem ofRatio_signedNum {x : Binary64} (tie : Tie) (hx : x.isFinite)
    (h : Binary64.one ∣ x.grains) :
    Binary64.ofRatio x.isNegative (signedNum tie x).natAbs 1 = x := by
  have hback := toBinary64_atUnits tie hx
  rwa [atUnits, if_neg (Int.not_lt.mpr (exponent_nonneg_of_dvd h)), toBinary64_units,
    ← natAbs_signedNum] at hback

/-- The integer in the text of a whole number has 64 bits exactly if the number is below
`2 ^ 63`. -/
theorem signedNum_range {x : Binary64} (h : Binary64.one ∣ x.grains) :
    -(Nat.pow 2 63) ≤ signedNum .up x ∧ signedNum .up x < Nat.pow 2 63 ↔ x.wholePart < 2 ^ 63 := by
  have hbelow := num_lt_of_wholePart .up h
  have habove := lt_num_of_wholePart h
  simp only [signedNum, Nat.pow_eq]
  generalize (ofBinary64 .up x).num = n at *
  generalize x.wholePart = whole at *
  split <;> constructor <;> omega

end Decimal

namespace Binary64

open Decimal

variable {l : Layout} {x : Binary64}

theorem isIntegral_iff (hx : x.isFinite) : x.isIntegral = true ↔ one ∣ x.grains := by
  rw [isIntegral, hx, Bool.true_and, beq_iff_eq]
  exact (Nat.dvd_iff_mod_eq_zero).symm

/-- The text of a finite number is read as an integer exactly if the number is a whole one below
`2 ^ 63`. -/
theorem int64OfText?_text (hx : x.isFinite) (htie : l.tie = .up) (hrange : l.positional = none)
    (hpoint : l.keepsPoint = false) : int64OfText? (x.text l)
      = if x.isIntegral ∧ x.wholePart < 2 ^ 63 then some (Int64.ofInt (signedNum .up x))
        else none := by
  rw [int64OfText?, intOfChars?_text hx hrange hpoint, htie]
  by_cases hwhole : one ∣ x.grains
  · have hfits := signedNum_range hwhole
    rw [if_pos hwhole]
    dsimp only
    simp only [hfits, (isIntegral_iff hx).mpr hwhole, true_and]
  · rw [if_neg hwhole, if_neg fun h => hwhole ((isIntegral_iff hx).mp h.1)]

end Binary64

/-! ## All kinds of scalars -/

namespace Value

/-- An integer, a truth value or a finite binary64 number. -/
def IsScalar : Value → Prop
  | .int _ | .bool _ => True
  | .float x => x.isFinite
  | _ => False

/-- A whole binary64 number below `2 ^ 63`. -/
def IsWholeFloat : Value → Prop
  | .float x => x.isIntegral ∧ x.wholePart < 2 ^ 63
  | _ => False

end Value

namespace Converter

open Decimal

variable {x : Binary64}

theorem scalarOfText_int (n : Int64) : scalarOfText (ofIntText n.toInt) = .int n := by
  rw [scalarOfText, int64OfText?_ofIntText]

/-- The words for truth values are not read as numbers. -/
theorem scalarOfText_bool (b : Bool) : scalarOfText (boolText b) = .bool b := by
  have hint : int64OfText? (boolText b) = none := by cases b <;> decide +kernel
  have hfloat : Binary64.ofText? (boolText b) = none := by cases b <;> decide +kernel
  rw [scalarOfText, hint, hfloat]
  cases b <;> rfl

theorem scalarOfText_of_whole (hx : x.isFinite) (h : IsWholeFloat (.float x)) :
    scalarOfText (x.text plainNumber) = .int (Int64.ofInt (signedNum .up x)) := by
  have hint : int64OfText? (x.text plainNumber) = some (Int64.ofInt (signedNum .up x)) :=
    (Binary64.int64OfText?_text hx rfl rfl rfl).trans (if_pos h)
  rw [scalarOfText, hint]

theorem scalarOfText_of_not_whole (hx : x.isFinite) (h : ¬ IsWholeFloat (.float x)) :
    scalarOfText (x.text plainNumber) = .float x := by
  have hint : int64OfText? (x.text plainNumber) = none :=
    (Binary64.int64OfText?_text hx rfl rfl rfl).trans (if_neg h)
  rw [scalarOfText, hint, Binary64.ofText?_text hx rfl rfl]

/-- The integer that a whole number becomes is rounded to the number and has its sign. -/
theorem signedNum_of_whole (hx : x.isFinite) (h : IsWholeFloat (.float x)) :
    Binary64.ofRatio x.isNegative (Int64.ofInt (signedNum .up x)).toInt.natAbs 1 = x ∧
      if x.isNegative then Int64.ofInt (signedNum .up x) ≤ 0
      else 0 ≤ Int64.ofInt (signedNum .up x) := by
  have hdvd := (Binary64.isIntegral_iff hx).mp h.1
  obtain ⟨hlow, hhigh⟩ := (signedNum_range hdvd).mpr h.2
  have hword : (Int64.ofInt (signedNum .up x)).toInt = signedNum .up x :=
    Int64.toInt_ofInt_of_le hlow hhigh
  refine ⟨?_, ?_⟩
  · rw [hword]
    exact ofRatio_signedNum .up hx hdvd
  · rw [Int64.le_iff_toInt_le, Int64.le_iff_toInt_le, hword, Int64.toInt_zero, signedNum]
    cases x.isNegative with
    | true => exact Int.neg_nonpos_of_nonneg (Int.natCast_nonneg _)
    | false => exact Int.natCast_nonneg _

/-- Every scalar has a text. It is read as the scalar unless that is a whole binary64 number below
`2 ^ 63`: then it is read as an integer of the same sign that is rounded to the number. -/
theorem scalars_come_back {v : Value} (h : v.IsScalar) :
    ∃ s, scalarText.apply .toRight v = .ok (.string s) ∧
      (scalarText.apply .toLeft (.string s) = .ok v ↔ ¬ v.IsWholeFloat) ∧
      ∀ x, v = .float x → v.IsWholeFloat →
        ∃ n, scalarText.apply .toLeft (.string s) = .ok (.int n) ∧
          Binary64.ofRatio x.isNegative n.toInt.natAbs 1 = x ∧
          if x.isNegative then n ≤ 0 else 0 ≤ n := by
  have hleft (s : String) : scalarText.apply .toLeft (.string s) = .ok (scalarOfText s) := rfl
  cases v with
  | int n =>
    refine ⟨ofIntText n.toInt, rfl, ?_, fun _ hv => by cases hv⟩
    simp [hleft, scalarOfText_int, IsWholeFloat]
  | bool b =>
    refine ⟨boolText b, rfl, ?_, fun _ hv => by cases hv⟩
    simp [hleft, scalarOfText_bool, IsWholeFloat]
  | float x =>
    have hx : x.isFinite := h
    refine ⟨x.text plainNumber, rfl, ?_, ?_⟩
    · by_cases hwhole : IsWholeFloat (.float x)
      · simp [hleft, scalarOfText_of_whole hx hwhole, hwhole]
      · simp [hleft, scalarOfText_of_not_whole hx hwhole, hwhole]
    · rintro _ ⟨⟩ hwhole
      refine ⟨Int64.ofInt (signedNum .up x), ?_, signedNum_of_whole hx hwhole⟩
      rw [hleft, scalarOfText_of_whole hx hwhole]
  | undefined | null | string _ | array _ | map _ => exact h.elim

/-- Two, a whole number. -/
def two : Binary64 := ⟨0x4000000000000000⟩

theorem isFinite_two : two.isFinite := by decide

theorem isWholeFloat_two : IsWholeFloat (.float two) := by
  refine ⟨?_, ?_⟩ <;> decide +kernel

/-- Two does not come back from its text. An integer that is rounded to two does. -/
theorem scalars_come_back_two : IsScalar (.float two) ∧ IsWholeFloat (.float two) ∧
    ∃ s, scalarText.apply .toRight (.float two) = .ok (.string s) ∧
      scalarText.apply .toLeft (.string s) ≠ .ok (.float two) ∧
      ∃ n, scalarText.apply .toLeft (.string s) = .ok (.int n) ∧
        Binary64.ofRatio false n.toInt.natAbs 1 = two ∧ 0 ≤ n := by
  obtain ⟨s, htext, hback, hint⟩ := scalars_come_back (v := .float two) isFinite_two
  exact ⟨isFinite_two, isWholeFloat_two, s, htext, fun heq => hback.mp heq isWholeFloat_two,
    hint two rfl isWholeFloat_two⟩

/-- A scalar does not always come back from its text as it was. -/
theorem not_scalars_come_back : ¬ ∀ v : Value, v.IsScalar →
    ∃ s, scalarText.apply .toRight v = .ok (.string s) ∧
      scalarText.apply .toLeft (.string s) = .ok v := by
  intro hall
  obtain ⟨s, htext, hback⟩ := hall (.float two) isFinite_two
  obtain rfl : two.text plainNumber = s := Value.string.inj (Except.ok.inj htext)
  have hread : scalarOfText (two.text plainNumber) = .float two := Except.ok.inj hback
  rw [scalarOfText_of_whole isFinite_two isWholeFloat_two] at hread
  cases hread

end Converter

end Crosswalk
