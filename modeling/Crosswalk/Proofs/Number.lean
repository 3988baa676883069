import Crosswalk.Number

/-!
# Numbers and their values

An integer of a value comes back from the number that is written for it, and a number that fits in
a value comes back from its value. A natural number beyond the signed words of 64 bits does not fit:
its value is a binary64 number, and a finite one.

* `Number.toValue_ofInt64`: the value of the number of an integer.
* `Binary64.isFinite_ofNat`: a natural number of 64 bits is far below the greatest binary64 number.
-/

namespace Crosswalk

/-! ## Integers -/

namespace Number

theorem toValue_ofInt64 (n : Int64) : (ofInt64 n).toValue = .int n := by
  unfold ofInt64
  split
  · rfl
  · next h =>
    have hlt := n.toInt_lt
    have hword : (UInt64.ofNat n.toInt.toNat).toNat = n.toInt.toNat := by
      rw [UInt64.toNat_ofNat']
      omega
    rw [toValue, hword, if_pos (by simp only [Nat.pow_eq]; omega), Int.toNat_of_nonneg (by omega),
      Int64.ofInt_toInt]

end Number

/-! ## Finite numbers -/

namespace Binary64

/-- A magnitude below that of the infinities is the magnitude of a finite number. -/
theorem isFinite_withSign (negative : Bool) {magnitude : Nat} (h : magnitude < infiniteMagnitude) :
    (withSign negative magnitude).isFinite := by
  simp only [infiniteMagnitude, Nat.pow_eq] at h
  simp only [isFinite, exponentField, withSign, UInt64.toNat_ofNat', Nat.pow_eq, bne_iff_ne, ne_eq]
  cases negative <;> simp <;> omega

theorem roundRatio_le (num den : Nat) : roundRatio num den ≤ num / den + 1 := by
  unfold roundRatio
  dsimp only
  split
  · omega
  · split <;> omega

/-- A ratio of less than `2 ^ 2097` grains is rounded to a finite number. -/
theorem magnitudeOfGrains_lt {num den e : Nat} (h : num / den < Nat.pow 2 e)
    (he : e ≤ 2097) : magnitudeOfGrains num den < infiniteMagnitude := by
  have hshift : (num / den).log2 - 52 ≤ 2044 := by
    by_cases hzero : num / den = 0
    · simp [hzero]
    · have := (Nat.log2_lt hzero).mpr h
      omega
  have hsignificand : num / den / 2 ^ ((num / den).log2 - 52) < 2 ^ 53 := by
    rw [Nat.div_lt_iff_lt_mul (Nat.two_pow_pos _), ← Nat.pow_add]
    exact Nat.lt_of_lt_of_le Nat.lt_log2_self (Nat.pow_le_pow_right (by omega) (by omega))
  have hround := roundRatio_le num (den * 2 ^ ((num / den).log2 - 52))
  rw [← Nat.div_div_eq_div_mul] at hround
  simp only [magnitudeOfGrains, infiniteMagnitude, Nat.pow_eq]
  omega

-- The exponent is bound, and not a numeral, so that nobody works the power out.
theorem exists_one_lt : ∃ e ≤ 1075, one < Nat.pow 2 e := ⟨1075, Nat.le_refl _, by decide +kernel⟩

/-- A natural number of 64 bits is far below the greatest finite number. -/
theorem isFinite_ofNat {n : Nat} (h : n < Nat.pow 2 64) : (ofNat n).isFinite := by
  obtain ⟨e, he, hone⟩ := exists_one_lt
  have hmul : n * one / 1 < Nat.pow 2 (64 + e) := by
    rw [Nat.div_one, Nat.pow_eq, Nat.pow_add]
    exact Nat.mul_lt_mul'' h hone
  exact isFinite_withSign false (magnitudeOfGrains_lt hmul (by omega))

end Binary64

end Crosswalk
