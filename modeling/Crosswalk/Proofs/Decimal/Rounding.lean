import Crosswalk.Decimal.Shortest
import Mathlib.Algebra.Group.Nat.Defs

/-!
# Rounding inside the interval of a number

A finite number is its sign and its significand at a place given by its shift. Every ratio in the
interval of the number is rounded to it: the significand is the nearest whole number of units of
that place, and the ends of the interval go to it where it is even. Below a power of two the units
are half as wide, and there a ratio is rounded up to twice the significand, one place lower.

* `eq_withSign`: the word of a number from its sign, its shift and its significand.
* `roundRatio_eq`: a ratio is rounded to a whole number that is within a half of it.
* `near_of_holds`: where a ratio in the interval of a number lies, in units of its last place.
* `Near.magnitudeOfGrains`: such a ratio is rounded to the magnitude of the number.
-/

namespace Crosswalk.Binary64

variable {x : Binary64}

/-! ## Fields -/

theorem fraction_lt (x : Binary64) : x.fraction < 2 ^ 52 := Nat.mod_lt _ (Nat.two_pow_pos 52)

theorem significand_lt (x : Binary64) : x.significand < 2 ^ 53 := by
  have := x.fraction_lt
  unfold significand
  simp only [Nat.pow_eq]
  split <;> omega

/-- A number whose unit is more than a grain has the hidden bit. -/
theorem le_significand (h : 0 < x.shift) : 2 ^ 52 ≤ x.significand := by
  unfold shift at h
  unfold significand
  rw [if_neg (by omega)]
  simp only [Nat.pow_eq]
  omega

theorem shift_le (h : x.isFinite) : x.shift ≤ 2045 := by
  have hfield : x.exponentField < 2 ^ 11 := Nat.mod_lt _ (Nat.two_pow_pos 11)
  simp only [isFinite, bne_iff_ne, ne_eq] at h
  unfold shift
  omega

/-- The step below a number is half as wide exactly if it is a power of two above the least ones. -/
theorem narrow_iff : x.fraction = 0 ∧ 1 < x.exponentField ↔
    x.significand = 2 ^ 52 ∧ 0 < x.shift := by
  unfold shift significand
  simp only [Nat.pow_eq]
  have := x.fraction_lt
  split <;> omega

/-- The word of a number: its sign in front of its shift and its significand, where the hidden bit
counts for the exponent. -/
theorem eq_withSign (x : Binary64) :
    x = withSign x.isNegative (x.shift * 2 ^ 52 + x.significand) := by
  obtain ⟨bits⟩ := x
  have hword := bits.toNat_lt
  refine congrArg Binary64.mk (UInt64.toNat_inj.mp ?_)
  simp only [isNegative, shift, significand, exponentField, fraction, Nat.pow_eq,
    UInt64.toNat_ofNat', decide_eq_true_eq]
  by_cases hsign : 2 ^ 63 ≤ bits.toNat <;>
    by_cases hfield : bits.toNat / 2 ^ 52 % 2 ^ 11 = 0 <;>
    simp only [hsign, hfield, ↓reduceIte] <;> omega

/-- One unit more is at most the next power of two. -/
theorem grains_add_le (x : Binary64) : x.grains + 2 ^ x.shift ≤ 2 ^ (53 + x.shift) := by
  rw [grains, Nat.pow_add, Nat.pow_eq, ← Nat.succ_mul]
  exact Nat.mul_le_mul_right _ x.significand_lt

theorem grains_lt (x : Binary64) : x.grains < 2 ^ (53 + x.shift) :=
  Nat.lt_of_lt_of_le (Nat.lt_add_of_pos_right (Nat.two_pow_pos _)) x.grains_add_le

/-- A number below a power of two has no greater unit than the numbers just below that power. -/
theorem shift_le_of_grains_lt {k : Nat} (h : x.grains < 2 ^ (53 + k)) : x.shift ≤ k := by
  refine Nat.not_lt.mp fun hlarge => ?_
  have hhidden := le_significand (Nat.lt_of_le_of_lt (Nat.zero_le k) hlarge)
  have hpow : 2 ^ 52 * 2 ^ (k + 1) ≤ x.grains :=
    Nat.mul_le_mul hhidden (Nat.pow_le_pow_right (by decide) hlarge)
  have hsum : 52 + (k + 1) = 53 + k := by omega
  rw [← Nat.pow_add, hsum] at hpow
  exact Nat.not_lt.mpr hpow h

theorem lt_shift_of_le_grains {k : Nat} (h : 2 ^ (53 + k) ≤ x.grains) : k < x.shift := by
  have := (Nat.pow_lt_pow_iff_right (by decide)).mp (Nat.lt_of_le_of_lt h x.grains_lt)
  omega

theorem grains_pos_iff : 0 < x.grains ↔ 0 < x.significand := by
  rw [grains]
  exact Nat.mul_pos_iff_of_pos_right (Nat.two_pow_pos _)

/-- A number without a magnitude is its sign alone. -/
theorem eq_zero_of_grains (h : x.grains = 0) : x = zero x.isNegative := by
  have hsignificand : x.significand = 0 := by
    have := grains_pos_iff (x := x)
    omega
  have hshift : x.shift = 0 := by
    rcases Nat.eq_zero_or_pos x.shift with hzero | hpos
    · exact hzero
    · have := le_significand hpos
      omega
  have hword := x.eq_withSign
  rwa [hsignificand, hshift] at hword

/-! ## Rounding to whole numbers -/

/-- A ratio within a half of a whole number is rounded to it; at a half, if it is even. -/
theorem roundRatio_eq {num den n : Nat} (hden : 0 < den) (hlow : 2 * (n * den) ≤ 2 * num + den)
    (hhigh : 2 * num ≤ 2 * (n * den) + den)
    (hodd : n % 2 = 1 → 2 * (n * den) < 2 * num + den ∧ 2 * num < 2 * (n * den) + den) :
    roundRatio num den = n := by
  have hnum : num / den * den + num % den = num := Nat.div_add_mod' num den
  have hrest : num % den < den := Nat.mod_lt num hden
  unfold roundRatio
  generalize num / den = below at *
  generalize num % den = rest at *
  -- The quotient is the number itself or the one before it.
  have hbelow : below = n ∨ below + 1 = n := by
    have hmul (a b : Nat) (h : a + 1 ≤ b) : a * den + den ≤ b * den := by
      rw [← Nat.succ_mul]
      exact Nat.mul_le_mul_right den h
    rcases Nat.lt_or_ge n below with hlt | hge
    · have := hmul n below hlt
      omega
    · rcases Nat.lt_or_ge (below + 1) n with hlt | hge
      · have := hmul (below + 1) n hlt
        have := hmul below (below + 1) (Nat.le_refl _)
        omega
      · omega
  dsimp only
  rcases hbelow with rfl | rfl
  · split
    · rfl
    · split <;> omega
  · have hsucc : (below + 1) * den = below * den + den := Nat.succ_mul below den
    split
    · omega
    · split <;> omega

/-! ## Magnitudes -/

theorem two_pow_add_mul (e place den : Nat) :
    2 ^ (e + place) * den = 2 ^ e * (den * 2 ^ place) := by
  rw [Nat.pow_add, Nat.mul_assoc, Nat.mul_comm (2 ^ place)]

/-- The place at which a ratio is rounded, from the powers of two around it. -/
theorem log2_div_eq {num den e : Nat} (hden : 0 < den) (hlow : 2 ^ e * den ≤ num)
    (hhigh : num < 2 ^ (e + 1) * den) : Nat.log2 (num / den) = e := by
  have hle : 2 ^ e ≤ num / den := (Nat.le_div_iff_mul_le hden).mpr hlow
  have hlt : num / den < 2 ^ (e + 1) := (Nat.div_lt_iff_lt_mul hden).mpr hhigh
  have hne : num / den ≠ 0 := by have := Nat.two_pow_pos e; omega
  exact (Nat.log2_eq_iff hne).mpr ⟨hle, hlt⟩

theorem magnitudeOfGrains_of_shift {num den place n : Nat}
    (hplace : Nat.log2 (num / den) - 52 = place) (hround : roundRatio num (den * 2 ^ place) = n)
    (hsmall : place * 2 ^ 52 + n ≤ infiniteMagnitude) :
    magnitudeOfGrains num den = place * 2 ^ 52 + n := by
  unfold magnitudeOfGrains
  simp only [Nat.pow_eq, hplace, hround]
  exact Nat.min_eq_right hsmall

/-- Where a ratio of grains lies that is in the interval of a number, in units of its last place. -/
structure Near (x : Binary64) (num den : Nat) : Prop where
  low : 2 * (x.significand * (den * 2 ^ x.shift)) ≤ 2 * num + den * 2 ^ x.shift
  high : 2 * num ≤ 2 * (x.significand * (den * 2 ^ x.shift)) + den * 2 ^ x.shift
  odd : x.significand % 2 = 1 →
    2 * (x.significand * (den * 2 ^ x.shift)) < 2 * num + den * 2 ^ x.shift ∧
      2 * num < 2 * (x.significand * (den * 2 ^ x.shift)) + den * 2 ^ x.shift
  /-- Below a power of two the interval ends earlier. -/
  narrow : x.significand = 2 ^ 52 → 0 < x.shift →
    4 * (x.significand * (den * 2 ^ x.shift)) ≤ 4 * num + den * 2 ^ x.shift

theorem near_of_holds {num den : Nat}
    (h : (Decimal.Interval.ofBinary64 x).holds (4 * num) den = true) : Near x num den := by
  have hgrains : x.grains * den = x.significand * (den * 2 ^ x.shift) := by
    rw [grains, Nat.pow_eq, Nat.mul_assoc, Nat.mul_comm (2 ^ x.shift)]
  have hhigh : (4 * x.grains + 2 * 2 ^ x.shift) * den
      = 4 * (x.significand * (den * 2 ^ x.shift)) + 2 * (den * 2 ^ x.shift) := by
    rw [Nat.add_mul, Nat.mul_assoc, hgrains, Nat.mul_assoc, Nat.mul_comm (2 ^ x.shift)]
  -- What is left after a cut, with the cut, is all there was.
  have hlow (cut : Nat) : 4 * (x.significand * (den * 2 ^ x.shift))
      ≤ (4 * x.grains - cut) * den + cut * den := by
    rw [← hgrains, ← Nat.mul_assoc, ← Nat.add_mul]
    exact Nat.mul_le_mul_right den (by omega)
  have hstep : 2 ^ x.shift * den = den * 2 ^ x.shift := Nat.mul_comm _ _
  have hsteps : 2 * 2 ^ x.shift * den = 2 * (den * 2 ^ x.shift) := by rw [Nat.mul_assoc, hstep]
  have hwide := hlow (2 * 2 ^ x.shift)
  have hthin := hlow (2 ^ x.shift)
  rw [hsteps] at hwide
  rw [hstep] at hthin
  unfold Decimal.Interval.holds Decimal.Interval.ofBinary64 at h
  simp only [narrow_iff, Nat.pow_eq, hhigh] at h
  by_cases hnarrow : x.significand = 2 ^ 52 ∧ 0 < x.shift
  · rw [if_pos hnarrow] at h
    by_cases heven : x.significand % 2 = 0 <;> simp [heven] at h <;> constructor <;> omega
  · rw [if_neg hnarrow] at h
    by_cases heven : x.significand % 2 = 0 <;> simp [heven] at h <;> constructor <;> omega

/-- A ratio in the interval of a number is rounded to the number at the place of the number. -/
theorem Near.roundRatio {num den : Nat} (h : Near x num den) (hden : 0 < den) :
    roundRatio num (den * 2 ^ x.shift) = x.significand :=
  roundRatio_eq (Nat.mul_pos hden (Nat.two_pow_pos _)) h.low h.high h.odd

theorem Near.lt {num den : Nat} (h : Near x num den) (hden : 0 < den) :
    num < 2 ^ (53 + x.shift) * den := by
  have hsignificand := x.significand_lt
  have hunit : 0 < den * 2 ^ x.shift := Nat.mul_pos hden (Nat.two_pow_pos _)
  have hmul : x.significand * (den * 2 ^ x.shift) + den * 2 ^ x.shift
      ≤ 2 ^ 53 * (den * 2 ^ x.shift) := by
    rw [← Nat.succ_mul]
    exact Nat.mul_le_mul_right _ hsignificand
  have hhigh := h.high
  rw [two_pow_add_mul]
  omega

theorem magnitude_le_infinite (hx : x.isFinite) :
    x.shift * 2 ^ 52 + x.significand ≤ infiniteMagnitude := by
  have hshift := shift_le hx
  have hsignificand := x.significand_lt
  simp only [infiniteMagnitude, Nat.pow_eq]
  omega

/-- Only below a power of two does the interval reach into the place below. A ratio that lies there
is rounded up to the power of two. -/
theorem Near.round_below {num den place : Nat} (h : Near x num den) (hden : 0 < den)
    (hplace : x.shift = place + 1) (hbelow : num < 2 ^ (52 + x.shift) * den) :
    x.significand = 2 ^ 52 ∧ Nat.log2 (num / den) = 52 + place ∧
      Binary64.roundRatio num (den * 2 ^ place) = 2 ^ 53 := by
  have hpos : 0 < x.shift := hplace ▸ Nat.succ_pos place
  have hlow := h.low
  rw [two_pow_add_mul] at hbelow
  have hpower : x.significand = 2 ^ 52 := by
    rcases Nat.eq_or_lt_of_le (le_significand hpos) with heq | hlt
    · exact heq.symm
    · have hmul := Nat.mul_le_mul_right (den * 2 ^ x.shift) (Nat.succ_le_of_lt hlt)
      rw [Nat.succ_mul] at hmul
      omega
  have hnarrow := h.narrow hpower hpos
  have hhalf : den * 2 ^ x.shift = 2 * (den * 2 ^ place) := by
    rw [hplace, Nat.pow_succ, Nat.mul_comm _ 2, Nat.mul_left_comm]
  have hunit : 0 < den * 2 ^ place := Nat.mul_pos hden (Nat.two_pow_pos _)
  rw [hpower, hhalf] at hnarrow
  rw [hhalf] at hbelow
  refine ⟨hpower, log2_div_eq hden ?_ ?_, roundRatio_eq hunit ?_ ?_ ?_⟩
  · rw [two_pow_add_mul]
    omega
  · rw [Nat.add_right_comm, two_pow_add_mul]
    omega
  · omega
  · omega
  · omega

/-- A ratio of grains in the interval of a finite number is rounded to its magnitude. -/
theorem Near.magnitudeOfGrains {num den : Nat} (h : Near x num den) (hden : 0 < den)
    (hx : x.isFinite) :
    magnitudeOfGrains num den = x.shift * 2 ^ 52 + x.significand := by
  have hsmall := magnitude_le_infinite hx
  have hlt := h.lt hden
  rcases Nat.lt_or_ge num (2 ^ (52 + x.shift) * den) with hbelow | habove
  · cases hshift : x.shift with
    | zero =>
      -- The place of the least numbers is the lowest that there is.
      have hround := h.roundRatio hden
      rw [hshift] at hlt hround hsmall
      refine magnitudeOfGrains_of_shift ?_ hround hsmall
      have hquotient : num / den < 2 ^ 53 := (Nat.div_lt_iff_lt_mul hden).mpr hlt
      by_cases hnone : num / den = 0
      · simp [hnone]
      · have := (Nat.log2_lt hnone).mpr hquotient
        omega
    | succ place =>
      obtain ⟨hpower, hlog, hround⟩ := h.round_below hden hshift hbelow
      have hcarry : (place + 1) * 2 ^ 52 + x.significand = place * 2 ^ 52 + 2 ^ 53 := by omega
      rw [hshift, hcarry] at hsmall
      rw [hcarry]
      exact magnitudeOfGrains_of_shift (by omega) hround hsmall
  · refine magnitudeOfGrains_of_shift ?_ (h.roundRatio hden) hsmall
    have hlog : Nat.log2 (num / den) = 52 + x.shift :=
      log2_div_eq hden habove (by rwa [Nat.add_right_comm])
    omega

end Crosswalk.Binary64
