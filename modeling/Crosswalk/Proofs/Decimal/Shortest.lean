import Crosswalk.Proofs.Decimal.Rounding
import Crosswalk.Proofs.Number
import Mathlib.Tactic.Ring

/-!
# Shortest decimals read back

The shortest decimal of a number lies in the interval of the number, whichever power of ten it is
found on, so it is rounded to the number again. Its exponent tells whole numbers: the search comes
to the units of a whole number at the latest, and the interval of a number that is not whole holds
no whole number.

* `within_search`, `within_ofBinary64`: the decimal lies in the interval.
* `toBinary64_of_within`: a decimal in the interval of a number is rounded to it.
* `toBinary64_ofBinary64`: the shortest decimal of a finite number is rounded to the number.
* `exponent_nonneg_iff`: the exponent of a whole number is not negative, and that of others is.
* `num_lt_of_wholePart`, `lt_num_of_wholePart`: the decimals on both sides of `2 ^ 63`.
-/

namespace Crosswalk.Decimal

variable {tie : Tie} {x : Binary64}

/-! ## In the interval -/

/-- The decimal `c * 10 ^ k` lies in the interval of a number. -/
def Within (x : Binary64) (d : Decimal) : Prop :=
  (Interval.ofBinary64 x).holds (d.coefficient * unitNum d.exponent) (unitDen d.exponent) = true

theorem holds_hit {i : Interval} {k : Int} {c : Nat} (h : hit? tie i k = some c) :
    i.holds (c * unitNum k) (unitDen k) = true := by
  unfold hit? at h
  dsimp only at h
  generalize i.value * unitDen k / unitNum k = below at h
  cases hlower : i.holds (below * unitNum k) (unitDen k) <;>
    cases hupper : i.holds ((below + 1) * unitNum k) (unitDen k) <;>
    simp only [hlower, hupper] at h
  case false.false => cases h
  case false.true => obtain rfl := Option.some.inj h; exact hupper
  case true.false => obtain rfl := Option.some.inj h; exact hlower
  case true.true =>
    split at h
    · obtain rfl := Option.some.inj h; exact hlower
    split at h
    · obtain rfl := Option.some.inj h; exact hupper
    cases tie with
    | up => obtain rfl := Option.some.inj h; exact hupper
    | even =>
      obtain rfl := Option.some.inj h
      rcases Nat.mod_two_eq_zero_or_one below with hmod | hmod <;> rw [hmod]
      · rw [Nat.add_zero]
        exact hlower
      · exact hupper

/-- The value of a number is in its interval, as a ratio with any denominator. -/
theorem holds_value {den : Nat} (hden : 0 < den) (hpos : 0 < x.grains) :
    (Interval.ofBinary64 x).holds (4 * x.grains * den) den = true := by
  have hstep := Nat.two_pow_pos x.shift
  have hlow : (Interval.ofBinary64 x).low < 4 * x.grains := by
    simp only [Interval.ofBinary64, Nat.pow_eq]
    split <;> omega
  have hhigh : 4 * x.grains < (Interval.ofBinary64 x).high := by
    simp only [Interval.ofBinary64, Nat.pow_eq]
    omega
  have hlower := Nat.mul_lt_mul_of_pos_right hlow hden
  have hupper := Nat.mul_lt_mul_of_pos_right hhigh hden
  unfold Interval.holds
  split <;> simp only [decide_eq_true_eq] <;> omega

theorem within_mk {c : Nat} {k : Int} : Within x ⟨c, k⟩ ↔
    (Interval.ofBinary64 x).holds (c * unitNum k) (unitDen k) = true := Iff.rfl

theorem unitNum_of_nonpos {k : Int} (hk : k ≤ 0) : unitNum k = 4 * Binary64.one := by
  have hzero : k.toNat = 0 := by omega
  rw [unitNum, hzero]
  generalize 4 * Binary64.one = n
  exact Nat.one_mul n

theorem unitDen_of_nonneg {k : Int} (hk : 0 ≤ k) : unitDen k = 1 := by
  have hzero : (-k).toNat = 0 := by omega
  rw [unitDen, hzero]

theorem unitDen_pos (k : Int) : 0 < unitDen k := Nat.pow_pos (by decide)

-- The power of five is bound, and not a numeral, so that nobody works it out.
theorem within_units {power : Nat} (hpower : power * Binary64.one = unitDen (-1074))
    (hpos : 0 < x.grains) : Within x ⟨x.grains * power, -1074⟩ := by
  have hunits : x.grains * power * unitNum (-1074) = 4 * x.grains * unitDen (-1074) := by
    rw [unitNum_of_nonpos (by decide), ← hpower]
    ring
  rw [within_mk, hunits]
  exact holds_value (unitDen_pos _) hpos

/-- Down to a grain, the whole magnitude of a number is a decimal. -/
theorem within_exact (hpos : 0 < x.grains) : Within x ⟨x.grains * Nat.pow 5 1074, -1074⟩ :=
  within_units (by decide +kernel) hpos

theorem within_search (hpos : 0 < x.grains) (steps : Nat) (k : Int) :
    Within x (search tie x (Interval.ofBinary64 x) steps k) := by
  induction steps generalizing k with
  | zero => exact within_exact hpos
  | succ steps ih =>
    rw [search]
    cases hhit : hit? tie (Interval.ofBinary64 x) k with
    | none => exact ih (k - 1)
    | some c => exact holds_hit hhit

theorem within_ofBinary64 (tie : Tie) (hpos : 0 < x.grains) : Within x (ofBinary64 tie x) := by
  rw [ofBinary64, if_neg (Nat.ne_of_gt hpos)]
  exact within_search hpos _ _

/-! ## Rounded to the number -/

theorem Within.near {d : Decimal} (h : Within x d) : x.Near (d.num * Binary64.one) d.den := by
  have hunits : d.coefficient * unitNum d.exponent = 4 * (d.num * Binary64.one) := by
    rw [unitNum, num]
    generalize Binary64.one = n
    ring
  exact Binary64.near_of_holds (hunits ▸ h)

theorem den_pos (d : Decimal) : 0 < d.den := unitDen_pos d.exponent

/-- A decimal in the interval of a number is at least half a grain. -/
theorem Within.den_le {d : Decimal} (h : Within x d) (hpos : 0 < x.grains) :
    d.den ≤ 2 * (d.num * Binary64.one) := by
  have hlow := h.near.low
  have hunit : d.den * 2 ^ x.shift ≤ x.significand * (d.den * 2 ^ x.shift) :=
    Nat.le_mul_of_pos_left _ (Binary64.grains_pos_iff.mp hpos)
  have hden : d.den ≤ d.den * 2 ^ x.shift := Nat.le_mul_of_pos_right _ (Nat.two_pow_pos _)
  generalize d.num * Binary64.one = n at *
  omega

/-- What is decided by its exponent alone to be zero is less than half a grain. -/
theorem num_lt_den_of_small {d : Decimal}
    (h : d.exponent + (Nat.log2 d.coefficient / 3 + 1 : Nat) < -400) :
    2 * (d.num * Binary64.one) < d.den := by
  obtain ⟨e, he, hone⟩ := Binary64.exists_one_lt
  have hzero : d.exponent.toNat = 0 := by omega
  have hnum : d.num = d.coefficient := by rw [num, hzero, Nat.pow_eq, Nat.pow_zero, Nat.mul_one]
  have hcoefficient : d.coefficient < 2 ^ (Nat.log2 d.coefficient + 1) := Nat.lt_log2_self
  rw [hnum, den]
  generalize Nat.log2 d.coefficient = log at *
  calc 2 * (d.coefficient * Binary64.one)
      < 2 * (2 ^ (log + 1) * 2 ^ e) :=
        Nat.mul_lt_mul_of_pos_left (Nat.mul_lt_mul'' hcoefficient hone) (by decide)
    _ = 2 ^ (log + 2 + e) := by ring
    _ ≤ 2 ^ (3 * (-d.exponent).toNat) := Nat.pow_le_pow_right (by decide) (by omega)
    _ = 8 ^ (-d.exponent).toNat := Nat.pow_mul 2 3 _
    _ ≤ 10 ^ (-d.exponent).toNat := Nat.pow_le_pow_left (by decide) _

theorem toBinary64_of_within {d : Decimal} (hx : x.isFinite) (hd : Within x d)
    (hpos : 0 < x.grains) (hmost : d.exponent ≤ 400) : d.toBinary64 x.isNegative = x := by
  have hden := hd.den_le hpos
  have hcoefficient : d.coefficient ≠ 0 := by
    intro hzero
    have hnum : d.num = 0 := by rw [num, hzero, Nat.zero_mul]
    have := d.den_pos
    rw [hnum, Nat.zero_mul] at hden
    omega
  have hsmall : ¬ d.exponent + (Nat.log2 d.coefficient / 3 + 1 : Nat) < -400 := fun h =>
    Nat.not_lt.mpr hden (num_lt_den_of_small h)
  rw [toBinary64, if_neg hcoefficient, if_neg (by omega), if_neg hsmall, Binary64.ofRatio,
    hd.near.magnitudeOfGrains d.den_pos hx]
  exact x.eq_withSign.symm

theorem exponent_search_le (tie : Tie) (x : Binary64) (i : Interval) (steps : Nat) (k : Int) :
    (search tie x i steps k).exponent ≤ max k (-1074) := by
  induction steps generalizing k with
  | zero => exact Int.le_max_right _ _
  | succ steps ih =>
    rw [search]
    cases hit? tie i k with
    | none => exact Int.le_trans (ih (k - 1)) (by omega)
    | some c => exact Int.le_max_left _ _

theorem topExponent_le (hx : x.isFinite) : topExponent x ≤ 400 := by
  have hshift := Binary64.shift_le hx
  have hlog : Nat.log2 x.grains ≤ 2097 := by
    by_cases hzero : x.grains = 0
    · simp [hzero]
    · have := (Nat.log2_lt hzero).mpr x.grains_lt
      omega
  unfold topExponent
  dsimp only
  split <;> omega

theorem exponent_ofBinary64_le (tie : Tie) (hx : x.isFinite) :
    (ofBinary64 tie x).exponent ≤ 400 := by
  unfold ofBinary64
  split
  · exact Int.ofNat_le.mpr (Nat.zero_le 400)
  · have hsearch := exponent_search_le tie x (Interval.ofBinary64 x)
      (topExponent x + 1074).toNat (topExponent x)
    have := topExponent_le hx
    dsimp only
    omega

/-- The shortest decimal of a finite number is rounded to the number. -/
theorem toBinary64_ofBinary64 (tie : Tie) (hx : x.isFinite) :
    (ofBinary64 tie x).toBinary64 x.isNegative = x := by
  rcases Nat.eq_zero_or_pos x.grains with hzero | hpos
  · rw [ofBinary64, if_pos hzero, toBinary64, if_pos rfl]
    exact (Binary64.eq_zero_of_grains hzero).symm
  · exact toBinary64_of_within hx (within_ofBinary64 tie hpos) hpos (exponent_ofBinary64_le tie hx)

/-! ## Whole numbers -/

/-- The grains of one, with a name for their exponent. -/
theorem exists_one_eq : ∃ e, e = 1074 ∧ Binary64.one = 2 ^ e := ⟨1074, rfl, by decide +kernel⟩

theorem one_dvd_grains_of_shift (h : 1074 ≤ x.shift) : Binary64.one ∣ x.grains := by
  obtain ⟨e, he, hone⟩ := exists_one_eq
  rw [hone, Binary64.grains]
  exact Nat.dvd_mul_left_of_dvd (Nat.pow_dvd_pow 2 (he ▸ h)) _

theorem hit?_ne_none {i : Interval} {k : Int}
    (h : i.holds (i.value * unitDen k / unitNum k * unitNum k) (unitDen k) = true) :
    hit? tie i k ≠ none := by
  unfold hit?
  dsimp only
  rw [h]
  split
  · next hfalse _ => cases hfalse
  · simp
  · simp
  · split
    · simp
    split
    · simp
    · cases tie <;> simp

/-- A whole number is a multiple of one in its own interval. -/
theorem hit?_zero (hpos : 0 < x.grains) (h : Binary64.one ∣ x.grains) :
    hit? tie (Interval.ofBinary64 x) 0 ≠ none := by
  have hvalue := holds_value (x := x) Nat.one_pos hpos
  rw [Nat.mul_one] at hvalue
  have hdvd : 4 * Binary64.one ∣ (Interval.ofBinary64 x).value := Nat.mul_dvd_mul_left 4 h
  apply hit?_ne_none
  rw [unitDen_of_nonneg (Int.le_refl 0), unitNum_of_nonpos (Int.le_refl 0), Nat.mul_one,
    Nat.div_mul_cancel hdvd]
  exact hvalue

theorem exponent_search_nonneg {i : Interval} (hhit : hit? tie i 0 ≠ none) (steps : Nat) {k : Int}
    (hk : 0 ≤ k) (hsteps : k < steps) : 0 ≤ (search tie x i steps k).exponent := by
  induction steps generalizing k with
  | zero => omega
  | succ steps ih =>
    rw [search]
    cases h : hit? tie i k with
    | some c => exact hk
    | none =>
      have hne : k ≠ 0 := fun heq => hhit (heq ▸ h)
      exact ih (by omega) (by omega)

theorem topExponent_nonneg (hpos : 0 < x.grains) (h : Binary64.one ∣ x.grains) :
    0 ≤ topExponent x := by
  obtain ⟨e, he, hone⟩ := exists_one_eq
  have hlog : 1074 ≤ Nat.log2 x.grains := by
    refine (Nat.le_log2 (Nat.ne_of_gt hpos)).mpr ?_
    rw [← he, ← hone]
    exact Nat.le_of_dvd hpos h
  unfold topExponent
  dsimp only
  split <;> omega

theorem exponent_nonneg_of_dvd (h : Binary64.one ∣ x.grains) :
    0 ≤ (ofBinary64 tie x).exponent := by
  unfold ofBinary64
  split
  · exact Int.le_refl 0
  · next hzero =>
    have hpos := Nat.pos_of_ne_zero hzero
    have htop := topExponent_nonneg hpos h
    exact exponent_search_nonneg (hit?_zero hpos h) _ htop (by omega)

/-- Multiples of a unit that lie no further apart than half of it are in order. -/
theorem le_of_mul_le_half {m n unit : Nat} (hunit : 0 < unit)
    (h : 2 * (m * unit) ≤ 2 * (n * unit) + unit) : m ≤ n := by
  refine Nat.not_lt.mp fun hlt => ?_
  have hmul := Nat.mul_le_mul_right unit (Nat.succ_le_of_lt hlt)
  rw [Nat.succ_mul] at hmul
  omega

/-- The decimal of a whole number, against the bounds of its interval. -/
theorem Within.num_bounds {d : Decimal} (h : Within x d) (hexponent : 0 ≤ d.exponent) :
    2 * (d.num * Binary64.one) ≤ 2 * x.grains + 2 ^ x.shift ∧
      2 * x.grains ≤ 2 * (d.num * Binary64.one) + 2 ^ x.shift := by
  have hden : d.den = 1 := unitDen_of_nonneg hexponent
  have hlow := h.near.low
  have hhigh := h.near.high
  have hgrains : x.significand * 2 ^ x.shift = x.grains := rfl
  rw [hden, Nat.one_mul, hgrains] at hlow hhigh
  exact ⟨hhigh, hlow⟩

/-- Of a decimal without places behind the point, the interval of a number holds the number
itself if its unit is no more than one. -/
theorem Within.grains_eq {d : Decimal} (h : Within x d) (hexponent : 0 ≤ d.exponent)
    (hshift : x.shift ≤ 1074) : d.num * Binary64.one = x.grains := by
  obtain ⟨e, he, hone⟩ := exists_one_eq
  obtain ⟨hhigh, hlow⟩ := h.num_bounds hexponent
  have hsplit : d.num * Binary64.one = d.num * 2 ^ (e - x.shift) * 2 ^ x.shift := by
    rw [hone, Nat.mul_assoc, ← Nat.pow_add, Nat.sub_add_cancel (he ▸ hshift)]
  have hunit := Nat.two_pow_pos x.shift
  rw [hsplit, Binary64.grains, Nat.pow_eq] at hhigh hlow
  rw [hsplit, Binary64.grains, Nat.pow_eq]
  exact congrArg (· * 2 ^ x.shift)
    (Nat.le_antisymm (le_of_mul_le_half hunit hhigh) (le_of_mul_le_half hunit hlow))

/-- The shortest decimal of a number has no places behind the point exactly if the number is
whole. -/
theorem exponent_nonneg_iff : 0 ≤ (ofBinary64 tie x).exponent ↔ Binary64.one ∣ x.grains := by
  refine ⟨fun h => ?_, exponent_nonneg_of_dvd⟩
  rcases Nat.le_total 1074 x.shift with hshift | hshift
  · exact one_dvd_grains_of_shift hshift
  rcases Nat.eq_zero_or_pos x.grains with hzero | hpos
  · exact hzero ▸ Nat.dvd_zero _
  · exact Dvd.intro_left _ ((within_ofBinary64 tie hpos).grains_eq h hshift)

/-! ## Whole numbers of 64 bits -/

theorem grains_of_dvd (h : Binary64.one ∣ x.grains) :
    x.wholePart * Binary64.one = x.grains := Nat.div_mul_cancel h

/-- Below `2 ^ 63` the decimal of a whole number is, too. -/
theorem num_lt_of_wholePart (tie : Tie) (h : Binary64.one ∣ x.grains)
    (hlt : x.wholePart < 2 ^ 63) : (ofBinary64 tie x).num < 2 ^ 63 := by
  rcases Nat.eq_zero_or_pos x.grains with hzero | hpos
  · rw [ofBinary64, if_pos hzero, num, Nat.zero_mul]
    exact Nat.two_pow_pos 63
  obtain ⟨e, he, hone⟩ := exists_one_eq
  have hsum : 53 + (10 + e) = 63 + e := by omega
  have hgrains : x.grains < 2 ^ (63 + e) := by
    rw [← grains_of_dvd h, Nat.pow_add, hone]
    exact Nat.mul_lt_mul_of_pos_right hlt (Nat.two_pow_pos e)
  have hshift : x.shift ≤ 10 + e := Binary64.shift_le_of_grains_lt (hsum ▸ hgrains)
  have hstep := x.grains_add_le
  have htop : 2 ^ (53 + x.shift) ≤ 2 ^ (63 + e) := Nat.pow_le_pow_right (by decide) (by omega)
  have hunit := Nat.two_pow_pos x.shift
  obtain ⟨hhigh, -⟩ := (within_ofBinary64 tie hpos).num_bounds (exponent_nonneg_of_dvd h)
  have hnum : (ofBinary64 tie x).num * Binary64.one < 2 ^ 63 * Binary64.one := by
    rw [hone, ← Nat.pow_add, ← hone]
    generalize (ofBinary64 tie x).num * Binary64.one = n at *
    omega
  exact Nat.lt_of_mul_lt_mul_right hnum

/-- Above a power of two the decimal of a whole number is, too. -/
theorem Within.two_pow_lt {d : Decimal} {k : Nat} (h : Within x d) (hexponent : 0 ≤ d.exponent)
    (hlt : 2 ^ (53 + k) < x.grains) : 2 ^ (53 + k) < d.num * Binary64.one := by
  obtain ⟨-, hlow⟩ := h.num_bounds hexponent
  have hshift : k + 1 ≤ x.shift := Binary64.lt_shift_of_le_grains (Nat.le_of_lt hlt)
  have hhidden := Binary64.le_significand (Nat.lt_of_lt_of_le k.succ_pos hshift)
  have hgrains : x.grains = x.significand * 2 ^ x.shift := rfl
  have hsum : 53 + k = 52 + (k + 1) := by omega
  generalize d.num * Binary64.one = n at *
  rw [hsum, Nat.pow_add] at hlt ⊢
  rcases Nat.eq_or_lt_of_le hshift with heq | hmore
  · -- With the unit of the numbers just above the power, the number is one unit above it at least.
    rw [hgrains, ← heq] at hlt
    have hsucc := Nat.mul_le_mul_right (2 ^ (k + 1))
      (Nat.succ_le_of_lt (Nat.lt_of_mul_lt_mul_right hlt))
    have hunit := Nat.two_pow_pos (k + 1)
    rw [hgrains, ← heq] at hlow
    rw [Nat.succ_mul] at hsucc
    omega
  · -- With a greater unit it is twice the power at least, less half of that unit.
    have hunit : 2 * 2 ^ (k + 1) ≤ 2 ^ x.shift := by
      rw [Nat.mul_comm, ← Nat.pow_succ]
      exact Nat.pow_le_pow_right (by decide) hmore
    have hmul := Nat.mul_le_mul_right (2 ^ x.shift) hhidden
    have hpositive := Nat.two_pow_pos (k + 1)
    omega

/-- The number of a power of two. -/
theorem eq_withSign_of_grains {k : Nat} (h : x.grains = 2 ^ (53 + k)) :
    x = Binary64.withSign x.isNegative ((k + 1) * 2 ^ 52 + 2 ^ 52) := by
  have hshift := Binary64.lt_shift_of_le_grains (Nat.le_of_eq h.symm)
  have hhidden := Binary64.le_significand (Nat.lt_of_le_of_lt (Nat.zero_le k) hshift)
  have hgrains : x.significand * 2 ^ x.shift = 2 ^ 52 * 2 ^ (k + 1) := by
    have hsum : 53 + k = 52 + (k + 1) := by omega
    rw [← Nat.pow_add, ← hsum, ← h]
    rfl
  have hpow : 2 ^ (k + 1) ≤ 2 ^ x.shift := Nat.pow_le_pow_right (by decide) hshift
  have hpositive := Nat.two_pow_pos (k + 1)
  have hsignificand : x.significand = 2 ^ 52 := by
    refine Nat.le_antisymm (Nat.le_of_mul_le_mul_right ?_ hpositive) hhidden
    rw [← hgrains]
    exact Nat.mul_le_mul_left _ hpow
  rw [hsignificand] at hgrains
  have heq : x.shift = k + 1 := Nat.pow_right_injective (Nat.le_refl 2)
    (Nat.eq_of_mul_eq_mul_left (Nat.two_pow_pos 52) hgrains)
  have hword := x.eq_withSign
  rwa [hsignificand, heq] at hword

-- The search starts some twenty powers of ten above the number and stops at the third.
theorem num_two_pow : ∀ negative : Bool,
    (ofBinary64 .up (Binary64.withSign negative (1085 * 2 ^ 52 + 2 ^ 52))).num
      = 9223372036854776000 := by decide +kernel

/-- From `2 ^ 63` on, the decimal of a whole number is greater than that. -/
theorem lt_num_of_wholePart (h : Binary64.one ∣ x.grains) (hge : 2 ^ 63 ≤ x.wholePart) :
    2 ^ 63 < (ofBinary64 .up x).num := by
  obtain ⟨e, he, hone⟩ := exists_one_eq
  have hsum : 63 + e = 53 + (10 + e) := by omega
  have hgrains : 2 ^ (63 + e) ≤ x.grains := by
    rw [← grains_of_dvd h, Nat.pow_add, hone]
    exact Nat.mul_le_mul_right _ hge
  have hpos : 0 < x.grains := Nat.lt_of_lt_of_le (Nat.two_pow_pos _) hgrains
  rw [hsum] at hgrains
  rcases Nat.eq_or_lt_of_le hgrains with heq | hlt
  · -- The number is `2 ^ 63` itself, and its decimal is rounded up.
    have hword := eq_withSign_of_grains heq.symm
    rw [he] at hword
    rw [hword, num_two_pow]
    decide
  · have hnum := (within_ofBinary64 .up hpos).two_pow_lt (exponent_nonneg_of_dvd h) hlt
    have hpower : 2 ^ 63 * Binary64.one = 2 ^ (53 + (10 + e)) := by rw [← hsum, Nat.pow_add, hone]
    exact Nat.lt_of_mul_lt_mul_right (hpower.trans_lt hnum)

end Crosswalk.Decimal
