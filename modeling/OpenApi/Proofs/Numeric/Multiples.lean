import Mathlib.Algebra.Order.Field.Basic
import Mathlib.Algebra.Order.Group.MinMax
import Mathlib.Tactic.FieldSimp
import Mathlib.Tactic.NormNum
import Mathlib.Tactic.Ring
import OpenApi.Proofs.Numeric.Doubles

/-!
# Multiples of Integers as Doubles

Whether one number is a multiple of another is decided on their quotient: it is
rounded, and has to lie within a tolerance of an integer. The tolerance grows
with the quotient, and no operand is exempt from it. For integers this means
that the distance to the nearest multiple is compared with a billionth of the
larger of the two operands.

Three roundings separate the computed quotient from the exact one, those of the
two integers and that of the quotient, and three more the computed tolerance
from the exact one. Each is a relative error of at most `2^-53`, and a billionth
is so much more that all of them together move the comparison by less than a
millionth of the tolerance. Outside of that margin the outcome is known.

## Main definitions

* `IsRounded`: A rational is rounded to another.
* `IsNearMultiple`: An integer is near to a multiple of another.

## Theorems

* `abs_sub_roundHalfAway_le`: Rounding half away is nearest.
* `isMultipleOf_iff`: The computation, on rationals.
* `abs_div_sub_div_le`: The error of a quotient of rounded numbers.
* `isMultipleOf_of_isNearMultiple`, `isNearMultiple_of_isMultipleOf`: What is
  accepted, up to the margin.
-/

namespace OpenApi

namespace Binary64

theorem magnitude_eq_abs (q : Rat) : magnitude q = |q| := by
  unfold magnitude
  split
  · rename_i hq
    rw [abs_of_neg hq]
  · rename_i hq
    rw [abs_of_nonneg (not_lt.mp hq)]

theorem roundHalfAway_near (q : Rat) : |q - roundHalfAway q| ≤ 1 / 2 := by
  -- The size is rounded, and the sign is put in front again.
  have hsize : ∀ num den : Nat, 0 < den →
      |(num : Rat) / den - ((2 * num + den) / (2 * den) : Nat)| ≤ 1 / 2 := by
    intro num den hden
    have hsplit := Nat.div_add_mod' (2 * num + den) (2 * den)
    have hlt : (2 * num + den) % (2 * den) < 2 * den := Nat.mod_lt _ (by omega)
    rw [Nat.mul_left_comm] at hsplit
    exact abs_div_sub_le_half num den _ hden (by omega) (by omega)
  have hq := hsize q.num.natAbs q.den q.den_pos
  rw [← abs_eq_div] at hq
  unfold roundHalfAway
  dsimp only
  split
  · rename_i hneg
    rw [abs_of_neg hneg] at hq
    rwa [Int.cast_neg, Int.cast_natCast, sub_neg_eq_add, ← abs_neg, neg_add']
  · rename_i hneg
    rw [abs_of_nonneg (not_lt.mp hneg)] at hq
    rwa [Int.cast_natCast]

/-- No integer is nearer to a rational than the one it is rounded to. -/
theorem abs_sub_roundHalfAway_le (q : Rat) (j : Int) : |q - roundHalfAway q| ≤ |q - j| :=
  abs_sub_le_of_half q _ j (roundHalfAway_near q)

/-- The rational is rounded to a double of the value `r`. -/
def IsRounded (q r : Rat) : Prop := ∃ x, ofRat? q = some x ∧ x.toRat = r

/-- A rational well within the range is rounded with a small relative error. -/
theorem exists_isRounded (q : Rat) (hlow : q = 0 ∨ 1 / 2 ^ 100 ≤ |q|) (hhigh : |q| ≤ 2 ^ 100) :
    ∃ r, IsRounded q r ∧ |q - r| ≤ |q| / 2 ^ 53 := by
  have hmost : (2 : Rat) ^ 100 < 2 ^ (1023 : Int) := by
    rw [← zpow_natCast]
    exact zpow_lt_zpow_right₀ (by decide) (by decide)
  obtain ⟨x, hx⟩ := exists_ofRat? q (lt_of_le_of_lt hhigh hmost)
  refine ⟨x.toRat, ⟨x, hx, rfl⟩, ?_⟩
  rcases hlow with rfl | hlow
  · have hzero : IsDouble (0 : Rat) := isDouble_int 0 (by decide)
    rw [(isNearest_of_ofRat? 0 x hx).eq_of_isDouble hzero, sub_self, abs_zero, zero_div]
  · have hleast : (2 : Rat) ^ (-1022 : Int) ≤ 1 / 2 ^ 100 := by
      rw [one_div, ← zpow_natCast, ← zpow_neg]
      exact zpow_le_zpow_right₀ (by decide) (by decide)
    exact abs_sub_le_of_ofRat? q x hx (le_trans hleast hlow)

/-- Divisibility as it is computed: the distance of the rounded quotient to the nearest
    integer is at most the rounded tolerance. -/
theorem isMultipleOf_iff (x m : Binary64) (q allowed : Rat) (hq : IsRounded (x.toRat / m.toRat) q)
    (hallowed : IsRounded (multipleTolerance * max 1 |q|) allowed) :
    x.isMultipleOf m = true ↔ |q - roundHalfAway q| ≤ allowed := by
  obtain ⟨quotient, hquotient, rfl⟩ := hq
  obtain ⟨tolerance, htolerance, rfl⟩ := hallowed
  have hmax : (if magnitude quotient.toRat < 1 then 1 else magnitude quotient.toRat)
      = max 1 |quotient.toRat| := by
    rw [magnitude_eq_abs]
    split
    · rename_i h
      rw [max_eq_left h.le]
    · rename_i h
      rw [max_eq_right (not_lt.mp h)]
  unfold isMultipleOf
  rw [hquotient]
  dsimp only
  rw [hmax, htolerance]
  dsimp only
  rw [decide_eq_true_eq, magnitude_eq_abs]

section Errors

/-- The tolerance is a billionth, rounded. -/
theorem abs_sub_multipleTolerance_le :
    |1 / 10 ^ 9 - multipleTolerance| ≤ 1 / 10 ^ 9 / 2 ^ 53 := by
  have hbillionth : mkRat 1 1000000000 = 1 / 10 ^ 9 := by norm_num [Rat.mkRat_eq_div]
  have habs : |(1 / 10 ^ 9 : Rat)| = 1 / 10 ^ 9 := abs_of_pos (by norm_num)
  obtain ⟨r, ⟨x, hx, rfl⟩, herror⟩ := exists_isRounded (1 / 10 ^ 9)
    (Or.inr (by rw [habs]; norm_num)) (by rw [habs]; norm_num)
  rw [habs] at herror
  unfold multipleTolerance
  rwa [hbillionth, hx, Option.getD_some]

/-- The quotient of two rounded numbers, the divisor being positive. -/
theorem abs_div_sub_div_le (x m x' m' : Rat) (hm : 0 < m) (hx : |x - x'| ≤ |x| / 2 ^ 53)
    (hm' : |m - m'| ≤ m / 2 ^ 53) : |x / m - x' / m'| ≤ 3 * |x / m| / 2 ^ 53 := by
  -- The rounded divisor is not much smaller, so that two errors make at most three.
  have hbig : 2 * m ≤ 3 * m' := by
    have hupper := (abs_le.mp hm').2
    linarith
  have hpos : 0 < m' := by linarith
  have hnum : |x * m' - m * x'| ≤ 2 * (|x| * m) / 2 ^ 53 := by
    have hsplit : x * m' - m * x' = m * (x - x') - x * (m - m') := by ring
    calc |x * m' - m * x'| ≤ |m * (x - x')| + |x * (m - m')| := by
          rw [hsplit]
          exact abs_sub _ _
      _ = m * |x - x'| + |x| * |m - m'| := by rw [abs_mul, abs_mul, abs_of_pos hm]
      _ ≤ m * (|x| / 2 ^ 53) + |x| * (m / 2 ^ 53) :=
          add_le_add (mul_le_mul_of_nonneg_left hx hm.le)
            (mul_le_mul_of_nonneg_left hm' (abs_nonneg x))
      _ = 2 * (|x| * m) / 2 ^ 53 := by ring
  have hproduct : |x| * (2 * m) ≤ |x| * (3 * m') := mul_le_mul_of_nonneg_left hbig (abs_nonneg x)
  rw [div_sub_div _ _ hm.ne' hpos.ne', abs_div, abs_of_pos (mul_pos hm hpos), abs_div,
    abs_of_pos hm, div_le_iff₀ (mul_pos hm hpos)]
  calc |x * m' - m * x'| ≤ 2 * (|x| * m) / 2 ^ 53 := hnum
    _ ≤ 3 * (|x| * m') / 2 ^ 53 := by linarith
    _ = 3 * (|x| / m) / 2 ^ 53 * (m * m') := by field_simp

/-- The computed tolerance of a quotient `y`, which is rounded to `q`. -/
theorem abs_sub_allowed_le (y q allowed : Rat) (hq : |y - q| ≤ 5 * |y| / 2 ^ 53)
    (hallowed : |multipleTolerance * (max 1 |q|) - allowed|
      ≤ |multipleTolerance * (max 1 |q|)| / 2 ^ 53) :
    |(max 1 |y|) / 10 ^ 9 - allowed| ≤ 8 * (max 1 |y|) / 10 ^ 9 / 2 ^ 53 := by
  have hone : 1 ≤ max 1 |q| := le_max_left _ _
  have hsize : |max 1 (|y|) - max 1 (|q|)| ≤ 5 * (max 1 |y|) / 2 ^ 53 := by
    calc |max 1 (|y|) - max 1 (|q|)| ≤ |(|y| - |q|)| := by
          rw [max_comm 1, max_comm 1]
          exact abs_max_sub_max_le_abs _ _ _
      _ ≤ |y - q| := abs_abs_sub_abs_le _ _
      _ ≤ 5 * |y| / 2 ^ 53 := hq
      _ ≤ 5 * (max 1 |y|) / 2 ^ 53 := by
          have := le_max_right 1 |y|
          linarith
  have htolerance := abs_sub_multipleTolerance_le
  -- What is left speaks about the sizes of the quotients and the tolerance only.
  generalize max 1 |y| = b at *
  generalize max 1 |q| = c at *
  generalize multipleTolerance = t at *
  have hc : 0 ≤ c := by linarith
  have hproduct : |1 / 10 ^ 9 * c - t * c| ≤ 1 / 10 ^ 9 / 2 ^ 53 * c := by
    rw [← sub_mul, abs_mul, abs_of_nonneg hc]
    exact mul_le_mul_of_nonneg_right htolerance hc
  generalize t * c = p at *
  rw [abs_le] at hproduct hsize
  have hp : 0 ≤ p := by linarith
  rw [abs_of_nonneg hp, abs_le] at hallowed
  rw [abs_le]
  constructor
  · linarith
  · linarith

/-- A quotient that is off by little is rounded to one that is still off by little. -/
theorem exists_isRounded_quotient (y z : Rat) (hz : |y - z| ≤ 3 * |y| / 2 ^ 53)
    (hlow : y = 0 ∨ 1 / 2 ^ 64 ≤ |y|) (hhigh : |y| ≤ 2 ^ 64) :
    ∃ q, IsRounded z q ∧ |y - q| ≤ 5 * |y| / 2 ^ 53 := by
  have hless : |y| ≤ |z| + |y - z| := by
    have := abs_sub_abs_le_abs_sub y z
    linarith
  have hmore : |z| ≤ |y| + |y - z| := by
    have := abs_sub_abs_le_abs_sub z y
    rw [abs_sub_comm] at this
    linarith
  have hleast : z = 0 ∨ 1 / 2 ^ 100 ≤ |z| := by
    rcases hlow with hzero | hleast
    · left
      rw [hzero, abs_zero, mul_zero, zero_div, zero_sub, abs_neg] at hz
      exact abs_eq_zero.mp (le_antisymm hz (abs_nonneg z))
    · right
      linarith
  obtain ⟨q, hq, hrounded⟩ := exists_isRounded z hleast (by linarith)
  refine ⟨q, hq, ?_⟩
  have htriangle := abs_sub_le y z q
  linarith

/-- The tolerance of a quotient that is not too large is rounded. -/
theorem exists_isRounded_tolerance (q : Rat) (hq : |q| ≤ 2 ^ 100) :
    ∃ allowed, IsRounded (multipleTolerance * max 1 |q|) allowed
      ∧ |multipleTolerance * (max 1 |q|) - allowed|
        ≤ |multipleTolerance * (max 1 |q|)| / 2 ^ 53 := by
  have hbillionth := abs_le.mp abs_sub_multipleTolerance_le
  have hone : 1 ≤ max 1 |q| := le_max_left _ _
  have hlarge : max 1 |q| ≤ 2 ^ 100 := max_le (by norm_num) hq
  have hleast : 1 / 2 ^ 100 ≤ multipleTolerance * max 1 |q| :=
    le_trans (by linarith) (le_mul_of_one_le_right (by linarith) hone)
  have hmost : multipleTolerance * max 1 |q| ≤ 2 ^ 100 :=
    le_trans (mul_le_of_le_one_left (by linarith) (by linarith)) hlarge
  have hself : |multipleTolerance * (max 1 |q|)| = multipleTolerance * max 1 |q| :=
    abs_of_nonneg (by linarith)
  exact exists_isRounded _ (Or.inr (hself.symm ▸ hleast)) (hself.symm ▸ hmost)

end Errors

section Integers

variable (x m : Int)

/-- The integer is away from some multiple by at most `c` parts in `10^15` of the larger
    of itself and the divisor. -/
def IsNearMultiple (c : Int) : Prop := ∃ k : Int, 10 ^ 15 * |x - k * m| ≤ c * max |x| m

variable (hx : x.natAbs ≤ 2 ^ 64) (hm : m.natAbs ≤ 2 ^ 64) (hpos : 0 < m)

include hpos

/-- The same for the quotient. -/
theorem near_iff_quotient (k c : Int) :
    10 ^ 15 * |x - k * m| ≤ c * max |x| m
      ↔ 10 ^ 15 * |(x / m : Rat) - k| ≤ c * max 1 |(x / m : Rat)| := by
  have hm' : (0 : Rat) < m := Int.cast_pos.mpr hpos
  have hdistance : ((|x - k * m| : Int) : Rat) = |(x / m : Rat) - k| * m := by
    have hsplit : ((x - k * m : Int) : Rat) = ((x / m : Rat) - k) * m := by
      rw [sub_mul, div_mul_cancel₀ _ hm'.ne', Int.cast_sub, Int.cast_mul]
    rw [Int.cast_abs, hsplit, abs_mul, abs_of_pos hm']
  have hsize : ((max |x| m : Int) : Rat) = max 1 |(x / m : Rat)| * m := by
    rw [max_mul_of_nonneg _ _ hm'.le, one_mul, abs_div, abs_of_pos hm', div_mul_cancel₀ _ hm'.ne',
      max_comm, Int.cast_max, Int.cast_abs]
  rw [← Int.cast_le (R := Rat), Int.cast_mul, Int.cast_mul, hdistance, hsize, ← mul_assoc,
    ← mul_assoc, mul_le_mul_iff_left₀ hm', Int.cast_pow, Int.cast_ofNat]

include hx hm

/-- The quotient of two integers is zero or of a moderate size. -/
theorem quotient_range :
    ((x / m : Rat) = 0 ∨ 1 / 2 ^ 64 ≤ |(x / m : Rat)|) ∧ |(x / m : Rat)| ≤ 2 ^ 64 := by
  have hm' : (0 : Rat) < m := Int.cast_pos.mpr hpos
  have hunit : (1 : Rat) ≤ m := by exact_mod_cast hpos
  rw [abs_div, abs_of_pos hm']
  constructor
  · by_cases hzero : x = 0
    · left
      rw [hzero, Int.cast_zero, zero_div]
    · right
      have hone : (1 : Rat) ≤ |(x : Rat)| := by
        rw [← Int.cast_abs]
        exact_mod_cast Int.one_le_abs hzero
      have hlarge := abs_cast_le hm
      rw [abs_of_pos hm'] at hlarge
      exact div_le_div₀ (abs_nonneg _) hone hm' hlarge
  · exact le_trans (div_le_self (abs_nonneg _) hunit) (abs_cast_le hx)

/-- The computed quotient and the computed tolerance are near to the exact ones. -/
theorem exists_quotient :
    ∃ q allowed : Rat, |(x / m : Rat) - q| ≤ 5 * |(x / m : Rat)| / 2 ^ 53
      ∧ |(max 1 |(x / m : Rat)|) / 10 ^ 9 - allowed|
        ≤ 8 * (max 1 |(x / m : Rat)|) / 10 ^ 9 / 2 ^ 53
      ∧ ((ofInt x).isMultipleOf (ofInt m) = true ↔ |q - roundHalfAway q| ≤ allowed) := by
  have hm' : (0 : Rat) < m := Int.cast_pos.mpr hpos
  have hdivisor := abs_sub_ofInt_le hm
  rw [abs_of_pos hm'] at hdivisor
  have hquotient := abs_div_sub_div_le _ _ _ _ hm' (abs_sub_ofInt_le hx) hdivisor
  obtain ⟨hleast, hmost⟩ := quotient_range x m hx hm hpos
  obtain ⟨q, hq, herror⟩ := exists_isRounded_quotient _ _ hquotient hleast hmost
  have hlarge : |q| ≤ 2 ^ 100 := by
    have := abs_sub_abs_le_abs_sub q (x / m)
    rw [abs_sub_comm] at this
    linarith
  obtain ⟨allowed, hallowed, hnear⟩ := exists_isRounded_tolerance q hlarge
  exact ⟨q, allowed, herror, abs_sub_allowed_le _ q allowed herror hnear,
    isMultipleOf_iff _ _ q allowed hq hallowed⟩

/-- What is near enough to a multiple is taken for one. -/
theorem isMultipleOf_of_isNearMultiple (h : IsNearMultiple x m (10 ^ 6 - 1)) :
    (ofInt x).isMultipleOf (ofInt m) = true := by
  obtain ⟨k, hk⟩ := h
  obtain ⟨q, allowed, herror, hallowed, hiff⟩ := exists_quotient x m hx hm hpos
  rw [near_iff_quotient x m hpos] at hk
  rw [hiff]
  have hsize := le_max_right 1 |(x / m : Rat)|
  have hpositive := abs_nonneg (x / m : Rat)
  generalize (x / m : Rat) = y at *
  generalize max 1 |y| = b at *
  have hlow := (abs_le.mp hallowed).2
  calc |q - roundHalfAway q| ≤ |q - k| := abs_sub_roundHalfAway_le q k
    _ ≤ |y - q| + |y - k| := by
        rw [abs_sub_comm y q]
        exact abs_sub_le q y k
    _ ≤ allowed := by
        push_cast at hk
        linarith

/-- What is taken for a multiple is near to one. -/
theorem isNearMultiple_of_isMultipleOf (h : (ofInt x).isMultipleOf (ofInt m) = true) :
    IsNearMultiple x m (10 ^ 6 + 1) := by
  obtain ⟨q, allowed, herror, hallowed, hiff⟩ := exists_quotient x m hx hm hpos
  rw [hiff] at h
  refine ⟨roundHalfAway q, ?_⟩
  rw [near_iff_quotient x m hpos]
  have hsize := le_max_right 1 |(x / m : Rat)|
  have hpositive := abs_nonneg (x / m : Rat)
  generalize (x / m : Rat) = y at *
  generalize max 1 |y| = b at *
  have hhigh := (abs_le.mp hallowed).1
  have htriangle := abs_sub_le y q (roundHalfAway q)
  push_cast
  linarith

end Integers

end Binary64

end OpenApi
