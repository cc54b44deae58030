import Mathlib.Algebra.Order.Field.Power
import Mathlib.Algebra.Order.Field.Rat
import Mathlib.Tactic.Linarith
import OpenApi.Numeric.Binary64

/-!
# Rounding to Doubles

A rational is rounded to a double by writing it as an integer at the scale at
which it fills a significand. What the result has to be is said without a scale:
a double such that no other one is nearer.

The step between the two is that the scale is chosen well. Within the scale the
doubles are the multiples of a power of two, and rounding to an integer gives
the nearest of those. A double at a smaller scale is no competitor, since it
lies below the power of two at which the scale begins, and that power is a
multiple itself.

The error is at most half a unit of the last bit, which is a fixed fraction of
any rational that fills a significand. That is all that arithmetic on several
rounded numbers needs.

## Main definitions

* `IsDouble`: A rational is a double.
* `IsNearest`: A double is nearest to a rational.
* `IsScale`: The scale at which a rational fills a significand.

## Theorems

* `roundHalfEven_near`, `abs_sub_le_of_half`: Rounding to an integer.
* `isScale_scaleOf`: The computed scale is the right one.
* `near_double`, `near_relative`: Rounding at the right scale.
* `isNearest_of_ofRat?`: The rounded rational is a nearest double.
* `abs_sub_le_of_ofRat?`: The relative error.
* `exists_ofRat?`: A rational within the range is rounded to something.
-/

namespace OpenApi

namespace Binary64

/-- The rational is a double: a significand of at most 53 bits at a scale of the format. -/
def IsDouble (q : Rat) : Prop :=
  ∃ k e : Int, k.natAbs < significandBound ∧ minExponent ≤ e ∧ e ≤ maxExponent
    ∧ q = k * (2 : Rat) ^ e

/-- The rational `d` is a double, and no double is nearer to `q`. -/
def IsNearest (q d : Rat) : Prop := IsDouble d ∧ ∀ d', IsDouble d' → |q - d| ≤ |q - d'|

theorem scaled_eq (significand : Nat) (e : Int) :
    scaled significand e = significand * (2 : Rat) ^ e := by
  unfold scaled
  split
  · rename_i he
    obtain ⟨n, rfl⟩ := Int.eq_ofNat_of_zero_le he
    rw [Int.toNat_natCast, Nat.shiftLeft_eq, zpow_natCast, Nat.cast_mul, Nat.cast_pow,
      Nat.cast_ofNat]
  · obtain ⟨n, rfl⟩ : ∃ n : Nat, e = -(n : Int) := ⟨(-e).toNat, by omega⟩
    rw [neg_neg, Int.toNat_natCast, Nat.shiftLeft_eq, Nat.one_mul, Rat.mkRat_eq_div, zpow_neg,
      zpow_natCast, Int.cast_natCast, Nat.cast_pow, Nat.cast_ofNat, div_eq_mul_inv]

theorem two_zpow_pos (e : Int) : (0 : Rat) < 2 ^ e := zpow_pos (by decide) e

section Integer

/-- An integer that is at most a half away is nearest, since different integers are at
    least one apart. -/
theorem abs_sub_le_of_half (a : Rat) (i j : Int) (hi : |a - i| ≤ 1 / 2) : |a - i| ≤ |a - j| := by
  by_cases hj : j = i
  · rw [hj]
  · have hapart : (1 : Rat) ≤ |(i : Rat) - j| := by
      exact_mod_cast Int.one_le_abs (sub_ne_zero.mpr (Ne.symm hj))
    have htriangle : |(i : Rat) - j| ≤ |a - i| + |a - j| := by
      rw [abs_sub_comm a (i : Rat)]
      exact abs_sub_le _ _ _
    linarith

/-- An integer within half a denominator of a numerator is within a half of the quotient. -/
theorem abs_div_sub_le_half (num den i : Nat) (hden : 0 < den)
    (hlow : 2 * num ≤ 2 * (i * den) + den) (hhigh : 2 * (i * den) ≤ 2 * num + den) :
    |(num : Rat) / den - i| ≤ 1 / 2 := by
  have hpos : (0 : Rat) < den := Nat.cast_pos.mpr hden
  have hlow : (2 : Rat) * num ≤ 2 * (i * den) + den := by exact_mod_cast hlow
  have hhigh : (2 : Rat) * (i * den) ≤ 2 * num + den := by exact_mod_cast hhigh
  rw [abs_le]
  constructor
  · rw [le_sub_iff_add_le, le_div_iff₀ hpos]
    linarith
  · rw [sub_le_iff_le_add, div_le_iff₀ hpos]
    linarith

theorem roundHalfEven_near (num den : Nat) (hden : 0 < den) :
    |(num : Rat) / den - roundHalfEven num den| ≤ 1 / 2 := by
  have hsplit : num / den * den + num % den = num := Nat.div_add_mod' num den
  have hlt : num % den < den := Nat.mod_lt num hden
  have hnext : (num / den + 1) * den = num / den * den + den := Nat.succ_mul _ _
  refine abs_div_sub_le_half num den _ hden ?_ ?_
  · unfold roundHalfEven
    dsimp only
    split_ifs <;> omega
  · unfold roundHalfEven
    dsimp only
    split_ifs <;> omega

theorem significandAt_near (num den : Nat) (e : Int) (hden : 0 < den) :
    |(num : Rat) / den / 2 ^ e - significandAt num den e| ≤ 1 / 2 := by
  unfold significandAt
  split
  · rename_i he
    obtain ⟨n, rfl⟩ := Int.eq_ofNat_of_zero_le he
    have hscaled : 0 < den <<< n := by
      rw [Nat.shiftLeft_eq]
      exact Nat.mul_pos hden (Nat.two_pow_pos n)
    have hnear := roundHalfEven_near num (den <<< n) hscaled
    rw [Int.toNat_natCast, zpow_natCast, div_div]
    rwa [Nat.shiftLeft_eq, Nat.cast_mul, Nat.cast_pow, Nat.cast_ofNat, ← Nat.shiftLeft_eq] at hnear
  · obtain ⟨n, rfl⟩ : ∃ n : Nat, e = -(n : Int) := ⟨(-e).toNat, by omega⟩
    have hnear := roundHalfEven_near (num <<< n) den hden
    rw [neg_neg, Int.toNat_natCast, zpow_neg, zpow_natCast, div_inv_eq_mul, div_mul_eq_mul_div]
    rwa [Nat.shiftLeft_eq, Nat.cast_mul, Nat.cast_pow, Nat.cast_ofNat, ← Nat.shiftLeft_eq] at hnear

end Integer

section Scale

/-- The scale at which a positive rational fills a significand, or the smallest
    scale for a rational too small to fill one. -/
structure IsScale (m : Rat) (e : Int) : Prop where
  /-- The scale is one of the format. -/
  least : minExponent ≤ e
  /-- The significand has at most 53 bits before the point. -/
  fits : m < significandBound * (2 : Rat) ^ e
  /-- It has all of them, if the scale could be smaller. -/
  full : e = minExponent ∨ 2 ^ 52 * (2 : Rat) ^ e ≤ m

theorem fitsAt_iff (num den : Nat) (e : Int) (hden : 0 < den) :
    fitsAt num den e = true ↔ (num : Rat) / den < significandBound * (2 : Rat) ^ e := by
  have hpos : (0 : Rat) < den := Nat.cast_pos.mpr hden
  unfold fitsAt
  split
  · rename_i he
    obtain ⟨n, rfl⟩ := Int.eq_ofNat_of_zero_le he
    rw [decide_eq_true_eq, div_lt_iff₀ hpos, zpow_natCast, Int.toNat_natCast, Nat.shiftLeft_eq,
      ← Nat.cast_lt (α := Rat), Nat.cast_mul, Nat.cast_mul, Nat.cast_pow, Nat.cast_ofNat,
      mul_comm (den : Rat), mul_assoc]
  · obtain ⟨n, rfl⟩ : ∃ n : Nat, e = -(n : Int) := ⟨(-e).toNat, by omega⟩
    have hscale : (0 : Rat) < 2 ^ n := pow_pos (by decide) n
    rw [decide_eq_true_eq, zpow_neg, zpow_natCast, neg_neg, Int.toNat_natCast, Nat.shiftLeft_eq,
      ← Nat.cast_lt (α := Rat), Nat.cast_mul, Nat.cast_mul, Nat.cast_pow, Nat.cast_ofNat,
      ← div_eq_mul_inv, div_lt_div_iff₀ hpos hscale]

/-- A positive natural number lies between the power of two of its logarithm and the next. -/
theorem cast_log2_bounds (n : Nat) (hn : 0 < n) :
    (2 : Rat) ^ (n.log2 : Int) ≤ n ∧ (n : Rat) < 2 ^ ((n.log2 : Int) + 1) := by
  have hlow : 2 ^ n.log2 ≤ n := Nat.log2_self_le hn.ne'
  have hhigh : n < 2 ^ (n.log2 + 1) := Nat.lt_log2_self
  rw [← Nat.cast_succ, zpow_natCast, zpow_natCast]
  exact ⟨by exact_mod_cast hlow, by exact_mod_cast hhigh⟩

/-- The difference of the logarithms gives the size of a quotient up to a factor of two. -/
theorem div_log2_bounds (num den : Nat) (hnum : 0 < num) (hden : 0 < den) :
    (2 : Rat) ^ ((num.log2 : Int) - den.log2 - 1) ≤ (num : Rat) / den
      ∧ (num : Rat) / den < 2 ^ ((num.log2 : Int) - den.log2 + 1) := by
  obtain ⟨hnumLow, hnumHigh⟩ := cast_log2_bounds num hnum
  obtain ⟨hdenLow, hdenHigh⟩ := cast_log2_bounds den hden
  have hpos : (0 : Rat) < den := Nat.cast_pos.mpr hden
  rw [le_div_iff₀ hpos, div_lt_iff₀ hpos]
  constructor
  · calc (2 : Rat) ^ ((num.log2 : Int) - den.log2 - 1) * den
        ≤ 2 ^ ((num.log2 : Int) - den.log2 - 1) * 2 ^ ((den.log2 : Int) + 1) :=
          mul_le_mul_of_nonneg_left hdenHigh.le (two_zpow_pos _).le
      _ = 2 ^ (num.log2 : Int) := by
          rw [← zpow_add₀ (by decide)]
          congr 1
          omega
      _ ≤ num := hnumLow
  · calc (num : Rat) < 2 ^ ((num.log2 : Int) + 1) := hnumHigh
      _ = 2 ^ ((num.log2 : Int) - den.log2 + 1) * 2 ^ (den.log2 : Int) := by
          rw [← zpow_add₀ (by decide)]
          congr 1
          omega
      _ ≤ 2 ^ ((num.log2 : Int) - den.log2 + 1) * den :=
          mul_le_mul_of_nonneg_left hdenLow (two_zpow_pos _).le

theorem significandBound_zpow (e : Int) :
    (significandBound : Rat) * 2 ^ e = 2 ^ (e + 53) := by
  have hbound : significandBound = 2 ^ 53 := rfl
  rw [hbound, Nat.cast_pow, Nat.cast_ofNat, ← zpow_natCast, ← zpow_add₀ (by decide), add_comm]
  rfl

theorem halfBound_zpow (e : Int) : (2 : Rat) ^ 52 * 2 ^ e = 2 ^ (e + 52) := by
  rw [← zpow_natCast, ← zpow_add₀ (by decide), add_comm]
  rfl

/-- The computed scale is the scale of the quotient. -/
theorem isScale_scaleOf (num den : Nat) (hnum : 0 < num) (hden : 0 < den) :
    IsScale ((num : Rat) / den) (scaleOf num den) := by
  obtain ⟨hlow, hhigh⟩ := div_log2_bounds num den hnum hden
  have hmono := fun {a b : Int} (h : a ≤ b) => zpow_le_zpow_right₀ (a := (2 : Rat)) (by decide) h
  unfold scaleOf
  dsimp only
  generalize hleast : max ((num.log2 : Int) - den.log2 - (precision : Int)) minExponent = low
  have hprecision : (precision : Int) = 53 := rfl
  split
  · -- The lower of the two scales fits, and it is not too high, unless it is the least one
    -- anyway.
    rename_i hfits
    refine ⟨by omega, (fitsAt_iff num den low hden).mp hfits, ?_⟩
    by_cases hmin : low = minExponent
    · exact Or.inl hmin
    · refine Or.inr ((halfBound_zpow low).trans_le (le_trans (hmono ?_) hlow))
      omega
  · rename_i hfits
    -- Otherwise the quotient is too large for it, so the next one is not too high, and it fits.
    rw [fitsAt_iff num den low hden, not_lt, significandBound_zpow] at hfits
    refine ⟨by omega, ?_, Or.inr ?_⟩
    · rw [significandBound_zpow]
      refine lt_of_lt_of_le hhigh (hmono ?_)
      omega
    · rw [halfBound_zpow, add_assoc]
      exact hfits

end Scale

section Nearest

variable {m : Rat} {e : Int} {s : Nat}

/-- Distances at a scale are the distances of the significands, scaled. -/
theorem abs_sub_scaled (m t : Rat) (e : Int) : |m - t * 2 ^ e| = |m / 2 ^ e - t| * 2 ^ e := by
  have hpos := two_zpow_pos e
  rw [← abs_of_pos hpos, ← abs_mul, abs_of_pos hpos, sub_mul, div_mul_cancel₀ _ hpos.ne']

/-- At its own scale, a rational is nearest to the multiple it is rounded to. -/
theorem near_grid (hs : |m / 2 ^ e - s| ≤ 1 / 2) (j : Int) :
    |m - s * 2 ^ e| ≤ |m - j * 2 ^ e| := by
  rw [abs_sub_scaled, abs_sub_scaled]
  exact mul_le_mul_of_nonneg_right (abs_sub_le_of_half (m / 2 ^ e) s j hs) (two_zpow_pos e).le

/-- The rounded significand may need one bit more, but then it is a power of two. -/
theorem significand_le (hscale : IsScale m e) (hs : |m / 2 ^ e - s| ≤ 1 / 2) :
    s ≤ significandBound := by
  have hpos := two_zpow_pos e
  have hm : m / 2 ^ e < significandBound := (div_lt_iff₀ hpos).mpr hscale.fits
  have hupper := (abs_le.mp hs).1
  have hlt : (s : Rat) < (significandBound + 1 : Nat) := by
    rw [Nat.cast_succ]
    linarith
  exact Nat.lt_succ_iff.mp (Nat.cast_lt.mp hlt)

/-- Rounding at the scale of a rational gives a double that is nearest to it. -/
theorem near_double (hscale : IsScale m e) (hs : |m / 2 ^ e - s| ≤ 1 / 2) (d : Rat)
    (hd : IsDouble d) : |m - s * 2 ^ e| ≤ |m - d| := by
  obtain ⟨k, f, hk, hleast, _, rfl⟩ := hd
  by_cases hf : e ≤ f
  · -- A double at a larger scale is a multiple at this one.
    obtain ⟨n, rfl⟩ := Int.le.dest hf
    have hmultiple : (k : Rat) * 2 ^ (e + n) = ((k * 2 ^ n : Int) : Rat) * 2 ^ e := by
      rw [zpow_add₀ (by decide), zpow_natCast, Int.cast_mul, Int.cast_pow, Int.cast_ofNat,
        mul_comm ((2 : Rat) ^ e), mul_assoc]
    rw [hmultiple]
    exact near_grid hs _
  · -- A double at a smaller scale lies below the power of two that the rational reaches.
    have hfull : 2 ^ 52 * (2 : Rat) ^ e ≤ m := hscale.full.resolve_left (by omega)
    have hpower := near_grid hs (2 ^ 52)
    rw [Int.cast_pow, Int.cast_ofNat, abs_of_nonneg (sub_nonneg.mpr hfull)] at hpower
    have hsmall : (k : Rat) * 2 ^ f ≤ 2 ^ 52 * 2 ^ e := by
      have hkle : (k : Rat) ≤ significandBound := by
        exact_mod_cast (show k ≤ (significandBound : Int) by omega)
      calc (k : Rat) * 2 ^ f ≤ significandBound * 2 ^ f :=
            mul_le_mul_of_nonneg_right hkle (two_zpow_pos f).le
        _ = 2 ^ (f + 53) := significandBound_zpow f
        _ ≤ 2 ^ (e + 52) := zpow_le_zpow_right₀ (by decide) (by omega)
        _ = 2 ^ 52 * 2 ^ e := (halfBound_zpow e).symm
    calc |m - s * 2 ^ e| ≤ m - 2 ^ 52 * 2 ^ e := hpower
      _ ≤ m - k * 2 ^ f := by linarith
      _ ≤ |m - k * 2 ^ f| := le_abs_self _

/-- The error is at most half a unit of the last bit, so it is small for a rational that
    fills a significand. -/
theorem near_relative (hscale : IsScale m e) (hs : |m / 2 ^ e - s| ≤ 1 / 2)
    (hm : (2 : Rat) ^ (-1022 : Int) ≤ m) : |m - s * 2 ^ e| ≤ m / 2 ^ 53 := by
  have hpos := two_zpow_pos e
  have hfull : 2 ^ 52 * (2 : Rat) ^ e ≤ m := by
    rcases hscale.full with rfl | hfull
    · exact (halfBound_zpow _).trans_le hm
    · exact hfull
  calc |m - s * 2 ^ e| = |m / 2 ^ e - s| * 2 ^ e := abs_sub_scaled m s e
    _ ≤ 1 / 2 * 2 ^ e := mul_le_mul_of_nonneg_right hs hpos.le
    _ ≤ m / 2 ^ 53 := by linarith

end Nearest

section Rounding

theorem abs_eq_div (q : Rat) : |q| = (q.num.natAbs : Rat) / q.den := by
  have hden : (0 : Rat) < q.den := Nat.cast_pos.mpr q.den_pos
  rw [eq_div_iff hden.ne', Nat.cast_natAbs, Int.cast_abs, ← Rat.mul_den_eq_num q, abs_mul,
    abs_of_pos hden]

/-- The rational with a sign and a size. -/
def withSign (negative : Bool) (size : Rat) : Rat := if negative then -size else size

theorem toRat_eq (negative : Bool) (significand : Nat) (e : Int) :
    toRat ⟨negative, significand, e⟩ = withSign negative (significand * (2 : Rat) ^ e) := by
  unfold toRat withSign
  rw [scaled_eq]

theorem withSign_withSign (negative : Bool) (q : Rat) :
    withSign negative (withSign negative q) = q := by
  cases negative with
  | false => rfl
  | true => exact neg_neg q

theorem withSign_abs (q : Rat) : withSign (decide (q.num < 0)) |q| = q := by
  unfold withSign
  by_cases hq : q < 0
  · rw [if_pos (decide_eq_true (Rat.num_neg.mpr hq)), abs_of_neg hq, neg_neg]
  · have hnum : ¬ q.num < 0 := fun h => hq (Rat.num_neg.mp h)
    rw [decide_eq_false hnum, if_neg Bool.false_ne_true, abs_of_nonneg (not_lt.mp hq)]

/-- The distance to a rational of the same sign is the distance of the sizes. -/
theorem abs_sub_withSign (q size : Rat) :
    |q - withSign (decide (q.num < 0)) size| = |(|q| - size)| := by
  have hsub : ∀ b, |withSign b |q| - withSign b size| = |(|q| - size)| := by
    intro b
    cases b with
    | false => rfl
    | true =>
        change |-|q| - -size| = _
        rw [neg_sub_neg, abs_sub_comm]
  rw [← hsub (decide (q.num < 0)), withSign_abs]

theorem isDouble_withSign (negative : Bool) (d : Rat) (hd : IsDouble d) :
    IsDouble (withSign negative d) := by
  cases negative with
  | false => exact hd
  | true =>
      obtain ⟨k, e, hk, hleast, hmost, rfl⟩ := hd
      refine ⟨-k, e, by rwa [Int.natAbs_neg], hleast, hmost, ?_⟩
      rw [Int.cast_neg, neg_mul]
      rfl

/-- A significand of 53 bits or the power of two behind them, within the range. -/
theorem isDouble_significand (s : Nat) (e : Int) (hs : s ≤ significandBound)
    (hleast : minExponent ≤ e)
    (hmost : e < maxExponent ∨ e = maxExponent ∧ s < significandBound) :
    IsDouble (s * (2 : Rat) ^ e) := by
  by_cases hfull : s = significandBound
  · refine ⟨2 ^ 52, e + 1, by decide, by omega, by omega, ?_⟩
    rw [hfull, significandBound_zpow, Int.cast_pow, Int.cast_ofNat, halfBound_zpow, add_assoc]
    rfl
  · refine ⟨s, e, ?_, hleast, by omega, ?_⟩
    · rw [Int.natAbs_natCast]
      omega
    · rw [Int.cast_natCast]

/-- A rational that is no short integer is not zero, so it has a scale. -/
theorem isScale_of_long (q : Rat) (h : ¬ (q.den = 1 ∧ q.num.natAbs ≤ significandBound)) :
    IsScale |q| (scaleOf q.num.natAbs q.den) := by
  have hnum : 0 < q.num.natAbs := by
    refine Nat.pos_of_ne_zero fun hzero => h ?_
    rw [Int.natAbs_eq_zero, Rat.num_eq_zero] at hzero
    rw [hzero]
    decide
  rw [abs_eq_div]
  exact isScale_scaleOf _ _ hnum q.den_pos

theorem isDouble_int (i : Int) (h : i.natAbs ≤ significandBound) : IsDouble i := by
  have hdouble := isDouble_significand i.natAbs 0 h (by decide) (Or.inl (by decide))
  rw [zpow_zero, mul_one, Nat.cast_natAbs, Int.cast_abs] at hdouble
  rw [← withSign_abs i]
  exact isDouble_withSign _ _ hdouble

theorem negative_of_ofRat? (q : Rat) (x : Binary64) (h : ofRat? q = some x) :
    x.negative = decide (q.num < 0) := by
  unfold ofRat? at h
  dsimp only at h
  split at h
  · rw [← Option.some.inj h]
  · split at h
    · exact absurd h (by simp only [reduceCtorEq, not_false_eq_true])
    · rw [← Option.some.inj h]

/-- What rounding does: a short integer stays, and any other rational is rounded to an
    integer at its own scale. -/
theorem ofRat?_cases (q : Rat) (x : Binary64) (h : ofRat? q = some x) :
    (x.toRat = q ∧ ∃ i : Int, q = i ∧ i.natAbs ≤ significandBound)
      ∨ ∃ (s : Nat) (e : Int), IsScale |q| e ∧ |(|q| / 2 ^ e - s)| ≤ 1 / 2
        ∧ (e < maxExponent ∨ e = maxExponent ∧ s < significandBound)
        ∧ x = ⟨decide (q.num < 0), s, e⟩ := by
  unfold ofRat? at h
  dsimp only at h
  split at h
  · rename_i hshort
    left
    -- A denominator of one makes it an integer, which is kept as it is at the scale of one.
    have hint : q = q.num := ((Rat.den_eq_one_iff q).mp hshort.1).symm
    refine ⟨?_, q.num, hint, hshort.2⟩
    have habs : |q| = (q.num.natAbs : Nat) * (2 : Rat) ^ (0 : Int) := by
      rw [abs_eq_div, hshort.1, Nat.cast_one, div_one, zpow_zero, mul_one]
    rw [← Option.some.inj h, toRat_eq, ← habs, withSign_abs]
  · rename_i hlong
    right
    split at h
    · exact absurd h (by simp only [reduceCtorEq, not_false_eq_true])
    · rename_i hrange
      rw [not_or, not_lt] at hrange
      refine ⟨_, _, isScale_of_long q hlong, ?_, by omega, (Option.some.inj h).symm⟩
      rw [abs_eq_div q]
      exact significandAt_near _ _ _ q.den_pos

/-- The rounded rational is a nearest double. -/
theorem isNearest_of_ofRat? (q : Rat) (x : Binary64) (h : ofRat? q = some x) :
    IsNearest q x.toRat := by
  rcases ofRat?_cases q x h with ⟨hx, i, hi, hshort⟩ | ⟨s, e, hscale, hs, hrange, rfl⟩
  · rw [hx]
    refine ⟨hi ▸ isDouble_int i hshort, fun d _ => ?_⟩
    rw [sub_self, abs_zero]
    exact abs_nonneg _
  · have hdouble := isDouble_significand s e (significand_le hscale hs) hscale.least hrange
    rw [toRat_eq]
    refine ⟨isDouble_withSign _ _ hdouble, fun d hd => ?_⟩
    have hnear := near_double hscale hs _ (isDouble_withSign (decide (q.num < 0)) d hd)
    rwa [← abs_sub_withSign, ← abs_sub_withSign, withSign_withSign] at hnear

/-- The relative error of rounding is at most half a unit of the last bit. -/
theorem abs_sub_le_of_ofRat? (q : Rat) (x : Binary64) (h : ofRat? q = some x)
    (hq : (2 : Rat) ^ (-1022 : Int) ≤ |q|) : |q - x.toRat| ≤ |q| / 2 ^ 53 := by
  rcases ofRat?_cases q x h with ⟨hx, _⟩ | ⟨s, e, hscale, hs, _, rfl⟩
  · rw [hx, sub_self, abs_zero]
    exact div_nonneg (abs_nonneg q) (by decide)
  · rw [toRat_eq, abs_sub_withSign]
    exact near_relative hscale hs hq

/-- A rational within the range has a nearest double. -/
theorem exists_ofRat? (q : Rat) (hq : |q| < (2 : Rat) ^ (1023 : Int)) :
    ∃ x, ofRat? q = some x := by
  unfold ofRat?
  dsimp only
  split
  · exact ⟨_, rfl⟩
  · rename_i hlong
    have hscale := isScale_of_long q hlong
    have hsmall : scaleOf q.num.natAbs q.den < maxExponent := by
      rcases hscale.full with hleast | hfull
      · rw [hleast]
        decide
      · rw [halfBound_zpow] at hfull
        have hlt := (zpow_lt_zpow_iff_right₀ (a := (2 : Rat)) (by decide)).mp
          (lt_of_le_of_lt hfull hq)
        have hmost : maxExponent = 971 := rfl
        omega
    rw [if_neg (by omega)]
    exact ⟨_, rfl⟩

end Rounding

end Binary64

end OpenApi
