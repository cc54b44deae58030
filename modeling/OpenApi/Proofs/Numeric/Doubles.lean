import OpenApi.Json.Basic
import OpenApi.Proofs.Numeric.Rounding

/-!
# Integers as Doubles

Integers of up to 64 bits are compared and divided as doubles, so each is first
taken to the double nearest to it. Nearest doubles keep the order of what they
are nearest to, whichever way ties go, because a double that is nearest to the
smaller of two numbers cannot lie beyond the middle of the two doubles. They
may fall together, but an integer of at most 53 bits is its own double, and
those are never taken for another integer.

## Theorems

* `IsNearest.le_of_lt`: Nearest doubles keep the order.
* `toRat_ofInt`: Integers of at most 53 bits are doubles.
* `ofInt_le_ofInt`: The nearest double of an integer grows with it.
* `abs_sub_ofInt_le`: The relative error.
* `exists_int_ofInt`: It is an integer.
* `eq_of_toRat_ofInt`: Only long integers fall together.
-/

namespace OpenApi

namespace Binary64

section Order

variable {q q' d d' : Rat}

/-- Of two doubles the larger is nearest only at or above the middle between them. -/
theorem IsNearest.middle_le (h : IsNearest q d) (hd' : IsDouble d') (hlt : d' < d) :
    d + d' ≤ 2 * q := by
  by_contra hmiddle
  have hnear := h.2 d' hd'
  have hfar : |q - d'| < d - q := abs_lt.mpr ⟨by linarith, by linarith⟩
  have hself : d - q ≤ |q - d| := by
    rw [abs_sub_comm]
    exact le_abs_self _
  linarith

/-- The smaller one is nearest only at or below it. -/
theorem IsNearest.le_middle (h : IsNearest q d) (hd' : IsDouble d') (hlt : d < d') :
    2 * q ≤ d + d' := by
  by_contra hmiddle
  have hnear := h.2 d' hd'
  have hfar : |q - d'| < q - d := abs_lt.mpr ⟨by linarith, by linarith⟩
  have hself : q - d ≤ |q - d| := le_abs_self _
  linarith

/-- Nearest doubles keep the order of what they are nearest to. -/
theorem IsNearest.le_of_lt (h : IsNearest q d) (h' : IsNearest q' d') (hq : q < q') : d ≤ d' := by
  by_contra hlt
  rw [not_le] at hlt
  have hlow := h.middle_le h'.1 hlt
  have hhigh := h'.le_middle h.1 hlt
  linarith

/-- The only double nearest to a double is that double. -/
theorem IsNearest.eq_of_isDouble (h : IsNearest q d) (hq : IsDouble q) : d = q := by
  have hnear := h.2 q hq
  rw [sub_self, abs_zero] at hnear
  exact (sub_eq_zero.mp (abs_eq_zero.mp (le_antisymm hnear (abs_nonneg _)))).symm

end Order

section Integers

variable {i j : Int}

theorem abs_cast_le (hi : i.natAbs ≤ 2 ^ 64) : |(i : Rat)| ≤ 2 ^ 64 := by
  rw [← Int.cast_abs, ← Nat.cast_natAbs]
  exact_mod_cast hi

theorem ofRat?_int (hi : i.natAbs ≤ 2 ^ 64) : ofRat? i = some (ofInt i) := by
  have hmost : (2 : Rat) ^ 64 < 2 ^ (1023 : Int) := by
    rw [← zpow_natCast]
    exact zpow_lt_zpow_right₀ (by decide) (by decide)
  obtain ⟨x, hx⟩ := exists_ofRat? i (lt_of_le_of_lt (abs_cast_le hi) hmost)
  unfold ofInt
  rw [hx, Option.getD_some]

theorem isNearest_ofInt (hi : i.natAbs ≤ 2 ^ 64) : IsNearest i (ofInt i).toRat :=
  isNearest_of_ofRat? i _ (ofRat?_int hi)

/-- An integer of at most 53 bits is its own nearest double. -/
theorem toRat_ofInt (hi : i.natAbs ≤ significandBound) : (ofInt i).toRat = i :=
  (isNearest_ofInt (le_trans hi (by decide))).eq_of_isDouble (isDouble_int i hi)

theorem ofInt_le_ofInt (hi : i.natAbs ≤ 2 ^ 64) (hj : j.natAbs ≤ 2 ^ 64) (h : i ≤ j) :
    (ofInt i).toRat ≤ (ofInt j).toRat := by
  rcases h.lt_or_eq with hlt | rfl
  · exact (isNearest_ofInt hi).le_of_lt (isNearest_ofInt hj) (Int.cast_lt.mpr hlt)
  · exact le_refl _

/-- The power of two above the signed integers is a double, so none of them is rounded
    beyond it. -/
theorem toRat_ofInt_le_pow (hi : i.natAbs ≤ 2 ^ 64) (h : i ≤ 2 ^ 63) :
    (ofInt i).toRat ≤ 2 ^ 63 := by
  have hpower : IsDouble ((2 ^ 63 : Int) : Rat) :=
    ⟨1, 63, by decide, by decide, by decide, by norm_num⟩
  have htop := (isNearest_ofInt (i := 2 ^ 63) (by decide)).eq_of_isDouble hpower
  have hle := ofInt_le_ofInt hi (by decide) h
  rw [htop] at hle
  exact_mod_cast hle

theorem abs_sub_ofInt_le (hi : i.natAbs ≤ 2 ^ 64) :
    |(i : Rat) - (ofInt i).toRat| ≤ |(i : Rat)| / 2 ^ 53 := by
  by_cases hzero : i = 0
  · rw [hzero, toRat_ofInt (by decide), sub_self, abs_zero]
    exact div_nonneg (abs_nonneg _) (by decide)
  · refine abs_sub_le_of_ofRat? i _ (ofRat?_int hi) ?_
    have hone : (1 : Rat) ≤ |(i : Rat)| := by
      rw [← Int.cast_abs]
      exact_mod_cast Int.one_le_abs hzero
    exact le_trans (zpow_le_one_of_nonpos₀ (by decide) (by decide)) hone

/-- The nearest double of an integer is an integer. -/
theorem exists_int_ofInt (hi : i.natAbs ≤ 2 ^ 64) : ∃ r : Int, (ofInt i).toRat = r := by
  by_cases hshort : i.natAbs ≤ significandBound
  · exact ⟨i, toRat_ofInt hshort⟩
  · rcases ofRat?_cases i _ (ofRat?_int hi) with ⟨hx, _⟩ | ⟨s, e, hscale, _, _, hx⟩
    · exact ⟨i, hx⟩
    · -- The scale of an integer of more than 53 bits is not negative.
      have hpos : 0 ≤ e := by
        by_contra hneg
        have hone : (2 : Rat) ^ e ≤ 1 := zpow_le_one_of_nonpos₀ (by decide) (by omega)
        have habs : |(i : Rat)| = i.natAbs := by rw [← Int.cast_abs, ← Nat.cast_natAbs]
        have hfits := hscale.fits
        have hlong : (significandBound : Rat) < i.natAbs := by
          exact_mod_cast not_le.mp hshort
        have hbound : (significandBound : Rat) * 2 ^ e ≤ significandBound :=
          mul_le_of_le_one_right (Nat.cast_nonneg _) hone
        linarith
      obtain ⟨n, rfl⟩ := Int.eq_ofNat_of_zero_le hpos
      rw [hx, toRat_eq, zpow_natCast]
      unfold withSign
      split
      · exact ⟨-(s * 2 ^ n), by push_cast; rfl⟩
      · exact ⟨s * 2 ^ n, by push_cast; rfl⟩

/-- Doubles tell an integer of at most 53 bits from all others. -/
theorem eq_of_toRat_ofInt (hi : i.natAbs < significandBound) (hj : j.natAbs ≤ 2 ^ 64)
    (h : (ofInt i).toRat = (ofInt j).toRat) : i = j := by
  have hbound : significandBound ≤ 2 ^ 64 := by decide
  rw [toRat_ofInt hi.le] at h
  rcases lt_trichotomy i j with hlt | heq | hgt
  · have hnext := ofInt_le_ofInt (i := i + 1) (by omega) hj hlt
    rw [toRat_ofInt (by omega), ← h, Int.cast_le] at hnext
    omega
  · exact heq
  · have hnext := ofInt_le_ofInt (j := i - 1) hj (by omega) (by omega)
    rw [toRat_ofInt (i := i - 1) (by omega), ← h, Int.cast_le] at hnext
    omega

end Integers

end Binary64

end OpenApi
