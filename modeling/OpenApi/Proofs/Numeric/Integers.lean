import Mathlib.Data.Nat.Digits.Defs
import OpenApi.Proofs.Numeric.Doubles
import OpenApi.SchemaType

/-!
# Spelled Integers

The decimal spelling of an integer is read as a double, and the double has no
fraction, so that an integer is made of it again. What comes back is an integer
and not a number that is equal to it, but it is the nearest double. As far as
doubles hold every integer that is the integer itself, and of the longer ones
only some come back.

A double as large as `2^63` is too large to be made an integer of and stays a
double, so the integers that are rounded to it come back as that.

## Theorems

* `Decimal.read?_toString`: The spelling is read as its sign and its digits.
* `Decimal.toBinary64?_int`: The digits are rounded once.
* `Number.ofText?_int`: The nearest double comes back, as an integer.
* `Number.ofText?_toString`: Short integers come back themselves.
* `SchemaType.convert?_toString`: What a text converted to an integer is.
-/

namespace OpenApi

theorem Text.trim_of_not_blank (cs : List Char) (h : ∀ c ∈ cs, isBlank c = false) :
    trim cs = cs := by
  have hdrop : ∀ ds : List Char, (∀ c ∈ ds, isBlank c = false) → ds.dropWhile isBlank = ds := by
    intro ds hds
    cases ds with
    | nil => rfl
    | cons c rest =>
        exact List.dropWhile_cons_of_neg (Bool.eq_false_iff.mp (hds c List.mem_cons_self))
  unfold trim trimBy
  rw [hdrop cs h, hdrop cs.reverse fun c hc => h c (List.mem_reverse.mp hc), List.reverse_reverse]

theorem Text.not_blank_of_isDigit (c : Char) (h : c.isDigit = true) : isBlank c = false := by
  unfold Char.isDigit at h
  rw [Bool.and_eq_true, decide_eq_true_eq, decide_eq_true_eq] at h
  have hlow : 48 ≤ c.toNat := h.1
  have hhigh : c.toNat ≤ 57 := h.2
  unfold isBlank
  simp only [Bool.or_eq_false_iff, Bool.and_eq_false_iff, decide_eq_false_iff_not,
    beq_eq_false_iff_ne]
  omega

namespace Decimal

/-- The sign in front of an integer. -/
def signText (i : Int) : List Char := if i < 0 then ['-'] else []

theorem toList_toString (i : Int) :
    (toString i).toList = signText i ++ Nat.toDigits 10 i.natAbs := by
  rcases i with n | n
  · have hsign : signText (Int.ofNat n) = [] := if_neg (Int.not_lt.mpr (Int.natCast_nonneg n))
    rw [hsign]
    exact Nat.toList_repr
  · have hsign : signText (Int.negSucc n) = ['-'] := if_pos (Int.negSucc_lt_zero n)
    rw [hsign]
    exact (String.toList_append).trans (congrArg _ Nat.toList_repr)

theorem mem_toString (i : Int) (c : Char) (h : c ∈ (toString i).toList) :
    c = '-' ∨ c.isDigit = true := by
  rw [toList_toString] at h
  rcases List.mem_append.mp h with hsign | hdigit
  · unfold signText at hsign
    split at hsign
    · exact Or.inl (List.mem_singleton.mp hsign)
    · exact absurd hsign List.not_mem_nil
  · exact Or.inr (Nat.isDigit_of_mem_toDigits (by decide) (by decide) hdigit)

theorem toString_ne_empty (i : Int) : toString i ≠ "" := by
  intro h
  have hnil : (toString i).toList = [] := by
    rw [h]
    rfl
  rw [toList_toString, List.append_eq_nil_iff] at hnil
  exact Nat.toDigits_ne_nil hnil.2

/-- Digits have no sign in front of them. -/
theorem splitSign_toDigits (n : Nat) : splitSign (Nat.toDigits 10 n) = (false, Nat.toDigits 10 n) := by
  have hdigit : ∀ c ∈ Nat.toDigits 10 n, c.isDigit = true := fun c hc =>
    Nat.isDigit_of_mem_toDigits (by decide) (by decide) hc
  generalize Nat.toDigits 10 n = digits at hdigit ⊢
  rcases digits with _ | ⟨c, rest⟩
  · rfl
  · have hc := hdigit c List.mem_cons_self
    unfold splitSign
    split
    · rename_i hplus
      exact absurd ((List.cons.inj hplus).1 ▸ hc) (by decide)
    · rename_i hminus
      exact absurd ((List.cons.inj hminus).1 ▸ hc) (by decide)
    · rfl

theorem splitSign_append (i : Int) (n : Nat) :
    splitSign (signText i ++ Nat.toDigits 10 n) = (decide (i < 0), Nat.toDigits 10 n) := by
  unfold signText
  by_cases hi : i < 0
  · rw [if_pos hi, decide_eq_true hi]
    rfl
  · rw [if_neg hi, decide_eq_false hi, List.nil_append, splitSign_toDigits]

theorem readUnsigned?_toDigits (n : Nat) : readUnsigned? (Nat.toDigits 10 n) = some (n, 0) := by
  have hsplit : splitDigits (Nat.toDigits 10 n) = (Nat.toDigits 10 n, []) := by
    have hdigit : ∀ c ∈ Nat.toDigits 10 n, c.isDigit = true := fun c hc =>
      Nat.isDigit_of_mem_toDigits (by decide) (by decide) hc
    have htake := @List.takeWhile_append_of_pos _ _ _ [] hdigit
    have hdrop := @List.dropWhile_append_of_pos _ _ _ [] hdigit
    rw [List.append_nil] at htake hdrop
    rw [List.takeWhile_nil, List.append_nil] at htake
    unfold splitDigits
    rw [htake, hdrop, List.dropWhile_nil]
  have hvalue : digitsValue 0 (Nat.toDigits 10 n) = n :=
    Nat.ofDigitChars_toDigits (by decide) (by decide)
  have hempty : (Nat.toDigits 10 n).isEmpty = false :=
    List.isEmpty_eq_false_iff.mpr Nat.toDigits_ne_nil
  unfold readUnsigned?
  simp only [hsplit, hempty, Bool.false_eq_true, false_and, if_false, readExponent?, hvalue,
    bind, Option.bind_some, pure]
  rfl

/-- The spelling of an integer is read as its sign and its digits. -/
theorem read?_toString (i : Int) :
    read? (toString i).toList = some ⟨decide (i < 0), i.natAbs, 0⟩ := by
  unfold read?
  rw [toList_toString, splitSign_append]
  simp only [readUnsigned?_toDigits, Option.map_some]

/-- A sign with an absolute value is the integer that has them. -/
theorem signed_natAbs (i : Int) :
    (if decide (i < 0) = true then -((i.natAbs : Nat) : Rat) else ((i.natAbs : Nat) : Rat)) = i := by
  rcases i with n | n
  · rw [if_neg (by rw [decide_eq_true_eq]; exact Int.not_lt.mpr (Int.natCast_nonneg n))]
    exact (Rat.intCast_natCast n).symm
  · rw [if_pos (decide_eq_true (Int.negSucc_lt_zero n)), Int.natAbs_negSucc, Int.negSucc_eq,
      Rat.intCast_neg]
    exact congrArg _ (Rat.intCast_natCast (n + 1)).symm

/-- Reading an integer of up to 64 bits ends in its nearest double. -/
theorem toBinary64?_int (i : Int) (h : i.natAbs ≤ 2 ^ 64) :
    toBinary64? ⟨decide (i < 0), i.natAbs, 0⟩ = some (Binary64.ofInt i) := by
  have hcount : digitCount i.natAbs ≤ 20 :=
    Nat.toDigits_length 10 i.natAbs 20 (by decide) (lt_of_le_of_lt h (by decide))
  have hrat : toRat ⟨decide (i < 0), i.natAbs, 0⟩ = (i : Rat) := by
    have hsize : i.natAbs * Nat.pow 10 (0 : Int).toNat = i.natAbs := Nat.mul_one _
    unfold toRat
    simp only [Int.le_refl, if_true, hsize]
    exact signed_natAbs i
  have hround := Binary64.ofRat?_int h
  have hsign := Binary64.negative_of_ofRat? _ _ hround
  rw [Rat.num_intCast] at hsign
  unfold toBinary64?
  by_cases hzero : i.natAbs = 0
  · rw [if_pos hzero, Int.natAbs_eq_zero.mp hzero]
    rfl
  · rw [if_neg hzero]
    dsimp only
    rw [if_neg (by omega), if_neg (by omega), hrat, hround, Option.map_some, ← hsign]

end Decimal

/-- The integer that a double without a fraction stands for. -/
theorem Binary64.toInt?_of_toRat (x : Binary64) (r : Int) (h : x.toRat = r) :
    x.toInt? = some r := by
  unfold toInt?
  rw [h, Rat.num_intCast, Rat.den_intCast]
  rfl

/-- The spelling of an integer of up to 64 bits is read as its nearest double, which is an
    integer again if it has fewer than 64 bits with its sign. -/
theorem Number.ofText?_int (i r : Int) (h : i.natAbs ≤ 2 ^ 64)
    (hr : (Binary64.ofInt i).toRat = r) :
    ofText? (toString i)
      = some (if r.natAbs < 1 <<< 63 then .int r else .real (Binary64.ofInt i)) := by
  have htrim : Text.trim (toString i).toList = (toString i).toList := by
    refine Text.trim_of_not_blank _ fun c hc => ?_
    rcases Decimal.mem_toString i c hc with rfl | hdigit
    · decide
    · exact Text.not_blank_of_isDigit c hdigit
  unfold Number.ofText?
  rw [htrim, Decimal.read?_toString]
  simp only [bind, Option.bind_some, Decimal.toBinary64?_int i h,
    Binary64.toInt?_of_toRat _ r hr, pure]
  split <;> rfl

/-- The spelling of an integer that a double can hold is read as that integer. -/
theorem Number.ofText?_toString (i : Int) (h : i.natAbs ≤ 2 ^ 53) :
    Number.ofText? (toString i) = some (.int i) := by
  rw [ofText?_int i i (le_trans h (by decide)) (Binary64.toRat_ofInt h),
    if_pos (lt_of_le_of_lt h (by decide))]

theorem Json.ofInt_inj (i j : Int) : ofInt i = ofInt j ↔ i = j := by
  simp only [ofInt, number.injEq, Number.int.injEq]

section Conversion

variable {t : SchemaType} (ht : t = .integer ∨ t = .number)

include ht

theorem SchemaType.convert?_number (text : String) (n : Number) (h : Number.ofText? text = some n) :
    t.convert? (some (.string text)) = some (.number n) := by
  rcases ht with rfl | rfl
  · change some ((((Number.ofText? text).map Json.number).getD (.string text))) = _
    rw [h]
    rfl
  · change some ((((Number.ofText? text).map Json.number).getD (.string text))) = _
    rw [h]
    rfl

/-- The spelling of an integer of the signed 64-bit range is converted to the double
    nearest to it: as an integer, if it is in that range, and as a double, if it is the
    power of two above it. So the integer itself comes back exactly if it is a double.
    Nothing is said of the integers that are rounded to the lower end of the range. -/
theorem SchemaType.convert?_toString (i : Int) (hlow : -2 ^ 63 ≤ i) (hhigh : i < 2 ^ 63) :
    ∃ r : Int, Binary64.IsNearest i r ∧ (Binary64.ofInt i).toRat = r
      ∧ (-2 ^ 63 < r → r < 2 ^ 63 → t.convert? (some (.string (toString i))) = some (.ofInt r))
      ∧ (r = 2 ^ 63 → t.convert? (some (.string (toString i)))
          = some (.number (.real (Binary64.ofInt i))))
      ∧ (-2 ^ 63 < r →
          (t.convert? (some (.string (toString i))) = some (.ofInt i) ↔ Binary64.IsDouble i))
      ∧ (i.natAbs ≤ 2 ^ 53 → t.convert? (some (.string (toString i))) = some (.ofInt i)) := by
  have hfits : i.natAbs ≤ 2 ^ 64 := by omega
  obtain ⟨r, hr⟩ := Binary64.exists_int_ofInt hfits
  have hnear : Binary64.IsNearest i r := hr ▸ Binary64.isNearest_ofInt hfits
  have hconvert := convert?_number ht _ _ (Number.ofText?_int i r hfits hr)
  have hbound : 1 <<< 63 = 9223372036854775808 := rfl
  have hwithin : -2 ^ 63 < r → r < 2 ^ 63 →
      t.convert? (some (.string (toString i))) = some (.ofInt r) := by
    intro hlowest hhighest
    rw [hconvert, if_pos (by omega)]
    rfl
  have habove : r = 2 ^ 63 →
      t.convert? (some (.string (toString i))) = some (.number (.real (Binary64.ofInt i))) := by
    intro htop
    rw [hconvert, if_neg (by omega)]
  have hmost : r ≤ 2 ^ 63 := by
    have hle := Binary64.toRat_ofInt_le_pow hfits hhigh.le
    rw [hr] at hle
    exact_mod_cast hle
  -- A double is its own nearest one, so whether the integer is a double shows in `r`.
  have hself : Binary64.IsDouble i ↔ r = i := by
    constructor
    · exact fun hdouble => Int.cast_injective (hnear.eq_of_isDouble hdouble)
    · rintro rfl
      exact hnear.1
  refine ⟨r, hnear, hr, hwithin, habove, fun hlowest => ?_, fun hshort => ?_⟩
  · rw [hself]
    rcases hmost.lt_or_eq with hlt | heq
    · rw [hwithin hlowest hlt, Option.some.injEq, Json.ofInt_inj]
    · rw [habove heq]
      exact iff_of_false (by simp [Json.ofInt]) (by omega)
  · exact convert?_number ht _ _ (Number.ofText?_toString i hshort)

end Conversion

/-- An integer of more than 53 bits comes back, if it is a double. -/
theorem SchemaType.convert?_toString_even :
    SchemaType.integer.convert? (some (.string "9007199254740994"))
      = some (.ofInt 9007199254740994) := by
  have hdouble : Binary64.IsDouble ((9007199254740994 : Int) : Rat) :=
    ⟨4503599627370497, 1, by decide, by decide, by decide, by norm_num⟩
  obtain ⟨r, hnear, _, _, _, hback, _⟩ :=
    SchemaType.convert?_toString (Or.inl rfl) 9007199254740994 (by decide) (by decide)
  have hr : r = 9007199254740994 := Int.cast_injective (hnear.eq_of_isDouble hdouble)
  exact (hback (by omega)).mpr hdouble

/-- The next smaller integer is rounded to a neighbour. -/
theorem SchemaType.convert?_odd :
    ¬ ∀ i : Int, -2 ^ 63 ≤ i → i < 2 ^ 63 → ∀ t, t = SchemaType.integer ∨ t = .number →
      t.convert? (some (.string (toString i))) = some (.ofInt i) := by
  intro h
  have hback := h 9007199254740993 (by decide) (by decide) .integer (Or.inl rfl)
  have hread : Number.ofText? (toString (9007199254740993 : Int))
      = some (.int 9007199254740992) := by
    decide +kernel
  rw [SchemaType.convert?_number (Or.inl rfl) _ _ hread, Option.some.injEq] at hback
  exact absurd ((Json.ofInt_inj _ _).mp hback) (by decide)

end OpenApi
