import OpenApi.Proofs.Numeric.Multiples
import OpenApi.Schema.Validator

/-!
# Keywords on Integers

The keywords on numbers take the instance and the limit to their nearest doubles
first, and integers of 64 bits are no exception.

For the bounds this is harmless as long as the two doubles differ, because
rounding keeps the order. Integers that are rounded to the same double count as
equal, and that happens to long integers only: both have more than 53 bits, or
are the least that do.

For `multipleOf` it is not harmless, because the tolerance that is meant for
fractions applies to integers as well. It outgrows the distance of an integer
to the next multiple at about `10^9`, for the instance as for the limit.

## Main definitions

* `Number.Fits64`: An integer literal is kept as an integer.
* `Bound`: A bound on numbers.
* `Node.States`: A keyword of a schema states a bound.

## Theorems

* `toRat_ofInt_lt_iff`: Rounding keeps the order of integers it tells apart.
* `evaluateKeyword_of_states`: Which bound a keyword checks.
* `Bound.admits_ofInt`: A bound on rounded integers.
* `evaluateKeyword_bound`: The bounds on integers.
* `evaluateKeyword_multipleOf`: Multiples among integers.
-/

namespace OpenApi

/-- The integer is a signed or an unsigned 64-bit integer. -/
def Number.Fits64 (i : Int) : Prop := minSigned ≤ i ∧ i ≤ maxUnsigned

instance (i : Int) : Decidable (Number.Fits64 i) :=
  inferInstanceAs (Decidable (Number.minSigned ≤ i ∧ i ≤ Number.maxUnsigned))

theorem Number.natAbs_le_of_fits64 (i : Int) (h : Fits64 i) : i.natAbs ≤ 2 ^ 64 := by
  unfold Fits64 minSigned maxUnsigned at h
  omega

theorem Binary64.toRat_ofInt_lt_iff (i j : Int) (hi : i.natAbs ≤ 2 ^ 64) (hj : j.natAbs ≤ 2 ^ 64)
    (hne : (ofInt i).toRat ≠ (ofInt j).toRat) : (ofInt i).toRat < (ofInt j).toRat ↔ i < j := by
  constructor
  · intro hlt
    by_contra hle
    exact absurd (ofInt_le_ofInt hj hi (not_lt.mp hle)) (not_le.mpr hlt)
  · exact fun hlt => lt_of_le_of_ne (ofInt_le_ofInt hi hj hlt.le) hne

/-- A bound on numbers. -/
inductive Bound where
  /-- The limit is the largest number. -/
  | atMost
  /-- Numbers are below the limit. -/
  | below
  /-- The limit is the smallest number. -/
  | atLeast
  /-- Numbers are above the limit. -/
  | above

namespace Bound

/-- The integer satisfies the bound with a limit. -/
def Holds : Bound → Int → Int → Prop
  | .atMost, x, limit => x ≤ limit
  | .below, x, limit => x < limit
  | .atLeast, x, limit => limit ≤ x
  | .above, x, limit => limit < x

instance (b : Bound) (x limit : Int) : Decidable (b.Holds x limit) :=
  match b with
  | .atMost => inferInstanceAs (Decidable (x ≤ limit))
  | .below => inferInstanceAs (Decidable (x < limit))
  | .atLeast => inferInstanceAs (Decidable (limit ≤ x))
  | .above => inferInstanceAs (Decidable (limit < x))

/-- What a number beyond the bound violates. -/
def kind : Bound → ViolationKind
  | .atMost => .maximum
  | .below => .exclusiveMaximum
  | .atLeast => .minimum
  | .above => .exclusiveMinimum

/-- Whether a double satisfies the bound with a limit. -/
def admits : Bound → Binary64 → Binary64 → Bool
  | .atMost, x, limit => x.le limit
  | .below, x, limit => x.lt limit
  | .atLeast, x, limit => limit.le x
  | .above, x, limit => limit.lt x

open Binary64 in
/-- On rounded integers a bound is the bound on integers, except that an integer
    that is rounded like the limit counts as the limit. -/
theorem admits_ofInt (b : Bound) (x limit : Int) (hx : x.natAbs ≤ 2 ^ 64)
    (hlimit : limit.natAbs ≤ 2 ^ 64) :
    b.admits (ofInt x) (ofInt limit) = true
      ↔ b.Holds (if (ofInt x).sameValue (ofInt limit) then limit else x) limit := by
  by_cases hsame : (ofInt x).toRat = (ofInt limit).toRat
  · have hvalue : (ofInt x).sameValue (ofInt limit) = true := beq_iff_eq.mpr hsame
    rw [if_pos hvalue]
    cases b with
    | atMost => simp only [admits, le, hsame, le_refl, decide_true, Holds]
    | below => simp only [admits, lt, hsame, lt_irrefl, decide_false, Bool.false_eq_true, Holds]
    | atLeast => simp only [admits, le, hsame, le_refl, decide_true, Holds]
    | above => simp only [admits, lt, hsame, lt_irrefl, decide_false, Bool.false_eq_true, Holds]
  · have hvalue : ¬ (ofInt x).sameValue (ofInt limit) = true := fun h => hsame (beq_iff_eq.mp h)
    -- Rounding keeps the order of integers that it tells apart.
    have hbelow := toRat_ofInt_lt_iff x limit hx hlimit hsame
    have habove := toRat_ofInt_lt_iff limit x hlimit hx (Ne.symm hsame)
    rw [if_neg hvalue]
    cases b with
    | atMost =>
        rw [admits, le, decide_eq_true_eq, Holds, ← not_lt, habove, not_lt]
    | below => rw [admits, lt, decide_eq_true_eq, Holds, hbelow]
    | atLeast => rw [admits, le, decide_eq_true_eq, Holds, ← not_lt, hbelow, not_lt]
    | above => rw [admits, lt, decide_eq_true_eq, Holds, habove]

end Bound

namespace Node

/-- A keyword of the schema states a bound with an integer as the limit. -/
inductive States (n : Node) (limit : Int) : Keyword → Bound → Prop where
  /-- `maximum` without an exclusive counterpart that is `true`. -/
  | maximum : n.get? "maximum" = some (.ofInt limit) →
      n.get? "exclusiveMaximum" ≠ some (.bool true) → States n limit .maximum .atMost
  /-- `maximum` beside `exclusiveMaximum: true`. -/
  | maximumBelow : n.get? "maximum" = some (.ofInt limit) →
      n.get? "exclusiveMaximum" = some (.bool true) → States n limit .maximum .below
  /-- `minimum` without an exclusive counterpart that is `true`. -/
  | minimum : n.get? "minimum" = some (.ofInt limit) →
      n.get? "exclusiveMinimum" ≠ some (.bool true) → States n limit .minimum .atLeast
  /-- `minimum` beside `exclusiveMinimum: true`. -/
  | minimumAbove : n.get? "minimum" = some (.ofInt limit) →
      n.get? "exclusiveMinimum" = some (.bool true) → States n limit .minimum .above
  /-- `exclusiveMaximum` as a bound of its own. -/
  | exclusiveMaximum : n.get? "exclusiveMaximum" = some (.ofInt limit) →
      States n limit .exclusiveMaximum .below
  /-- `exclusiveMinimum` as a bound of its own. -/
  | exclusiveMinimum : n.get? "exclusiveMinimum" = some (.ofInt limit) →
      States n limit .exclusiveMinimum .above

variable (n : Node)

theorem isTrue_iff (key : String) : n.isTrue key = true ↔ n.get? key = some (.bool true) := by
  unfold isTrue
  rcases n.get? key with _ | value
  · exact iff_of_false Bool.false_ne_true (Option.some_ne_none _).symm
  · cases value with
    | bool b =>
        cases b with
        | true => exact iff_of_true rfl rfl
        | false => exact iff_of_false Bool.false_ne_true (by simp)
    | _ => exact iff_of_false Bool.false_ne_true (by simp)

theorem checkNumber_ofInt (key path : String) (kind : ViolationKind) (x limit : Int)
    (satisfied : Binary64 → Binary64 → Bool) (h : n.get? key = some (.ofInt limit)) :
    n.checkNumber key path kind (.ofInt x) satisfied
      = n.accept path kind (.ofInt x) (satisfied (.ofInt x) (.ofInt limit)) := by
  unfold checkNumber
  rw [h]
  rfl

/-- A keyword that states a bound checks that bound on the rounded integers. -/
theorem evaluateKeyword_of_states (v : Validator) (evaluate : Evaluation) (path : String)
    (x limit : Int) (k : Keyword) (b : Bound) (h : n.States limit k b) :
    v.evaluateKeyword evaluate k n path (.ofInt x)
      = n.accept path b.kind (.ofInt x) (b.admits (.ofInt x) (.ofInt limit)) := by
  cases h with
  | maximum hlimit hbeside =>
      have hfalse : ¬ n.isTrue "exclusiveMaximum" = true := fun h => hbeside ((n.isTrue_iff _).mp h)
      change n.checkMaximum path _ = _
      unfold checkMaximum
      rw [if_neg hfalse]
      exact n.checkNumber_ofInt _ path _ x limit _ hlimit
  | maximumBelow hlimit hbeside =>
      change n.checkMaximum path _ = _
      unfold checkMaximum
      rw [if_pos ((n.isTrue_iff _).mpr hbeside)]
      exact n.checkNumber_ofInt _ path _ x limit _ hlimit
  | minimum hlimit hbeside =>
      have hfalse : ¬ n.isTrue "exclusiveMinimum" = true := fun h => hbeside ((n.isTrue_iff _).mp h)
      change n.checkMinimum path _ = _
      unfold checkMinimum
      rw [if_neg hfalse]
      exact n.checkNumber_ofInt _ path _ x limit _ hlimit
  | minimumAbove hlimit hbeside =>
      change n.checkMinimum path _ = _
      unfold checkMinimum
      rw [if_pos ((n.isTrue_iff _).mpr hbeside)]
      exact n.checkNumber_ofInt _ path _ x limit _ hlimit
  | exclusiveMaximum hlimit => exact n.checkNumber_ofInt _ path _ x limit _ hlimit
  | exclusiveMinimum hlimit => exact n.checkNumber_ofInt _ path _ x limit _ hlimit

/-- A positive unit is rounded to a positive double, so divisibility is checked. -/
theorem checkMultipleOf_ofInt (path : String) (x m : Int) (hm : m.natAbs ≤ 2 ^ 64) (hpos : 0 < m)
    (h : n.get? "multipleOf" = some (.ofInt m)) :
    n.checkMultipleOf path (.ofInt x)
      = n.accept path .multipleOf (.ofInt x) ((Binary64.ofInt x).isMultipleOf (.ofInt m)) := by
  have hunit : Binary64.zero.lt (.ofInt m) = true := by
    have hone := Binary64.ofInt_le_ofInt (i := 1) (by decide) hm hpos
    rw [Binary64.toRat_ofInt (by decide), Int.cast_one] at hone
    exact decide_eq_true (lt_of_lt_of_le zero_lt_one hone)
  unfold checkMultipleOf
  rw [n.checkNumber_ofInt _ path _ x m _ h, hunit]
  rfl

end Node

namespace Binary64

variable {x m : Int}

theorem isNearMultiple_of_dvd (hpos : 0 < m) (h : m ∣ x) : IsNearMultiple x m (10 ^ 6 - 1) := by
  obtain ⟨k, rfl⟩ := h
  refine ⟨k, ?_⟩
  rw [mul_comm k m, sub_self, abs_zero, mul_zero]
  exact mul_nonneg (by decide) (le_trans hpos.le (le_max_right _ _))

/-- Integers below a billion, with the margin, are near to a multiple only if they are one. -/
theorem dvd_of_isNearMultiple (hsmall : max |x| m ≤ 999999000)
    (h : IsNearMultiple x m (10 ^ 6 + 1)) : m ∣ x := by
  obtain ⟨k, hk⟩ := h
  have hless : |x - k * m| < 1 := by omega
  rw [Int.abs_lt_one_iff, sub_eq_zero] at hless
  exact ⟨k, by rw [hless, mul_comm]⟩

end Binary64

namespace Validator

variable (v : Validator) (evaluate : Evaluation) (n : Node) (path : String)

/-- An integer is held to a bound exactly, except that it counts as the limit where both
    are rounded to the same double. That happens to different integers only if both are at
    least `2^53` in size. -/
theorem evaluateKeyword_bound (x limit : Int) (hx : Number.Fits64 x)
    (hlimit : Number.Fits64 limit) (k : Keyword) (b : Bound) (h : n.States limit k b) :
    v.evaluateKeyword evaluate k n path (.ofInt x)
        = (if b.Holds (if (Binary64.ofInt x).sameValue (.ofInt limit) then limit else x) limit
            then .ok (.ofInt x) else .error (.ofViolation path n.scope b.kind))
      ∧ ((Binary64.ofInt x).sameValue (.ofInt limit) = true →
          x = limit ∨ 2 ^ 53 ≤ x.natAbs ∧ 2 ^ 53 ≤ limit.natAbs) := by
  have hx' := Number.natAbs_le_of_fits64 x hx
  have hlimit' := Number.natAbs_le_of_fits64 limit hlimit
  constructor
  · rw [n.evaluateKeyword_of_states v evaluate path x limit k b h, Node.accept]
    exact if_congr (b.admits_ofInt x limit hx' hlimit') rfl rfl
  · intro hsame
    have heq := beq_iff_eq.mp hsame
    by_contra hshort
    rw [not_or, not_and_or, not_le, not_le] at hshort
    rcases hshort with ⟨hne, hshort | hshort⟩
    · exact hne (Binary64.eq_of_toRat_ofInt hshort hlimit' heq)
    · exact hne (Binary64.eq_of_toRat_ofInt hshort hx' heq.symm).symm

/-- The address of a document that is a schema of serial numbers. -/
def serialAddress : Uri := ⟨"http", some (.ofHost "shop"), .segments ["serial"], none, none⟩

/-- A schema of even serial numbers that has `2^53` as a bound. -/
def serialNode : Node :=
  ⟨.object [("maximum", .ofInt 9007199254740992), ("multipleOf", .ofInt 2)], serialAddress, "",
    serialAddress, none⟩

/-- Evaluations of the schema. -/
def serials : Validator := ⟨⟨[(serialAddress, serialNode.value)], [], []⟩, .jsonSchema, false⟩

theorem states_serial : serialNode.States 9007199254740992 .maximum .atMost :=
  .maximum rfl (Option.some_ne_none _).symm

/-- A larger integer is rejected, if it is rounded to another double. -/
theorem evaluateKeyword_bound_serial :
    Number.Fits64 9007199254740994 ∧ Number.Fits64 9007199254740992
      ∧ serialNode.States 9007199254740992 .maximum .atMost
      ∧ serials.evaluateKeyword serials.evaluate .maximum serialNode "" (.ofInt 9007199254740994)
        = .error (.ofViolation "" serialNode.scope .maximum) := by
  have hx : Number.Fits64 9007199254740994 := by decide
  have hlimit : Number.Fits64 9007199254740992 := by decide
  refine ⟨hx, hlimit, states_serial, ?_⟩
  rw [(evaluateKeyword_bound serials serials.evaluate serialNode "" _ _ hx hlimit _ _
    states_serial).1, if_neg (by decide +kernel)]
  rfl

/-- The integer next to the bound is accepted, although it is larger. -/
theorem evaluateKeyword_serial :
    serialNode.States 9007199254740992 .maximum .atMost
      ∧ serials.evaluateKeyword serials.evaluate .maximum serialNode "" (.ofInt 9007199254740993)
        = .ok (.ofInt 9007199254740993)
      ∧ ¬ Bound.atMost.Holds 9007199254740993 9007199254740992 := by
  refine ⟨states_serial, ?_, by decide⟩
  rw [serialNode.evaluateKeyword_of_states serials serials.evaluate "" _ _ _ _ states_serial,
    show Bound.atMost.admits (.ofInt 9007199254740993) (.ofInt 9007199254740992) = true by
      decide +kernel]
  rfl

/-- An integer is accepted as a multiple if it is near enough to one, and rejected if it
    is not, the size of the tolerance being known up to a millionth of it. In particular
    multiples are accepted, and below `999999001` nothing else is. -/
theorem evaluateKeyword_multipleOf (x m : Int) (hx : Number.Fits64 x) (hm : Number.Fits64 m)
    (hpos : 0 < m) (h : n.get? "multipleOf" = some (.ofInt m)) :
    (Binary64.IsNearMultiple x m (10 ^ 6 - 1) →
        v.evaluateKeyword evaluate .multipleOf n path (.ofInt x) = .ok (.ofInt x))
      ∧ (¬ Binary64.IsNearMultiple x m (10 ^ 6 + 1) →
        v.evaluateKeyword evaluate .multipleOf n path (.ofInt x)
          = .error (.ofViolation path n.scope .multipleOf))
      ∧ (m ∣ x → v.evaluateKeyword evaluate .multipleOf n path (.ofInt x) = .ok (.ofInt x))
      ∧ (max |x| m ≤ 999999000 →
        (v.evaluateKeyword evaluate .multipleOf n path (.ofInt x) = .ok (.ofInt x) ↔ m ∣ x)) := by
  have hx' := Number.natAbs_le_of_fits64 x hx
  have hm' := Number.natAbs_le_of_fits64 m hm
  have hcheck : v.evaluateKeyword evaluate .multipleOf n path (.ofInt x)
      = if (Binary64.ofInt x).isMultipleOf (.ofInt m) then .ok (.ofInt x)
        else .error (.ofViolation path n.scope .multipleOf) :=
    n.checkMultipleOf_ofInt path x m hm' hpos h
  have hnear : Binary64.IsNearMultiple x m (10 ^ 6 - 1) →
      v.evaluateKeyword evaluate .multipleOf n path (.ofInt x) = .ok (.ofInt x) := by
    intro hnear
    rw [hcheck, if_pos (Binary64.isMultipleOf_of_isNearMultiple x m hx' hm' hpos hnear)]
  have hfar : ¬ Binary64.IsNearMultiple x m (10 ^ 6 + 1) →
      v.evaluateKeyword evaluate .multipleOf n path (.ofInt x)
        = .error (.ofViolation path n.scope .multipleOf) := by
    intro hfar
    rw [hcheck, if_neg fun h => hfar (Binary64.isNearMultiple_of_isMultipleOf x m hx' hm' hpos h)]
  refine ⟨hnear, hfar, fun hdvd => hnear (Binary64.isNearMultiple_of_dvd hpos hdvd),
    fun hsmall => ⟨fun hok => ?_, fun hdvd => hnear (Binary64.isNearMultiple_of_dvd hpos hdvd)⟩⟩
  -- For small integers what is no multiple is too far away from all of them.
  by_contra hdvd
  have herror := hfar fun h => hdvd (Binary64.dvd_of_isNearMultiple hsmall h)
  rw [hok] at herror
  exact nomatch herror

/-- The largest odd number that the theorem is exact about is no multiple of two. -/
theorem evaluateKeyword_multipleOf_serial :
    Number.Fits64 999998999 ∧ Number.Fits64 2 ∧ (0 : Int) < 2
      ∧ serialNode.get? "multipleOf" = some (.ofInt 2)
      ∧ max |(999998999 : Int)| 2 ≤ 999999000
      ∧ serials.evaluateKeyword serials.evaluate .multipleOf serialNode "" (.ofInt 999998999)
        ≠ .ok (.ofInt 999998999) := by
  have hx : Number.Fits64 999998999 := by decide
  have hm : Number.Fits64 2 := by decide
  have hsmall : max |(999998999 : Int)| 2 ≤ 999999000 := by decide
  refine ⟨hx, hm, by decide, rfl, hsmall, fun hok => ?_⟩
  have hdvd := ((evaluateKeyword_multipleOf serials serials.evaluate serialNode "" 999998999 2
    hx hm (by decide) rfl).2.2.2 hsmall).mp hok
  exact absurd hdvd (by decide)

/-- An odd number above a billion is taken for a multiple of two. -/
theorem evaluateKeyword_odd :
    serialNode.get? "multipleOf" = some (.ofInt 2)
      ∧ serials.evaluateKeyword serials.evaluate .multipleOf serialNode "" (.ofInt 1000000001)
        = .ok (.ofInt 1000000001)
      ∧ ¬ (2 : Int) ∣ 1000000001 := by
  refine ⟨rfl, ?_, by decide⟩
  change serialNode.checkMultipleOf "" (.ofInt 1000000001) = _
  rw [serialNode.checkMultipleOf_ofInt "" 1000000001 2 (by decide) (by decide) rfl,
    show (Binary64.ofInt 1000000001).isMultipleOf (.ofInt 2) = true by decide +kernel]
  rfl

end Validator

end OpenApi
