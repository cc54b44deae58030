/-!
# Finite Doubles

The finite numbers of the 64-bit binary format, written exactly as
`(-1)^negative · significand · 2^exponent`, and the one operation that makes
them an approximation: rounding a rational to the nearest of them.

Arithmetic is done on exact rationals and rounded once at the end, so every
comparison below is a comparison of rationals. A sum, product or quotient that
leaves the range of the format has no value here: `ofRat?` answers `none`
instead of an infinity, and there is no value that is not a number.

The zero with a sign is kept apart from the zero without one, because the two
are written differently. They have the same value, and `sameValue` does not
tell them apart.

## Main definitions

* `Binary64`: A finite double, exactly.
* `Binary64.toRat`: The rational it stands for.
* `Binary64.ofRat?`: The nearest double to a rational, ties to even.
* `Binary64.ofInt`: The nearest double to an integer.
* `Binary64.isMultipleOf`: Divisibility up to a relative tolerance.
-/

namespace OpenApi

/-- The double `(-1)^negative · significand · 2^exponent`. -/
structure Binary64 where
  /-- Whether the sign is negative; a negative zero is written `-0.0`. -/
  negative : Bool
  /-- The significand, at most `2^53`. -/
  significand : Nat
  /-- The power of two the significand is scaled by, at least `-1074`. -/
  exponent : Int
deriving DecidableEq, Repr

namespace Binary64

/-- The significand of a double has 53 bits. -/
def precision : Nat := 53

/-- The smallest power of two a significand is scaled by. -/
def minExponent : Int := -1074

/-- The largest power of two a full significand is scaled by. -/
def maxExponent : Int := 971

/-- The least natural number that a full significand cannot hold. -/
def significandBound : Nat := 1 <<< precision

/-- The rational `significand · 2^exponent`. -/
def scaled (significand : Nat) (exponent : Int) : Rat :=
  if 0 ≤ exponent then ((significand <<< exponent.toNat : Nat) : Rat)
  else mkRat significand (1 <<< (-exponent).toNat)

/-- The rational a double stands for. Both zeros stand for `0`. -/
def toRat (x : Binary64) : Rat :=
  if x.negative then -scaled x.significand x.exponent else scaled x.significand x.exponent

/-- The zero without a sign. -/
def zero : Binary64 := ⟨false, 0, 0⟩

/-- The integer nearest to `num / den`; of two at the same distance, the even one. -/
def roundHalfEven (num den : Nat) : Nat :=
  let quotient := num / den
  let twice := 2 * (num % den)
  if twice < den then quotient
  else if den < twice then quotient + 1
  else if quotient % 2 = 0 then quotient
  else quotient + 1

/-- The significand of `num / den` at scale `2^exponent`. -/
def significandAt (num den : Nat) (exponent : Int) : Nat :=
  if 0 ≤ exponent then roundHalfEven num (den <<< exponent.toNat)
  else roundHalfEven (num <<< (-exponent).toNat) den

/-- Whether `num / den` has at most 53 bits before the point at scale `2^exponent`. -/
def fitsAt (num den : Nat) (exponent : Int) : Bool :=
  if 0 ≤ exponent then num < significandBound * (den <<< exponent.toNat)
  else num <<< (-exponent).toNat < significandBound * den

/-- The scale at which `num / den` fills a significand, or the smallest scale
    for a number too small to fill one.

    `num / den` lies strictly between `2^(k-1)` and `2^(k+1)`, where `k` is
    the difference of the two logarithms, so only two scales come into
    question. -/
def scaleOf (num den : Nat) : Int :=
  let low := max ((num.log2 : Int) - den.log2 - precision) minExponent
  if fitsAt num den low then low else low + 1

/-- The double nearest to `x`, ties to the even significand, or `none` when
    `x` is beyond the range of the format. An integer of at most 53 bits is
    taken as it stands. -/
def ofRat? (x : Rat) : Option Binary64 :=
  let num := x.num.natAbs
  let negative := decide (x.num < 0)
  if x.den = 1 ∧ num ≤ significandBound then some ⟨negative, num, 0⟩
  else
    let exponent := scaleOf num x.den
    let significand := significandAt num x.den exponent
    if maxExponent < exponent ∨ (exponent = maxExponent ∧ significandBound ≤ significand) then none
    else some ⟨negative, significand, exponent⟩

/-- The double nearest to an integer. Integers of up to 64 bits never leave
    the range. -/
def ofInt (i : Int) : Binary64 := (ofRat? i).getD zero

/-- Whether two doubles are the same number; the two zeros are. -/
def sameValue (x y : Binary64) : Bool := x.toRat == y.toRat

/-- Whether `x` is less than `y`. -/
def lt (x y : Binary64) : Bool := x.toRat < y.toRat

/-- Whether `x` is at most `y`. -/
def le (x y : Binary64) : Bool := x.toRat ≤ y.toRat

/-- The integer a double stands for, if it stands for one. -/
def toInt? (x : Binary64) : Option Int :=
  if x.toRat.den = 1 then some x.toRat.num else none

/-- The absolute value of a rational. -/
def magnitude (q : Rat) : Rat := if q < 0 then -q else q

/-- The integer nearest to a rational; a half goes away from zero. -/
def roundHalfAway (q : Rat) : Int :=
  let nearest := ((2 * q.num.natAbs + q.den) / (2 * q.den) : Nat)
  if q < 0 then -(nearest : Int) else nearest

/-- The relative tolerance of `isMultipleOf`: the double nearest to `10^-9`. -/
def multipleTolerance : Rat :=
  ((ofRat? (mkRat 1 1000000000)).getD zero).toRat

/-- Whether `x` is a multiple of `m`: the quotient, rounded to a double, lies
    within the tolerance of an integer. The tolerance is relative for quotients
    above one. A quotient beyond the range of the format is no multiple. -/
def isMultipleOf (x m : Binary64) : Bool :=
  match ofRat? (x.toRat / m.toRat) with
  | none => false
  | some quotient =>
    let q := quotient.toRat
    match ofRat? (multipleTolerance * (if magnitude q < 1 then 1 else magnitude q)) with
    | none => false
    | some allowed => magnitude (q - roundHalfAway q) ≤ allowed.toRat

end Binary64

end OpenApi
