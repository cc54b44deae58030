import OpenApi.Numeric.Binary64

/-!
# Decimal Numerals

The two directions between decimal text and doubles. A numeral is read into
its digits and a power of ten, which is exact; only then is it rounded to the
nearest double. In the other direction a double is written with the fewest
digits that read back as the same double, and of those the nearest.

The reading grammar is an optional sign, digits with at most one point among
or around them, and an optional exponent. At least one digit stands before or
after the point, and at least one in the exponent. The spellings of the
infinities and of "not a number" denote no finite double and are not read.

## Main definitions

* `Decimal`: Sign, digits and power of ten of a numeral.
* `Decimal.read?`: Reads a whole text as a numeral.
* `Decimal.toBinary64?`: The nearest double.
* `Binary64.shortest`: The fewest digits that read back.
-/

namespace OpenApi

/-- The numeral `(-1)^negative · digits · 10^exponent`. -/
structure Decimal where
  /-- Whether a minus sign stands in front. -/
  negative : Bool
  /-- All digits, before and after the point, as one natural number. -/
  digits : Nat
  /-- The power of ten the digits are scaled by. -/
  exponent : Int
deriving DecidableEq, Repr

namespace Decimal

/-- The value of a decimal digit. -/
def digitValue (c : Char) : Nat := c.toNat - '0'.toNat

/-- The number a list of decimal digits spells after the digits of `start`. -/
def digitsValue (start : Nat) (cs : List Char) : Nat :=
  cs.foldl (fun n c => 10 * n + digitValue c) start

/-- Splits an optional sign off: whether it was a minus, and the rest. -/
def splitSign : List Char → Bool × List Char
  | '+' :: rest => (false, rest)
  | '-' :: rest => (true, rest)
  | rest => (false, rest)

/-- The leading decimal digits of a text, and the rest. -/
def splitDigits (cs : List Char) : List Char × List Char :=
  (cs.takeWhile Char.isDigit, cs.dropWhile Char.isDigit)

/-- Reads an exponent mark with its signed digits; an empty text is exponent zero. -/
def readExponent? : List Char → Option Int
  | [] => some 0
  | mark :: rest =>
    if mark = 'e' ∨ mark = 'E' then
      let (negative, rest) := splitSign rest
      let (ds, rest) := splitDigits rest
      if ds.isEmpty ∨ ¬ rest.isEmpty then none
      else
        let value : Int := digitsValue 0 ds
        some (if negative then -value else value)
    else none

/-- Reads the digits of a numeral around an optional point, then the exponent. -/
def readUnsigned? (cs : List Char) : Option (Nat × Int) :=
  let (whole, rest) := splitDigits cs
  let (fraction, rest) := match rest with
    | '.' :: rest => splitDigits rest
    | rest => ([], rest)
  if whole.isEmpty ∧ fraction.isEmpty then none
  else do
    let exponent ← readExponent? rest
    pure (digitsValue (digitsValue 0 whole) fraction, exponent - fraction.length)

/-- Reads a whole text as a numeral. -/
def read? (cs : List Char) : Option Decimal :=
  let (negative, rest) := splitSign cs
  (readUnsigned? rest).map fun (digits, exponent) => ⟨negative, digits, exponent⟩

/-- How many decimal digits a natural number has; zero has one. -/
def digitCount (n : Nat) : Nat := (Nat.toDigits 10 n).length

/-- The exact value of a numeral. -/
def toRat (d : Decimal) : Rat :=
  let size : Rat :=
    if 0 ≤ d.exponent then ((d.digits * Nat.pow 10 d.exponent.toNat : Nat) : Rat)
    else mkRat d.digits (Nat.pow 10 (-d.exponent).toNat)
  if d.negative then -size else size

/-- The nearest double, or `none` beyond the range of the format. Numerals
    whose leading digit is above the 400th or below the `-400`th place are
    decided by their size alone, so that no power of ten that large is built. -/
def toBinary64? (d : Decimal) : Option Binary64 :=
  if d.digits = 0 then some ⟨d.negative, 0, 0⟩
  else
    let place := (digitCount d.digits : Int) + d.exponent
    if 400 < place then none
    else if place < -400 then some ⟨d.negative, 0, 0⟩
    else (Binary64.ofRat? d.toRat).map fun x => { x with negative := d.negative }

end Decimal

namespace Binary64

/-- A double in the form in which its significand has all 53 bits, or the
    smallest scale is reached. -/
def normalize (x : Binary64) : Binary64 :=
  let room := (precision - 1 : Nat) - x.significand.log2
  let shift := min room (x.exponent - minExponent).toNat
  { x with significand := x.significand <<< shift, exponent := x.exponent - shift }

/-- The power of ten of the leading digit of a positive rational. -/
def leadingPlace (q : Rat) : Int :=
  if 1 ≤ q then (Decimal.digitCount (q.num.natAbs / q.den) : Int) - 1
  else
    -- `1 / q` rounded up, less one, has as many digits as there are places after the point.
    let inverse := (q.den + q.num.natAbs - 1) / q.num.natAbs
    let places := Decimal.digitCount (inverse - 1)
    (0 : Int) - places

/-- The rational `10^place`. -/
def tenPow (place : Int) : Rat :=
  if 0 ≤ place then ((Nat.pow 10 place.toNat : Nat) : Rat)
  else mkRat 1 (Nat.pow 10 (-place).toNat)

/-- The ends of the interval of rationals that round to a normalized positive
    double. Below a power of two the doubles lie twice as close. -/
def roundingInterval (x : Binary64) : Rat × Rat :=
  let quarter := x.exponent - 2
  let atPower := x.significand = significandBound / 2 ∧ minExponent < x.exponent
  let low := if atPower then 4 * x.significand - 1 else 4 * x.significand - 2
  (scaled low quarter, scaled (4 * x.significand + 2) quarter)

/-- A number with `count` digits that reads back as the double of value `q`,
    if there is one: one of the two neighbours of `q` on the decimal grid of
    that many digits, the nearer one first. -/
def withDigits? (q low high : Rat) (closed : Bool) (count : Nat) : Option (Nat × Int) :=
  let place := leadingPlace q + 1 - count
  let step := tenPow place
  let below := (q / step).num.natAbs / (q / step).den
  let inside (n : Nat) : Bool :=
    let v := (n : Rat) * step
    (low < v && v < high) || (closed && (v == low || v == high))
  let downFirst :=
    let down := q - below * step
    let up := (below + 1 : Nat) * step - q
    down < up || (down == up && below % 2 == 0)
  let candidates := if downFirst then [below, below + 1] else [below + 1, below]
  (candidates.find? inside).map (·, place)

/-- Moves trailing zeros of the digits into the power of ten; `fuel` bounds
    how many. -/
def dropTrailingZeros : Nat → Nat × Int → Nat × Int
  | 0, d => d
  | fuel + 1, (digits, place) =>
    if digits % 10 = 0 ∧ digits ≠ 0 then dropTrailingZeros fuel (digits / 10, place + 1)
    else (digits, place)

/-- The fewest decimal digits that read back as the same double, as a natural
    number and the power of ten it is scaled by. Seventeen always suffice. -/
def shortest (x : Binary64) : Nat × Int :=
  if x.significand = 0 then (0, 0)
  else
    let y := normalize { x with negative := false }
    let (low, high) := roundingInterval y
    let q := y.toRat
    let closed := y.significand % 2 == 0
    let found := (List.range 17).findSome? fun i => withDigits? q low high closed (i + 1)
    dropTrailingZeros 18 (found.getD (y.significand, 0))

end Binary64

end OpenApi
