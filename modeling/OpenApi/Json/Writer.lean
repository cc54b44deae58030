import OpenApi.Json.Basic
import OpenApi.Numeric.Decimal

/-!
# Compact JSON Text

Writes a value as JSON text without blanks, members in their order.

A text is quoted with the short escapes where JSON has one, four hexadecimal
digits for the other control characters, and every other character as it is.
Integers are written in decimal. Doubles are written with the fewest digits
that read back, positionally while the leading digit stands at most five places
behind the point or at most sixteen before it, and with an exponent otherwise;
a positional double always shows a point.

## Main definitions

* `Json.compact`: The compact text of a value.
* `Binary64.text`: The text of a double.
-/

namespace OpenApi

namespace Binary64

/-- The lowest place of the leading digit that is written positionally. -/
def lowestPositional : Int := -5

/-- The lowest place of the leading digit that needs an exponent above it. -/
def lowestScientific : Int := 16

/-- The text of `digits · 10^place` without an exponent. -/
def positionalText (digits : String) (place : Int) : String :=
  let count : Int := digits.length
  if 0 ≤ place then digits ++ String.ofList (List.replicate place.toNat '0') ++ ".0"
  else if 0 < count + place then
    let whole := (count + place).toNat
    String.ofList (digits.toList.take whole) ++ "." ++ String.ofList (digits.toList.drop whole)
  else "0." ++ String.ofList (List.replicate (-(count + place)).toNat '0') ++ digits

/-- The text of `digits · 10^place` with one digit before the point and an exponent. -/
def scientificText (digits : String) (leading : Int) : String :=
  let mark := if leading < 0 then "e-" else "e+"
  let fraction := digits.toList.drop 1
  String.ofList (digits.toList.take 1)
    ++ (if fraction.isEmpty then "" else "." ++ String.ofList fraction)
    ++ mark ++ toString leading.natAbs

/-- The text of a double. -/
def text (x : Binary64) : String :=
  let sign := if x.negative then "-" else ""
  let (digits, place) := shortest x
  let shown := toString digits
  let leading := (shown.length : Int) - 1 + place
  if digits = 0 then sign ++ "0.0"
  else if lowestPositional ≤ leading ∧ leading < lowestScientific then
    sign ++ positionalText shown place
  else sign ++ scientificText shown leading

end Binary64

/-- The text of a number. -/
def Number.text : Number → String
  | .int i => toString i
  | .real x => x.text

namespace Json

/-- A hexadecimal digit, in lower case. -/
def hexDigit (n : Nat) : Char :=
  if n < 10 then Char.ofNat ('0'.toNat + n) else Char.ofNat ('a'.toNat + (n - 10))

/-- A character inside a quoted text. -/
def escape (c : Char) : String :=
  if c = '\x22' then "\\\""
  else if c = '\x5c' then "\\\\"
  else if c = '\x08' then "\\b"
  else if c = '\x0c' then "\\f"
  else if c = '\n' then "\\n"
  else if c = '\r' then "\\r"
  else if c = '\t' then "\\t"
  else if c.toNat < 0x20 then
    "\\u00" ++ String.ofList [hexDigit (c.toNat / 16), hexDigit (c.toNat % 16)]
  else c.toString

/-- A text in quotes. -/
def quote (s : String) : String :=
  "\"" ++ s.toList.foldl (fun text c => text ++ escape c) "" ++ "\""

mutual

/-- The compact text of a value. -/
def compact : Json → String
  | .null => "null"
  | .bool true => "true"
  | .bool false => "false"
  | .number n => n.text
  | .string s => quote s
  | .array [] => "[]"
  | .array (x :: xs) => "[" ++ compact x ++ compactItems xs
  | .object [] => "\x7b\x7d"
  | .object ((key, x) :: xs) => "\x7b" ++ quote key ++ ":" ++ compact x ++ compactMembers xs

/-- The items after the first, and the closing bracket. -/
def compactItems : List Json → String
  | [] => "]"
  | x :: xs => "," ++ compact x ++ compactItems xs

/-- The members after the first, and the closing brace. -/
def compactMembers : List (String × Json) → String
  | [] => "\x7d"
  | (key, x) :: xs => "," ++ quote key ++ ":" ++ compact x ++ compactMembers xs

end

end Json

end OpenApi
