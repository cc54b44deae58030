import OpenApi.Json.Basic
import OpenApi.Numeric.Decimal
import OpenApi.Text.Percent

/-!
# YAML Scalars

The value a scalar stands for. A scalar in quotes or of a block is a text. A
plain one is the null value, a truth value, an integer or a real number if it
is spelled like one, and a text otherwise.

Integers may be hexadecimal, octal or binary behind `0x`, `0o` or `0b`. Decimal
digits that start with a superfluous zero are a text. Integers that need more
than 64 bits, but not more than 128, have no value; larger ones are read as
real numbers. The infinities and "not a number" have no JSON number and are the
null value.

A tag may demand one of these kinds, and a scalar with any other standard tag
is a text. Tags of an application's own have no value.

## Main definitions

* `Yaml.plainValue?`: The value of a plain scalar.
* `Yaml.scalarValue?`: The value of a scalar with its tag and style.
-/

namespace OpenApi

namespace Yaml

/-- The null value that a text spells. -/
def nullSpelled? (text : String) : Option Json :=
  if text ∈ ["null", "Null", "NULL", "~"] then some .null else none

/-- The truth value that a text spells. -/
def boolSpelled? (text : String) : Option Json :=
  if text ∈ ["true", "True", "TRUE"] then some (.bool true)
  else if text ∈ ["false", "False", "FALSE"] then some (.bool false)
  else none

/-- The value of a digit in bases up to sixteen. -/
def digitIn? (base : Nat) (c : Char) : Option Nat :=
  (Percent.hexValue? c).bind fun d => if d < base then some d else none

/-- The natural number that digits of a base spell. -/
def naturalIn? (base : Nat) (cs : List Char) : Option Nat :=
  if cs.isEmpty then none
  else cs.foldlM (fun n c => (digitIn? base c).map fun d => base * n + d) 0

/-- Whether the text is decimal digits with a superfluous zero in front. -/
def isZeroPadded (cs : List Char) : Bool :=
  match (Decimal.splitSign cs).2 with
  | '0' :: c :: rest => (c :: rest).all Char.isDigit
  | _ => false

/-- The natural number behind a mark for its base. -/
def marked? : List Char → Option Nat
  | '0' :: 'x' :: digits => naturalIn? 16 digits
  | '0' :: 'o' :: digits => naturalIn? 8 digits
  | '0' :: 'b' :: digits => naturalIn? 2 digits
  | _ => none

/-- The natural number a text without a sign spells. -/
def unsigned? (cs : List Char) : Option Nat :=
  (marked? cs).orElse fun _ => if isZeroPadded cs then none else naturalIn? 10 cs

/-- The integer a text spells. -/
def integer? (cs : List Char) : Option Int :=
  let (negative, digits) := Decimal.splitSign cs
  (unsigned? digits).map fun n => if negative then -(n : Int) else (n : Int)

/-- The real number a text spells. -/
def realSpelled? (cs : List Char) : Option Json :=
  let unsigned := match cs with
    | '+' :: rest => rest
    | rest => rest
  let special :=
    String.ofList (Decimal.splitSign cs).2 ∈ [".inf", ".Inf", ".INF"]
      ∨ String.ofList cs ∈ [".nan", ".NaN", ".NAN"]
  if special then some .null
  else if cs.head? = some '+' ∧ (unsigned.head? = some '+' ∨ unsigned.head? = some '-') then none
  else (Decimal.read? unsigned).bind fun d => d.toBinary64?.map fun x => .number (.real x)

/-- Whether an integer fits 64 bits, signed or unsigned. -/
def fits64 (i : Int) : Bool := Number.minSigned ≤ i && i ≤ Number.maxUnsigned

/-- Whether an integer fits 128 bits, signed or unsigned. -/
def fits128 (i : Int) : Bool :=
  -(((1 <<< 127 : Nat) : Int)) ≤ i && i < ((1 <<< 128 : Nat) : Int)

/-- The value of a plain scalar that is no integer. -/
def otherValue (text : String) : Json :=
  if isZeroPadded text.toList then .string text
  else (realSpelled? text.toList).getD (.string text)

/-- The value of a plain scalar. -/
def plainValue? (text : String) : Option Json :=
  if text.isEmpty then some .null
  else
    match (nullSpelled? text).orElse fun _ => boolSpelled? text with
    | some value => some value
    | none =>
      match integer? text.toList with
      | some i =>
        if fits64 i then some (.ofInt i)
        else if fits128 i then none
        else some (otherValue text)
      | none => some (otherValue text)

/-- The value of a scalar whose tag is a standard one. -/
def taggedValue? (tag text : String) : Option Json :=
  if tag = "tag:yaml.org,2002:null" then nullSpelled? text
  else if tag = "tag:yaml.org,2002:bool" then boolSpelled? text
  else if tag = "tag:yaml.org,2002:int" then
    (integer? text.toList).bind fun i => if fits64 i then some (.ofInt i) else none
  else if tag = "tag:yaml.org,2002:float" then realSpelled? text.toList
  else some (.string text)

/-- Whether a tag is an application's own. -/
def isOwnTag (tag : Option String) : Bool := tag.any fun t => t.startsWith "!"

/-- The value of a scalar. -/
def scalarValue? (tag : Option String) (plain : Bool) (text : String) : Option Json :=
  if isOwnTag tag then none
  else match tag with
    | some tag => taggedValue? tag text
    | none => if plain then plainValue? text else some (.string text)

end Yaml

end OpenApi
