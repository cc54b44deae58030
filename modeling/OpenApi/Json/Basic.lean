import OpenApi.Numeric.Binary64
import OpenApi.Ordered

/-!
# JSON Values

The instances a schema accepts or rejects, and the documents schemas are
written in.

Numbers are of two kinds that are never equal to each other: integers of the
64-bit signed and unsigned ranges, and doubles. The literal decides the kind,
so `1` and `1.0` are different values. Objects keep the order of their members,
but two objects with the same members in different orders are equal.

Equality of values in this sense is `Json.same`. It is coarser than equality of
terms, which sees the order of members and the sign of a zero.

## Main definitions

* `Number`: An integer or a double.
* `Json`: A JSON value.
* `Json.same`: Equality of values.
* `Json.get?`: A member of an object.
-/

namespace OpenApi

/-- A JSON number. -/
inductive Number where
  /-- An integer that fits 64 bits, signed or unsigned. -/
  | int (value : Int)
  /-- A double. -/
  | real (value : Binary64)
deriving DecidableEq, Repr

namespace Number

/-- The largest unsigned 64-bit integer. -/
def maxUnsigned : Int := 18446744073709551615

/-- The smallest signed 64-bit integer. -/
def minSigned : Int := -9223372036854775808

/-- The number an integer literal denotes: itself if it fits 64 bits, else the
    nearest double. -/
def ofLiteral (i : Int) : Number :=
  if minSigned ≤ i ∧ i ≤ maxUnsigned then .int i else .real (Binary64.ofInt i)

/-- The nearest double. -/
def toBinary64 : Number → Binary64
  | .int i => Binary64.ofInt i
  | .real x => x

/-- Whether the number is an integer, written as one or not. -/
def isIntegral : Number → Bool
  | .int _ => true
  | .real x => x.toInt?.isSome

/-- The natural number written as an integer literal without a sign. -/
def toNat? : Number → Option Nat
  | .int i => if 0 ≤ i then some i.toNat else none
  | .real _ => none

/-- Equality of numbers of one kind; numbers of different kinds are not equal. -/
def same : Number → Number → Bool
  | .int i, .int j => i == j
  | .real x, .real y => x.sameValue y
  | _, _ => false

end Number

/-- A JSON value. -/
inductive Json where
  /-- The null value. -/
  | null
  /-- A truth value. -/
  | bool (value : Bool)
  /-- A number. -/
  | number (value : Number)
  /-- A text. -/
  | string (value : String)
  /-- An array of values. -/
  | array (items : List Json)
  /-- An object, its members in order. -/
  | object (members : List (String × Json))
deriving Repr

namespace Json

instance : Inhabited Json := ⟨.null⟩

/-- An integer as a JSON value. -/
def ofInt (i : Int) : Json := .number (.int i)

mutual

/-- Whether two values are equal, whatever the order of object members. -/
def same : Json → Json → Bool
  | .null, .null => true
  | .bool a, .bool b => a == b
  | .number m, .number n => m.same n
  | .string s, .string t => s == t
  | .array xs, .array ys => sameItems xs ys
  | .object xs, .object ys => xs.length == ys.length && sameMembers xs ys
  | _, _ => false

/-- Whether two arrays have equal items in the same places. -/
def sameItems : List Json → List Json → Bool
  | [], [] => true
  | x :: xs, y :: ys => same x y && sameItems xs ys
  | _, _ => false

/-- Whether every member of the first object is an equal member of the second. -/
def sameMembers : List (String × Json) → List (String × Json) → Bool
  | [], _ => true
  | (key, x) :: xs, ys =>
    (match Ordered.get? ys key with
      | some y => same x y
      | none => false) && sameMembers xs ys

end

/-- Whether a list holds a value equal to `value`. -/
def occursIn (value : Json) (values : List Json) : Bool :=
  values.any fun other => same other value

/-- The member under `key`, if the value is an object and has one. -/
def get? : Json → String → Option Json
  | .object members, key => Ordered.get? members key
  | _, _ => none

/-- Whether the value is an object with a member under `key`. -/
def has (value : Json) (key : String) : Bool := (value.get? key).isSome

/-- The text of a string. -/
def string? : Json → Option String
  | .string s => some s
  | _ => none

/-- The truth value of a boolean. -/
def bool? : Json → Option Bool
  | .bool b => some b
  | _ => none

/-- The items of an array. -/
def array? : Json → Option (List Json)
  | .array items => some items
  | _ => none

/-- The members of an object. -/
def object? : Json → Option (Ordered Json)
  | .object members => some members
  | _ => none

/-- The double nearest to a number. -/
def double? : Json → Option Binary64
  | .number n => some n.toBinary64
  | _ => none

/-- The natural number of an integer literal without a sign. -/
def nat? : Json → Option Nat
  | .number n => n.toNat?
  | _ => none

/-- Whether the value is null. -/
def isNull : Json → Bool
  | .null => true
  | _ => false

/-- Whether the value is the boolean `true`. -/
def isTrue : Json → Bool
  | .bool b => b
  | _ => false

/-- Whether the value is the boolean `false`. -/
def isFalse : Json → Bool
  | .bool b => !b
  | _ => false

end Json

end OpenApi
