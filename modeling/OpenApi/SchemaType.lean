import OpenApi.Json.Basic
import OpenApi.Numeric.Decimal
import OpenApi.Text.Blank

/-!
# Types of Instances

The seven types a schema can demand, and the conversion of texts into them.

A number without a fraction is an integer, however it is written. Every integer
is a number; otherwise an instance has one type.

Parameters arrive as texts, so a text that spells a boolean or a number can be
converted to one. A numeral is read as a double; where that has no fraction and
fits a signed 64-bit integer the result is an integer. A text that spells no
value of the type is left as it is, for the check of the type to reject.

## Main definitions

* `SchemaType`: A type.
* `SchemaType.admits`: Whether an instance has a type.
* `SchemaType.convert`: Converts a text.
-/

namespace OpenApi

/-- A type of instances. -/
inductive SchemaType where
  | null
  | boolean
  | number
  | integer
  | string
  | object
  | array
deriving DecidableEq, Repr

/-- The number a text spells, blanks around it not counting. -/
def Number.ofText? (text : String) : Option Number := do
  let d ← Decimal.read? (Text.trim text.toList)
  let x ← d.toBinary64?
  match x.toInt? with
  | some i => if i.natAbs < 1 <<< 63 then pure (.int i) else pure (.real x)
  | none => pure (.real x)

/-- The boolean a text spells. -/
def boolOfText? (text : String) : Option Bool :=
  if text ∈ ["true", "1"] then some true
  else if text ∈ ["false", "0"] then some false
  else none

namespace SchemaType

/-- All types. -/
def all : List SchemaType := [.null, .boolean, .number, .integer, .string, .object, .array]

/-- The name of a type. -/
def name : SchemaType → String
  | .null => "null"
  | .boolean => "boolean"
  | .number => "number"
  | .integer => "integer"
  | .string => "string"
  | .object => "object"
  | .array => "array"

/-- The type of a name. -/
def ofName? (text : String) : Option SchemaType := all.find? fun t => t.name == text

/-- Whether an instance has a type. -/
def admits : SchemaType → Json → Bool
  | .null, .null => true
  | .boolean, .bool _ => true
  | .number, .number _ => true
  | .integer, .number n => n.isIntegral
  | .string, .string _ => true
  | .object, .object _ => true
  | .array, .array _ => true
  | _, _ => false

/-- The value of a type that a text spells; the text itself when it spells none. -/
def convertText (t : SchemaType) (text : String) : Json :=
  let converted : Option Json := match t with
    | .boolean => (boolOfText? text).map .bool
    | .number | .integer => (Number.ofText? text).map .number
    | _ => none
  converted.getD (.string text)

/-- Converts an instance that is a text; other instances stay as they are. -/
def convert (t : SchemaType) : Json → Json
  | .string text => t.convertText text
  | x => x

/-- Converts an instance that may be absent. An absent one is the null value
    where that is demanded. -/
def convert? (t : SchemaType) : Option Json → Option Json
  | some x => some (t.convert x)
  | none => if t = .null then some .null else none

end SchemaType

end OpenApi
