/-!
# Keywords

The members of a schema that constrain instances, and the order in which they
are evaluated. The order does not depend on the order of the members.

There are two dialects. The one of OpenAPI has one keyword more, the
discriminator, which is evaluated in front of the combinators.

## Main definitions

* `Keyword`: A keyword.
* `Dialect`: A set of rules for keywords.
* `Dialect.keywords`: The keywords in the order of evaluation.
-/

namespace OpenApi

/-- A keyword that constrains instances. -/
inductive Keyword where
  | type
  | enum
  | const
  | multipleOf
  | maximum
  | exclusiveMaximum
  | minimum
  | exclusiveMinimum
  | maxLength
  | minLength
  | pattern
  | format
  | items
  | additionalItems
  | maxItems
  | minItems
  | uniqueItems
  | maxProperties
  | minProperties
  | required
  | properties
  | additionalProperties
  | discriminator
  | allOf
  | anyOf
  | oneOf
  | not
deriving DecidableEq, Repr

namespace Keyword

/-- All keywords in the order of evaluation. -/
def all : List Keyword :=
  [.type, .enum, .const, .multipleOf, .maximum, .exclusiveMaximum, .minimum, .exclusiveMinimum,
    .maxLength, .minLength, .pattern, .format, .items, .additionalItems, .maxItems, .minItems,
    .uniqueItems, .maxProperties, .minProperties, .required, .properties, .additionalProperties,
    .discriminator, .allOf, .anyOf, .oneOf, .not]

/-- The name of a keyword. -/
def name : Keyword → String
  | .type => "type"
  | .enum => "enum"
  | .const => "const"
  | .multipleOf => "multipleOf"
  | .maximum => "maximum"
  | .exclusiveMaximum => "exclusiveMaximum"
  | .minimum => "minimum"
  | .exclusiveMinimum => "exclusiveMinimum"
  | .maxLength => "maxLength"
  | .minLength => "minLength"
  | .pattern => "pattern"
  | .format => "format"
  | .items => "items"
  | .additionalItems => "additionalItems"
  | .maxItems => "maxItems"
  | .minItems => "minItems"
  | .uniqueItems => "uniqueItems"
  | .maxProperties => "maxProperties"
  | .minProperties => "minProperties"
  | .required => "required"
  | .properties => "properties"
  | .additionalProperties => "additionalProperties"
  | .discriminator => "discriminator"
  | .allOf => "allOf"
  | .anyOf => "anyOf"
  | .oneOf => "oneOf"
  | .not => "not"

/-- The keyword of a name. -/
def ofName? (text : String) : Option Keyword := all.find? fun k => k.name == text

end Keyword

/-- A set of rules for keywords. -/
inductive Dialect where
  /-- JSON Schema without extensions. -/
  | jsonSchema
  /-- The schemas of OpenAPI. -/
  | openApi
deriving DecidableEq, Repr

/-- The keywords of a dialect in the order of evaluation. -/
def Dialect.keywords : Dialect → List Keyword
  | .jsonSchema => Keyword.all.filter fun k => k != .discriminator
  | .openApi => Keyword.all

end OpenApi
