/-!
# Errors

What can go wrong, by who is to blame.

A schema error says that the schema is unusable, whatever the instance. A
violation says that the instance does not satisfy a usable schema; violations
of the keywords that apply subschemas carry the violations below them, so a
violation is a tree. A parameter error says that the description of a
parameter is unusable, and a document error that something could not be read,
registered or found.

A run of the validator ends in a value, in a schema error or in a violation.
The third failure, `Failure.depth`, is the bound on the depth of the recursion
being reached; a schema that recurses without end has no other outcome.

## Main definitions

* `SchemaError`, `Violation`, `ParameterError`, `DocumentError`: The four kinds.
* `Failure`: How a validation fails.
* `Error`: Any failure.
* `Error.kind`, `Error.message`: The short and the long text of an error.
-/

namespace OpenApi

/-- Why a schema is unusable. -/
inductive SchemaErrorKind where
  /-- `type` names no type. -/
  | type
  /-- `format` is no text. -/
  | format
  /-- `discriminator` has no `propertyName`. -/
  | discriminator
  /-- An entry of the `mapping` of a discriminator is no text. -/
  | mapping
  /-- The schema a discriminator names cannot be found. -/
  | subschema
  /-- A reference cannot be followed. -/
  | reference
  /-- `pattern` is no regular expression. -/
  | pattern
deriving DecidableEq, Repr

/-- The short text of a kind. -/
def SchemaErrorKind.name : SchemaErrorKind → String
  | .type => "type"
  | .format => "format"
  | .discriminator => "discriminator"
  | .mapping => "mapping"
  | .subschema => "subschema"
  | .reference => "ref"
  | .pattern => "pattern"

/-- A defect of a schema. -/
structure SchemaError where
  /-- The address of the schema. -/
  scope : String
  /-- The defect. -/
  kind : SchemaErrorKind
  /-- The text that is to blame, when there is one. -/
  info : Option String
deriving DecidableEq, Repr

/-- Which keyword an instance does not satisfy. -/
inductive ViolationKind where
  | type
  | required
  | enum
  | const
  | multipleOf
  | maximum
  | exclusiveMaximum
  | minimum
  | exclusiveMinimum
  | maxLength
  | minLength
  | pattern
  | items
  | additionalItems
  | maxItems
  | minItems
  | uniqueItems
  | maxProperties
  | minProperties
  | properties
  | additionalProperties
  | discriminator
  | allOf
  | anyOf
  | oneOf
  | not
  | contentType
deriving DecidableEq, Repr

/-- The short text of a kind. -/
def ViolationKind.name : ViolationKind → String
  | .type => "type"
  | .required => "required"
  | .enum => "enum"
  | .const => "const"
  | .multipleOf => "multipleOf"
  | .maximum => "maximum"
  | .exclusiveMaximum => "exclusiveMaximum"
  | .minimum => "minimum"
  | .exclusiveMinimum => "exclusiveMinimum"
  | .maxLength => "maxLength"
  | .minLength => "minLength"
  | .pattern => "pattern"
  | .items => "items"
  | .additionalItems => "additionalItems"
  | .maxItems => "maxItems"
  | .minItems => "minItems"
  | .uniqueItems => "uniqueItems"
  | .maxProperties => "maxProperties"
  | .minProperties => "minProperties"
  | .properties => "properties"
  | .additionalProperties => "additionalProperties"
  | .discriminator => "discriminator"
  | .allOf => "allOf"
  | .anyOf => "anyOf"
  | .oneOf => "oneOf"
  | .not => "not"
  | .contentType => "content-type"

/-- An instance does not satisfy a schema. -/
structure Violation where
  /-- The path into the instance; empty for the whole of it. -/
  path : String
  /-- The address of the schema. -/
  scope : String
  /-- The keyword. -/
  kind : ViolationKind
  /-- The violations below, for keywords that apply subschemas. -/
  causes : List Violation
deriving Repr

/-- Why the description of a parameter is unusable. -/
inductive ParameterErrorKind where
  /-- `in` names no location. -/
  | location
  /-- `style` is unknown, or does not fit the location or the type. -/
  | style
  /-- A path parameter is not required. -/
  | required
  /-- `content` stands beside `schema`, or is malformed. -/
  | content
deriving DecidableEq, Repr

/-- The short text of a kind. -/
def ParameterErrorKind.name : ParameterErrorKind → String
  | .location => "in"
  | .style => "style"
  | .required => "required"
  | .content => "content"

/-- A defect of the description of a parameter. -/
structure ParameterError where
  /-- The address of the parameter. -/
  scope : String
  /-- The defect. -/
  kind : ParameterErrorKind
  /-- The text that is to blame, when there is one. -/
  info : Option String
deriving DecidableEq, Repr

/-- Something could not be read, registered or found. -/
inductive DocumentError where
  /-- The text of a document is no YAML. -/
  | unreadable (uri : String)
  /-- The address of a document is no URI. -/
  | invalidUri (uri : String)
  /-- A document is already registered under the address. -/
  | collision (uri : String)
  /-- There is no parameter at the address. -/
  | parameterNotFound (scope : String)
  /-- There is no media type at the address. -/
  | mediaTypeNotFound (scope : String)
  /-- The value at the address does not describe a parameter. -/
  | invalidParameter (scope : String)
deriving DecidableEq, Repr

/-- The text of a document error. -/
def DocumentError.message : DocumentError → String
  | .unreadable uri => "Failed to parse YAML '" ++ uri ++ "':"
  | .invalidUri uri => "Invalid retrieval URI '" ++ uri ++ "'"
  | .collision uri => "Document registry URI collision for '" ++ uri ++ "'"
  | .parameterNotFound scope => "Parameter '" ++ scope ++ "' not found"
  | .mediaTypeNotFound scope => "Media type '" ++ scope ++ "' not found"
  | .invalidParameter scope => "Invalid parameter object '" ++ scope ++ "':"

/-- How a validation fails. -/
inductive Failure where
  /-- The schema is unusable. -/
  | schema (error : SchemaError)
  /-- The instance does not satisfy the schema. -/
  | violation (violation : Violation)
  /-- The recursion is deeper than it was allowed to be. -/
  | depth
deriving Repr

namespace Failure

/-- A defect of the schema at `scope`. -/
def ofSchema (scope : String) (kind : SchemaErrorKind) (info : Option String) : Failure :=
  .schema ⟨scope, kind, info⟩

/-- A violation without causes. -/
def ofViolation (path scope : String) (kind : ViolationKind) : Failure :=
  .violation ⟨path, scope, kind, []⟩

/-- A violation with causes. -/
def ofCauses (path scope : String) (kind : ViolationKind) (causes : List Violation) : Failure :=
  .violation ⟨path, scope, kind, causes⟩

end Failure

/-- Any failure. -/
inductive Error where
  /-- A validation failed. -/
  | failure (failure : Failure)
  /-- A parameter is described badly. -/
  | parameter (error : ParameterError)
  /-- Something could not be read, registered or found. -/
  | document (error : DocumentError)
deriving Repr

namespace Error

/-- The short text of an error. -/
def kind : Error → String
  | .failure (.schema e) => e.kind.name
  | .failure (.violation v) => v.kind.name
  | .failure .depth => "depth"
  | .parameter e => e.kind.name
  | .document _ => "document"

/-- The long text of an error. -/
def message : Error → String
  | .failure (.schema e) => "schema error: " ++ e.kind.name ++ " (" ++ e.scope ++ ")"
  | .failure (.violation v) =>
    "validation error: " ++ v.kind.name ++ " at '" ++ v.path ++ "' (" ++ v.scope ++ ")"
  | .failure .depth => "schema recursion is too deep"
  | .parameter e => "parameter error: " ++ e.kind.name ++ " (" ++ e.scope ++ ")"
  | .document e => "Document Error: " ++ e.message

end Error

end OpenApi
