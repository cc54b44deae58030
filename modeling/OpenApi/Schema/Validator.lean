import OpenApi.Schema.Assertion
import OpenApi.Schema.Discriminator
import OpenApi.Schema.Keyword
import OpenApi.Schema.Members

/-!
# Validators

Evaluates a schema on an instance. References are followed first. A schema that
is an object is evaluated keyword by keyword, the instance being handed from
one to the next; `false` rejects every instance, and any other value accepts
every instance.

In the dialect of OpenAPI a schema has one type, given as a text. `null` has
that type too where the schema is nullable, and texts are converted to the type
on demand. A `format` must be a text where it applies, but is not checked.

A keyword that applies subschemas leaves their evaluation to a function it is
given. `Validator.evaluateIn` ties the knot: with a depth of `n` subschemas are
evaluated with a depth one less, and with none left the evaluation fails. A
schema that refers to itself can need any depth, and one that does so without
going down in the instance needs more than any.

## Main definitions

* `Validator`: What schemas are evaluated with.
* `Validator.evaluateKeyword`: Evaluates one keyword.
* `Validator.evaluateIn`: Evaluates a schema to a depth.
-/

namespace OpenApi

/-- What schemas are evaluated with. -/
structure Validator where
  /-- Where references lead. -/
  registry : Registry
  /-- The rules for keywords. -/
  dialect : Dialect
  /-- Whether texts are converted to the type their schema demands. -/
  converts : Bool

namespace Node

/-- Checks `type` as OpenAPI has it. -/
def checkSingleType (n : Node) (converts : Bool) (path : String) (x : Json) :
    Except Failure Json :=
  match n.get? "type" with
  | some (.string name) =>
    if x.isNull && n.isTrue "nullable" then .ok x
    else
      match converts, SchemaType.ofName? name with
      | true, some t => n.checkType path (t.convert x)
      | _, _ => n.checkType path x
  | _ => .error (.ofSchema n.scope .type none)

/-- Checks that `format` is a text. -/
def checkFormat (n : Node) (x : Json) : Except Failure Json :=
  match x, n.get? "format" with
  | .string _, some (.string _) => .ok x
  | .string _, _ => .error (.ofSchema n.scope .format none)
  | _, _ => .ok x

end Node

namespace Validator

/-- Evaluates a keyword of a schema. Subschemas are evaluated by `evaluate`. -/
def evaluateKeyword (v : Validator) (evaluate : Evaluation) (k : Keyword) : Evaluation :=
  fun n path x =>
    match k, v.dialect with
    | .type, .jsonSchema => n.checkType path x
    | .type, .openApi => n.checkSingleType v.converts path x
    | .enum, _ => n.checkEnum path x
    | .const, _ => n.checkConst path x
    | .multipleOf, _ => n.checkMultipleOf path x
    | .maximum, _ => n.checkMaximum path x
    | .exclusiveMaximum, _ => n.checkExclusiveMaximum path x
    | .minimum, _ => n.checkMinimum path x
    | .exclusiveMinimum, _ => n.checkExclusiveMinimum path x
    | .maxLength, _ => n.checkMaxLength path x
    | .minLength, _ => n.checkMinLength path x
    | .pattern, _ => n.checkPattern path x
    | .format, .jsonSchema => .ok x
    | .format, .openApi => n.checkFormat x
    | .items, _ => n.applyItems evaluate path x
    | .additionalItems, _ => n.applyAdditionalItems evaluate path x
    | .maxItems, _ => n.checkMaxItems path x
    | .minItems, _ => n.checkMinItems path x
    | .uniqueItems, _ => n.checkUniqueItems path x
    | .maxProperties, _ => n.checkMaxProperties path x
    | .minProperties, _ => n.checkMinProperties path x
    | .required, _ => n.checkRequired path x
    | .properties, _ => n.applyProperties v.registry evaluate path x
    | .additionalProperties, _ => n.applyAdditionalProperties evaluate path x
    | .discriminator, .jsonSchema => .ok x
    | .discriminator, .openApi => n.applyDiscriminator v.registry evaluate path x
    | .allOf, _ => n.applyAllOf v.registry evaluate path x
    | .anyOf, _ => n.applyAnyOf evaluate path x
    | .oneOf, .jsonSchema => n.applyOneOf evaluate path x
    | .oneOf, .openApi =>
      if n.has "discriminator" then n.applySelectedOneOf v.registry evaluate path x
      else n.applyOneOf evaluate path x
    | .not, _ => n.applyNot evaluate path x

/-- Evaluates keywords one after the other, as far as the schema has them. -/
def evaluateKeywords (v : Validator) (evaluate : Evaluation) (keywords : List Keyword) :
    Evaluation :=
  fun n path x =>
    (keywords.filter fun k => n.has k.name).foldlM
      (fun x k => v.evaluateKeyword evaluate k n path x) x

/-- Evaluates a schema. Subschemas are evaluated by `evaluate`. -/
def evaluateWith (v : Validator) (evaluate : Evaluation) : Evaluation :=
  fun n path x => do
    let n ← v.registry.follow n
    match n.value with
    | .object _ => v.evaluateKeywords evaluate v.dialect.keywords n path x
    | .bool false => .error (.ofViolation path n.scope .not)
    | _ => .ok x

/-- Evaluates a schema, subschemas at most `depth` deep. -/
def evaluateIn (v : Validator) : Nat → Evaluation
  | 0, _, _, _ => .error .depth
  | depth + 1, n, path, x => v.evaluateWith (v.evaluateIn depth) n path x

/-- How deep subschemas are evaluated. -/
def maxDepth : Nat := 10000

/-- Evaluates a schema. -/
def evaluate (v : Validator) : Evaluation := v.evaluateIn maxDepth

/-- Evaluates the keyword of a name, without following references first. A name
    that is no keyword accepts every instance. -/
def evaluateNamed (v : Validator) (name : String) : Evaluation :=
  match Keyword.ofName? name with
  | some k => v.evaluateKeyword v.evaluate k
  | none => fun _ _ x => .ok x

end Validator

end OpenApi
