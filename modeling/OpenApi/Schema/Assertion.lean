import OpenApi.Error
import OpenApi.Pattern.Reader
import OpenApi.Registry.Node
import OpenApi.SchemaType

/-!
# Assertions

The keywords that look at an instance as a whole and apply no subschema to it.
They either accept the instance as it stands or reject it.

A keyword says nothing about instances of other types: a bound on numbers
accepts every text, and a bound on the length of texts accepts every number.
Most keywords with a value of the wrong kind say nothing at all; only `type`
and `pattern` then make the schema unusable.

Numbers are compared as doubles, so integers beyond 53 bits are first rounded
to the nearest double.

A bound with `true` as its exclusive counterpart is exclusive itself. The
counterpart may also be a bound of its own.

## Main definitions

* `Node.accept`: Accepts an instance, or rejects it.
* `Node.checkType`, `Node.checkEnum`, `Node.checkConst`: Keywords on all
  instances.
* `Node.checkMultipleOf`, `Node.checkMaximum`, `Node.checkMinimum` and their
  exclusive counterparts: Keywords on numbers.
* `Node.checkMaxLength`, `Node.checkMinLength`, `Node.checkPattern`: Keywords
  on texts.
* `Node.checkMaxItems`, `Node.checkMinItems`, `Node.checkUniqueItems`: Keywords
  on arrays.
* `Node.checkMaxProperties`, `Node.checkMinProperties`, `Node.checkRequired`:
  Keywords on objects.
-/

namespace OpenApi

namespace Node

/-- Accepts an instance if it satisfies a keyword, and rejects it otherwise. -/
def accept (n : Node) (path : String) (kind : ViolationKind) (x : Json) (satisfied : Bool) :
    Except Failure Json :=
  if satisfied then .ok x else .error (.ofViolation path n.scope kind)

/-- The names of the types a schema lists, if its `type` is well-formed. Items
    of a list that are no texts are no names. -/
def typeNames? (n : Node) : Option (List String) :=
  match n.get? "type" with
  | some (.string name) => some [name]
  | some (.array names) => some (names.filterMap Json.string?)
  | _ => none

/-- Whether an instance has one of the named types. Names are only looked at up
    to the first one that fits; an unknown one is answered as an error. -/
def hasTypeAmong (x : Json) : List String → Except String Bool
  | [] => .ok false
  | name :: rest =>
    match SchemaType.ofName? name with
    | none => .error name
    | some t => if t.admits x then .ok true else hasTypeAmong x rest

/-- Checks `type`. -/
def checkType (n : Node) (path : String) (x : Json) : Except Failure Json :=
  match n.typeNames? with
  | none => .error (.ofSchema n.scope .type none)
  | some names =>
    match hasTypeAmong x names with
    | .error name => .error (.ofSchema n.scope .type (some name))
    | .ok satisfied => n.accept path .type x satisfied

/-- Checks `enum`. -/
def checkEnum (n : Node) (path : String) (x : Json) : Except Failure Json :=
  match n.get? "enum" with
  | some (.array allowed) => n.accept path .enum x (x.occursIn allowed)
  | _ => .ok x

/-- Checks `const`. -/
def checkConst (n : Node) (path : String) (x : Json) : Except Failure Json :=
  match n.get? "const" with
  | some expected => n.accept path .const x (expected.same x)
  | none => .ok x

/-- Checks a number against the number under a key. -/
def checkNumber (n : Node) (key : String) (path : String) (kind : ViolationKind) (x : Json)
    (satisfied : Binary64 → Binary64 → Bool) : Except Failure Json :=
  match x.double?, (n.get? key).bind Json.double? with
  | some number, some limit => n.accept path kind x (satisfied number limit)
  | _, _ => .ok x

/-- Whether the value under a key is `true`. -/
def isTrue (n : Node) (key : String) : Bool := (n.get? key).any Json.isTrue

/-- Checks `multipleOf`. Only positive numbers have multiples. -/
def checkMultipleOf (n : Node) (path : String) (x : Json) : Except Failure Json :=
  n.checkNumber "multipleOf" path .multipleOf x fun number unit =>
    !Binary64.zero.lt unit || number.isMultipleOf unit

/-- Checks `maximum`. -/
def checkMaximum (n : Node) (path : String) (x : Json) : Except Failure Json :=
  if n.isTrue "exclusiveMaximum" then
    n.checkNumber "maximum" path .exclusiveMaximum x fun number limit => number.lt limit
  else n.checkNumber "maximum" path .maximum x fun number limit => number.le limit

/-- Checks `exclusiveMaximum`. -/
def checkExclusiveMaximum (n : Node) (path : String) (x : Json) : Except Failure Json :=
  n.checkNumber "exclusiveMaximum" path .exclusiveMaximum x fun number limit => number.lt limit

/-- Checks `minimum`. -/
def checkMinimum (n : Node) (path : String) (x : Json) : Except Failure Json :=
  if n.isTrue "exclusiveMinimum" then
    n.checkNumber "minimum" path .exclusiveMinimum x fun number limit => limit.lt number
  else n.checkNumber "minimum" path .minimum x fun number limit => limit.le number

/-- Checks `exclusiveMinimum`. -/
def checkExclusiveMinimum (n : Node) (path : String) (x : Json) : Except Failure Json :=
  n.checkNumber "exclusiveMinimum" path .exclusiveMinimum x fun number limit => limit.lt number

/-- Checks a size, if the instance has one, against the natural number under a
    key. -/
def checkMeasure (n : Node) (key : String) (path : String) (kind : ViolationKind) (x : Json)
    (size? : Option Nat) (satisfied : Nat → Nat → Bool) : Except Failure Json :=
  match size?, (n.get? key).bind Json.nat? with
  | some size, some limit => n.accept path kind x (satisfied size limit)
  | _, _ => .ok x

/-- How many characters a text has. -/
def length? (x : Json) : Option Nat := x.string?.map String.length

/-- How many items an array has. -/
def size? (x : Json) : Option Nat := x.array?.map List.length

/-- How many members an object has. -/
def count? (x : Json) : Option Nat := x.object?.map List.length

/-- Checks `maxLength`. -/
def checkMaxLength (n : Node) (path : String) (x : Json) : Except Failure Json :=
  n.checkMeasure "maxLength" path .maxLength x (length? x) fun size limit => size ≤ limit

/-- Checks `minLength`. -/
def checkMinLength (n : Node) (path : String) (x : Json) : Except Failure Json :=
  n.checkMeasure "minLength" path .minLength x (length? x) fun size limit => limit ≤ size

/-- Checks `maxItems`. -/
def checkMaxItems (n : Node) (path : String) (x : Json) : Except Failure Json :=
  n.checkMeasure "maxItems" path .maxItems x (size? x) fun size limit => size ≤ limit

/-- Checks `minItems`. -/
def checkMinItems (n : Node) (path : String) (x : Json) : Except Failure Json :=
  n.checkMeasure "minItems" path .minItems x (size? x) fun size limit => limit ≤ size

/-- Checks `maxProperties`. -/
def checkMaxProperties (n : Node) (path : String) (x : Json) : Except Failure Json :=
  n.checkMeasure "maxProperties" path .maxProperties x (count? x) fun size limit => size ≤ limit

/-- Checks `minProperties`. -/
def checkMinProperties (n : Node) (path : String) (x : Json) : Except Failure Json :=
  n.checkMeasure "minProperties" path .minProperties x (count? x) fun size limit => limit ≤ size

/-- Checks `pattern`, which must be a regular expression. -/
def checkPattern (n : Node) (path : String) (x : Json) : Except Failure Json :=
  match x.string?, n.get? "pattern" with
  | some text, some source =>
    match source.string?.bind Pattern.read? with
    | none => .error (.ofSchema n.scope .pattern none)
    | some r => n.accept path .pattern x (r.isMatch text)
  | _, _ => .ok x

/-- Whether no two items of a list are equal. -/
def allDistinct : List Json → Bool
  | [] => true
  | x :: rest => !x.occursIn rest && allDistinct rest

/-- Checks `uniqueItems`. -/
def checkUniqueItems (n : Node) (path : String) (x : Json) : Except Failure Json :=
  match x with
  | .array items =>
    if n.isTrue "uniqueItems" then n.accept path .uniqueItems x (allDistinct items) else .ok x
  | _ => .ok x

/-- Checks `required`. Every missing name is a cause of its own. -/
def checkRequired (n : Node) (path : String) (x : Json) : Except Failure Json :=
  match x, n.get? "required" with
  | .object members, some (.array names) =>
    let missing := (names.filterMap Json.string?).filter fun name => !Ordered.contains members name
    if missing.isEmpty then .ok x
    else .error (.ofCauses path n.scope .required
      (missing.map fun name => ⟨Pointer.push path name, n.scope, .required, []⟩))
  | _, _ => .ok x

end Node

end OpenApi
