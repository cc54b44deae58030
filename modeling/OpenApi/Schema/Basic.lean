import OpenApi.Options
import OpenApi.Schema.Validator

/-!
# Schemas

A schema of a registry, known by its address. The address is that of a node
that was there when the schema was made; references at the node are followed
only when the schema is used.

## Main definitions

* `Schema`: A schema of a registry.
* `Schema.find`: The schema at an address.
* `Schema.ofJson`: A schema that stands alone.
* `Schema.validate`: Validates an instance.
-/

namespace OpenApi

/-- A schema of a registry. -/
structure Schema where
  /-- Where the schema is, and where its references lead. -/
  registry : Registry
  /-- The address of the schema. -/
  address : Uri

namespace Schema

/-- The schema at an address. -/
def find (r : Registry) (address : String) : Except SchemaError Schema :=
  match r.find? address with
  | some n => .ok ⟨r, n.scopeUri⟩
  | none => .error ⟨address, .reference, some address⟩

/-- A schema that stands alone, as a document of its own. -/
def ofJson (schema : Json) (settings : Settings) : Except Error Schema := do
  let (uri, r) ← (Registry.empty.register settings.baseScope schema).mapError .document
  (find r uri.text).mapError fun e => .failure (.schema e)

/-- The node of a schema. -/
def node (s : Schema) : Except SchemaError Node :=
  match s.registry.node? s.address with
  | some n => .ok n
  | none => .error ⟨s.address.text, .reference, some s.address.text⟩

/-- The node of a schema after following references. -/
def resolved (s : Schema) : Except SchemaError Node := do
  let n ← s.node
  s.registry.deref n

/-- What a schema is evaluated with. -/
def validator (s : Schema) (o : ValidationOptions) : Validator :=
  ⟨s.registry, .openApi, o.converts false⟩

/-- Validates an instance at a path of a larger one. -/
def validateAt (s : Schema) (path : String) (x : Json) (o : ValidationOptions) :
    Except Failure Json := do
  let n ← s.node.mapError .schema
  (s.validator o).evaluate n path x

/-- Validates an instance. -/
def validate (s : Schema) (x : Json) (o : ValidationOptions) : Except Failure Json :=
  s.validateAt "" x o

end Schema

end OpenApi
