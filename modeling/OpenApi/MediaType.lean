import OpenApi.Schema.Basic

/-!
# Media Types

What a request or response of one content type holds: a schema, if any. Without
a schema every instance is accepted as it stands.

## Main definitions

* `MediaType`: A content type with its schema.
* `MediaType.find`: The media type at an address.
* `MediaType.validate`: Validates an instance.
-/

namespace OpenApi

/-- A content type with its schema. -/
structure MediaType where
  /-- The content type. -/
  contentType : String
  /-- The schema, if there is one. -/
  schema? : Option Schema

/-- The schema of the member `schema` of a node, if there is one. -/
def Registry.memberSchema? (r : Registry) (n : Node) : Except Failure (Option Schema) :=
  match n.child? ["schema"] with
  | none => .ok none
  | some child => ((Schema.find r child.scope).mapError .schema).map some

namespace MediaType

/-- The media type at an address, for a content type. -/
def find (r : Registry) (address contentType : String) : Except Error MediaType :=
  match r.find? address with
  | none => .error (.document (.mediaTypeNotFound address))
  | some n => do
    let n ← (r.follow n).mapError .failure
    let schema? ← (r.memberSchema? n).mapError .failure
    .ok ⟨contentType, schema?⟩

/-- A media type that stands alone, as a document of its own. -/
def ofJson (mediaType : Json) (contentType : String) : Except Error MediaType := do
  let (uri, r) ← (Registry.empty.register Settings.default.baseScope mediaType).mapError .document
  find r uri.text contentType

/-- Validates an instance, whose content type is then known. -/
def validate (m : MediaType) (x : Json) (o : ValidationOptions) : Except Failure Json :=
  match m.schema? with
  | none => .ok x
  | some schema => schema.validate x { o with contentType? := some m.contentType }

end MediaType

end OpenApi
