import OpenApi.MediaType
import OpenApi.Parameter.Decoded

/-!
# Parameters

One parameter of a request. Its description says where in the request it is,
how it is laid out there, whether it must be present, and what its value is: by
a schema, or by a choice of media types.

A description is only accepted if its place is known, its style is one that the
place allows, a parameter in the path is required, and it does not have both a
schema and a choice of media types. Of the faults a description has, the one
that comes first in this list is reported.

A parameter that arrives as a text is decoded according to its style once, if
its schema names a type, and then converted to that type. The empty text stands
for null where the schema is nullable. Decoding can lead to nothing, which
counts as a parameter that is absent.

## Main definitions

* `ParameterFields`: What a description says, as it is written.
* `Parameter`: A parameter whose description was accepted.
* `Parameter.find`: The parameter at an address.
* `Parameter.select`: The media type for a content type.
* `Parameter.validate`: Validates a parameter.
-/

namespace OpenApi

/-- What the description of a parameter says, as it is written. -/
structure ParameterFields where
  /-- The name. -/
  name : String
  /-- The place in the request. -/
  location? : Option String
  /-- The style. -/
  style? : Option String
  /-- Whether arrays and objects are exploded. -/
  explode? : Option Bool
  /-- Whether the parameter must be present. -/
  required? : Option Bool
  /-- Whether the parameter should no longer be used. -/
  deprecated : Bool
deriving DecidableEq, Repr

/-- Fields from JSON. -/
def ParameterFields.ofJson? (value : Json) : Option ParameterFields := do
  let f ← Fields.ofJson? 6 value
  let name ← f.get "name" 0 Json.string? ""
  let location? ← f.optional? "in" 1 Json.string?
  let style? ← f.optional? "style" 2 Json.string?
  let explode? ← f.optional? "explode" 3 Json.bool?
  let required? ← f.optional? "required" 4 Json.bool?
  let deprecated ← f.get "deprecated" 5 Json.bool? false
  pure ⟨name, location?, style?, explode?, required?, deprecated⟩

/-- A parameter whose description was accepted. -/
structure Parameter where
  /-- The address of the description. -/
  scope : String
  /-- The place in the request. -/
  location : ParameterLocation
  /-- The name and the layout. -/
  serialization : Serialization
  /-- Whether the parameter must be present. -/
  required : Bool
  /-- Whether the parameter should no longer be used. -/
  deprecated : Bool
  /-- The schema of the value. -/
  schema? : Option Schema
  /-- The media types of the value, by content type. -/
  content : Ordered MediaType
  /-- The settings. -/
  settings : Settings

namespace Parameter

/-- A fault in the description at `scope`. -/
def fault (scope : String) (kind : ParameterErrorKind) (info : Option String) : Error :=
  .parameter ⟨scope, kind, info⟩

/-- The place a description names. -/
def readLocation (scope : String) (f : ParameterFields) : Except Error ParameterLocation :=
  let text := f.location?.getD ""
  match ParameterLocation.ofName? text with
  | some location => .ok location
  | none => .error (fault scope .location (some text))

/-- The style a description names, or the default of its place. -/
def readStyle (scope : String) (f : ParameterFields) (location : ParameterLocation) :
    Except Error ParameterStyle :=
  match f.style? with
  | none => .ok location.defaultStyle
  | some text =>
    match ParameterStyle.ofName? text with
    | some style =>
      if location.styles.contains style then .ok style
      else .error (fault scope .style (some text))
    | none => .error (fault scope .style (some text))

/-- Checks that a parameter in the path is required. -/
def checkPath (scope : String) (f : ParameterFields) (location : ParameterLocation) :
    Except Error Unit :=
  if location = .path ∧ f.required? ≠ some true then
    .error (fault scope .required (f.required?.map fun b => if b then "true" else "false"))
  else .ok ()

/-- Checks that a description does not have both a schema and media types. -/
def checkExclusive (scope : String) (n : Node) : Except Error Unit :=
  if n.has "schema" && n.has "content" then
    .error (fault scope .content (some "schema and content are mutually exclusive"))
  else .ok ()

/-- Reads the media type for one content type, which must be an object. -/
def readMediaType (r : Registry) (scope : String) (n : Node) (contentType : String) :
    Except Error (Option (String × MediaType)) :=
  match n.child? ["content", contentType] with
  | none => .ok none
  | some child =>
    match child.value with
    | .object _ => do
      let m ← MediaType.find r child.scope contentType
      .ok (some (contentType, m))
    | _ => .error (fault scope .content (some contentType))

/-- Reads the media types of a description, of which there must be some if
    `content` is present. -/
def readContent (r : Registry) (scope : String) (n : Node) :
    Except Error (Ordered MediaType) :=
  match n.get? "content" with
  | none => .ok []
  | some (.object (entry :: rest)) => do
    let found ← (Ordered.keys (entry :: rest)).mapM (readMediaType r scope n)
    .ok (found.filterMap id)
  | some _ => .error (fault scope .content none)

/-- The parameter at an address. -/
def find (r : Registry) (address : String) (settings : Settings) : Except Error Parameter :=
  match r.find? address with
  | none => .error (.document (.parameterNotFound address))
  | some n => do
    let n ← (r.follow n).mapError .failure
    let scope := n.scope
    match ParameterFields.ofJson? n.value with
    | none => .error (.document (.invalidParameter scope))
    | some f =>
      let location ← readLocation scope f
      let style ← readStyle scope f location
      checkPath scope f location
      checkExclusive scope n
      let schema? ← (r.memberSchema? n).mapError .failure
      let content ← readContent r scope n
      .ok
        { scope, location, schema?, content, settings
          serialization := ⟨f.name, style, f.explode?.getD false⟩
          required := f.required?.getD false
          deprecated := f.deprecated }

/-- A parameter that stands alone, as a document of its own. -/
def ofJson (parameter : Json) : Except Error Parameter := do
  let settings := Settings.default
  let (uri, r) ← (Registry.empty.register settings.baseScope parameter).mapError .document
  find r uri.text settings

/-- Checks that a parameter is not absent if it is required. -/
def checkPresence (p : Parameter) (x? : Option Json) : Except Error (Option Json) :=
  match x? with
  | none =>
    if p.required then .error (.failure (.ofViolation "" p.scope .required)) else .ok none
  | some x => .ok (some x)

/-- The content type that stands for all others. -/
def anyContentType : String := "*/*"

/-- The media type for the content type asked for, or for the one that was
    settled; the media type for all content types stands in for a missing one. -/
def select (p : Parameter) (o : ValidationOptions) : Except Error MediaType :=
  let wanted := o.contentType?.getD p.settings.contentType
  match (Ordered.get? p.content wanted).or (Ordered.get? p.content anyContentType) with
  | some m => .ok m
  | none => .error (.failure (.ofViolation "" p.scope .contentType))

/-- Validates a parameter by its media types. -/
def validateContent (p : Parameter) (x? : Option Json) (o : ValidationOptions) :
    Except Error (Option Json) := do
  match ← p.checkPresence x? with
  | none => .ok none
  | some x =>
    let m ← p.select o
    let x ← (m.validate x o).mapError .failure
    .ok (some x)

/-- The type that a schema names, if it names one. -/
def typeOf (n : Node) : Except Failure (Option SchemaType) :=
  match n.get? "type" with
  | none => .ok none
  | some (.string name) =>
    match SchemaType.ofName? name with
    | some t => .ok (some t)
    | none => .error (.ofSchema n.scope .type (some name))
  | some _ => .error (.ofSchema n.scope .type none)

/-- Decodes a text into a value of a type. -/
def decode (p : Parameter) (text : String) (t : SchemaType) : Except Error (Option Json) :=
  match p.serialization.decode text t with
  | .ok decoded => .ok (decoded.map Decoded.toJson)
  | .error e => .error (fault p.scope .style (some e.message))

/-- The value of a text for a schema of a type. Nothing is decoded or converted
    unless the options say so. -/
def valueOfText (p : Parameter) (text : String) (t : SchemaType) (o : ValidationOptions) :
    Except Error (Option Json) := do
  let decoded ← if o.decode then p.decode text t else .ok (some (.string text))
  .ok (if o.converts true then t.convert? decoded else decoded)

/-- Validates a parameter by its schema. -/
def validateSchema (p : Parameter) (schema : Schema) (x? : Option Json) (o : ValidationOptions) :
    Except Error (Option Json) := do
  let n ← schema.resolved.mapError fun e => .failure (.schema e)
  let t? ← (typeOf n).mapError .failure
  match t?, x? with
  | some t, some (.string text) =>
    if text.isEmpty ∧ n.isTrue "nullable" then .ok (some .null)
    else
      let x? ← p.valueOfText text t o
      finish x?
  | _, _ => finish x?
where
  /-- Validates what was decoded, if anything was. -/
  finish (x? : Option Json) : Except Error (Option Json) := do
    match ← p.checkPresence x? with
    | none => .ok none
    | some x =>
      let o := { o with convert? := some (o.converts true), decode := false }
      let x ← (schema.validate x o).mapError .failure
      .ok (some x)

/-- Validates a parameter. An absent one stays absent if it may be. -/
def validate (p : Parameter) (x? : Option Json) (o : ValidationOptions) :
    Except Error (Option Json) :=
  if ¬ p.content.isEmpty then p.validateContent x? o
  else
    match p.schema? with
    | none => p.checkPresence x?
    | some schema => p.validateSchema schema x? o

end Parameter

end OpenApi
