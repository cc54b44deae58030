import OpenApi.Json.Basic

/-!
# Options and Settings

What a caller can ask for in one validation, and what is settled when a
validating object is made.

Both are written as JSON objects. Members that are not known are ignored, and
those left out have their defaults. An array is taken as the values in the
order of declaration; it may be shorter than that, but not longer.

## Main definitions

* `Fields`: The values of a record, by name or by position.
* `ValidationOptions`: What can be asked for in one validation.
* `Settings`: What is settled beforehand.
-/

namespace OpenApi

/-- The values given for a record. -/
structure Fields where
  /-- The value under a name that is declared at a position. -/
  at? : String → Nat → Option Json

namespace Fields

/-- The values of a record with `count` fields. -/
def ofJson? (count : Nat) : Json → Option Fields
  | .object members => some ⟨fun name _ => Ordered.get? members name⟩
  | .array items => if count < items.length then none else some ⟨fun _ i => items[i]?⟩
  | _ => none

/-- The value of a field that may be null, which is the same as leaving it out. -/
def optional? {α : Type} (f : Fields) (name : String) (i : Nat) (read : Json → Option α) :
    Option (Option α) :=
  match f.at? name i with
  | none => some none
  | some .null => some none
  | some value => (read value).map some

/-- The value of a field, or its default. -/
def get {α : Type} (f : Fields) (name : String) (i : Nat) (read : Json → Option α)
    (default : α) : Option α :=
  match f.at? name i with
  | none => some default
  | some value => read value

end Fields

/-- A value that may be missing, as JSON. -/
def Json.ofOption {α : Type} (write : α → Json) (value : Option α) : Json :=
  (value.map write).getD .null

/-- What can be asked for in one validation. -/
structure ValidationOptions where
  /-- Whether texts are converted to the type their schema demands. Without an
      answer the context decides: parameters are converted, other instances
      are not. -/
  convert? : Option Bool
  /-- Whether texts of parameters are decoded according to their style. -/
  decode : Bool
  /-- The content type of the instance. -/
  contentType? : Option String
deriving DecidableEq, Repr

namespace ValidationOptions

/-- The options of a caller who asks for nothing. -/
def default : ValidationOptions := ⟨none, true, none⟩

/-- Options from JSON. -/
def ofJson? (value : Json) : Option ValidationOptions := do
  let f ← Fields.ofJson? 3 value
  let convert? ← f.optional? "coerceTypes" 0 Json.bool?
  let decode ← f.get "parseStyle" 1 Json.bool? true
  let contentType? ← f.optional? "contentType" 2 Json.string?
  pure ⟨convert?, decode, contentType?⟩

/-- Options as JSON. -/
def toJson (o : ValidationOptions) : Json :=
  .object [("coerceTypes", .ofOption .bool o.convert?), ("parseStyle", .bool o.decode),
    ("contentType", .ofOption .string o.contentType?)]

/-- Whether texts are converted in a context that would or would not do so. -/
def converts (o : ValidationOptions) (context : Bool) : Bool := o.convert?.getD context

end ValidationOptions

/-- What is settled when a validating object is made. -/
structure Settings where
  /-- The content type of instances whose content type is not known. -/
  contentType : String
  /-- The address of documents that have none. -/
  baseScope : String
deriving DecidableEq, Repr

namespace Settings

/-- The settings where nothing else is said. -/
def default : Settings := ⟨"application/json", "http://example.invalid/"⟩

/-- Settings from JSON. -/
def ofJson? (value : Json) : Option Settings := do
  let f ← Fields.ofJson? 2 value
  let contentType ← f.get "defaultContentType" 0 Json.string? default.contentType
  let baseScope ← f.get "baseScope" 1 Json.string? default.baseScope
  pure ⟨contentType, baseScope⟩

/-- Settings as JSON. -/
def toJson (s : Settings) : Json :=
  .object [("defaultContentType", .string s.contentType), ("baseScope", .string s.baseScope)]

end Settings

end OpenApi
