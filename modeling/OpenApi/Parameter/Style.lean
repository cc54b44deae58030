import OpenApi.SchemaType

/-!
# Parameter Styles

How the value of a parameter is laid out in a request, and where in the request
a parameter can be.

Not every style has room for values of every type, and not every place in a
request allows every style. The first style of a place is the one that is used
where none is declared.

## Main definitions

* `ParameterStyle`: A layout of values.
* `ParameterStyle.types`: The types a style has room for.
* `ParameterLocation`: A place in a request.
* `ParameterLocation.styles`: The styles a place allows.
-/

namespace OpenApi

/-- A layout of values. -/
inductive ParameterStyle where
  | matrix
  | label
  | form
  | simple
  | spaceDelimited
  | pipeDelimited
  | deepObject
deriving DecidableEq, Repr

namespace ParameterStyle

/-- All styles. -/
def all : List ParameterStyle :=
  [.matrix, .label, .form, .simple, .spaceDelimited, .pipeDelimited, .deepObject]

/-- The name of a style. -/
def name : ParameterStyle → String
  | .matrix => "matrix"
  | .label => "label"
  | .form => "form"
  | .simple => "simple"
  | .spaceDelimited => "spaceDelimited"
  | .pipeDelimited => "pipeDelimited"
  | .deepObject => "deepObject"

/-- The style of a name. -/
def ofName? (text : String) : Option ParameterStyle := all.find? fun s => s.name == text

/-- The types a style has room for. -/
def types : ParameterStyle → List SchemaType
  | .matrix | .label | .form | .simple => SchemaType.all
  | .spaceDelimited | .pipeDelimited => [.array, .object]
  | .deepObject => [.object]

/-- Whether a style has room for values of a type. -/
def supports (s : ParameterStyle) (t : SchemaType) : Bool := s.types.contains t

end ParameterStyle

/-- A place in a request. -/
inductive ParameterLocation where
  | path
  | query
  | header
  | cookie
deriving DecidableEq, Repr

namespace ParameterLocation

/-- All places. -/
def all : List ParameterLocation := [.path, .query, .header, .cookie]

/-- The name of a place. -/
def name : ParameterLocation → String
  | .path => "path"
  | .query => "query"
  | .header => "header"
  | .cookie => "cookie"

/-- The place of a name. -/
def ofName? (text : String) : Option ParameterLocation := all.find? fun l => l.name == text

/-- The style of a place where none is declared. -/
def defaultStyle (_ : ParameterLocation) : ParameterStyle := .simple

/-- The styles a place allows beside the default. -/
def otherStyles : ParameterLocation → List ParameterStyle
  | .path => [.label, .matrix]
  | .query => [.form, .spaceDelimited, .pipeDelimited, .deepObject]
  | .header | .cookie => [.form, .spaceDelimited, .pipeDelimited]

/-- The styles a place allows, the default first. -/
def styles (l : ParameterLocation) : List ParameterStyle := l.defaultStyle :: l.otherStyles

end ParameterLocation

end OpenApi
