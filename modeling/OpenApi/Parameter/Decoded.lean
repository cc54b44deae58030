import OpenApi.Parameter.Style
import OpenApi.Text.Split

/-!
# Decoded Parameters

The value of a parameter inside the text that carries it. Objects and arrays
are laid out by the style:

| style            | object                    | array                 | other  |
|------------------|---------------------------|-----------------------|--------|
| `matrix`         | `;c=R,1,G,2` / `;R=1;G=2` | `;c=a,b` / `;c=a;c=b` | `;c=a` |
| `label`          | `.R.1.G.2` / `.R=1.G=2`   | `.a.b`                | `.a`   |
| `form`           | `c=R,1,G,2` / `R=1&G=2`   | `c=a,b` / `c=a&c=b`   | `c=a`  |
| `simple`         | `R,1,G,2` / `R=1,G=2`     | `a,b`                 | `a`    |
| `spaceDelimited` | `R 1 G 2`                 | `a b`                 |        |
| `pipeDelimited`  | `R|1|G|2`                 | `a|b`                 |        |
| `deepObject`     | `c[R]=1&c[G]=2`           |                       |        |

Where there are two layouts the second is the exploded one. The name in front
of a value is not compared with the name of the parameter, except in deep
objects, which can share a text with others.

The empty text carries nothing. A style without room for a type is an error
for every text, also for the empty one. The value behind an equals sign must
not hold a line feed.

## Main definitions

* `Decoded`: A decoded value, all its parts being texts.
* `Decoded.toJson`: The value as JSON.
* `Serialization`: How a parameter is laid out.
* `Serialization.decode`: Decodes a text.
-/

namespace OpenApi

/-- A decoded value. -/
inductive Decoded where
  /-- A single text. -/
  | primitive (text : String)
  /-- Texts in order, some of them missing. -/
  | array (items : List (Option String))
  /-- Texts under keys, some of them missing. -/
  | object (members : Ordered (Option String))
deriving DecidableEq, Repr

/-- A decoded value as JSON. A missing item is null, and a missing member is
    left out. -/
def Decoded.toJson : Decoded → Json
  | .primitive text => .string text
  | .array items => .array (items.map fun item => (item.map Json.string).getD .null)
  | .object members => .object (members.filterMap fun (key, value) =>
      value.map fun text => (key, .string text))

/-- A style has no room for a type. -/
structure UnsupportedStyle where
  /-- The style. -/
  style : ParameterStyle
  /-- The type. -/
  type : SchemaType
deriving DecidableEq, Repr

/-- The text of the error. -/
def UnsupportedStyle.message (e : UnsupportedStyle) : String :=
  "style '" ++ e.style.name ++ "' cannot encode type '" ++ e.type.name ++ "'"

/-- How a parameter is laid out. -/
structure Serialization where
  /-- The name of the parameter. -/
  name : String
  /-- The style. -/
  style : ParameterStyle
  /-- Whether arrays and objects are exploded. -/
  explode : Bool

namespace Serialization

/-- Reads a key, and a value if an equals sign follows the key. Without a key,
    or with a line feed in the value, nothing is read. -/
def readAssignment? (cs : List Char) : Option (List Char × Option (List Char)) :=
  let key := cs.takeWhile (· != '=')
  if key.isEmpty then none
  else
    match cs.dropWhile (· != '=') with
    | [] => some (key, none)
    | _ :: value => if value.contains '\n' then none else some (key, some value)

/-- A text, if it is not empty. -/
def present? (value : Option (List Char)) : Option (List Char) :=
  value.bind fun cs => if cs.isEmpty then none else some cs

/-- The value behind a name, which may be empty. -/
def valueAfterName? (cs : List Char) : Option (List Char) := (readAssignment? cs).bind Prod.snd

/-- What follows a semicolon. -/
def afterSemicolon? : List Char → Option (List Char)
  | ';' :: rest => some rest
  | _ => none

/-- The parts of a text with commas between them. -/
def commaParts (cs : List Char) : List (List Char) := Text.splitBy (· == ',') cs

/-- The parts of an array or object in a text. -/
def parts? (s : Serialization) (cs : List Char) : Option (List (List Char)) :=
  match s.style, s.explode with
  | .matrix, true => some ((Text.splitBy (· == ';') cs).drop 1)
  | .matrix, false =>
    (present? ((afterSemicolon? cs).bind valueAfterName?)).map commaParts
  | .label, _ => some ((Text.splitBy (· == '.') cs).drop 1)
  | .form, true => some (Text.splitBy (· == '&') cs)
  | .form, false => (present? (valueAfterName? cs)).map commaParts
  | .simple, _ => some (commaParts cs)
  | .spaceDelimited, _ => some (Text.splitBy (· == ' ') cs)
  | .pipeDelimited, _ => some (Text.splitBy (· == '|') cs)
  | .deepObject, _ => none

/-- Whether the parts of an exploded array carry names. -/
def namesItems (s : Serialization) : Bool :=
  s.explode && (s.style == .matrix || s.style == .form)

/-- Whether the parts of an object are keys with values, and not keys and values
    in turn. -/
def joinsMembers (s : Serialization) : Bool :=
  s.explode && s.style != .spaceDelimited && s.style != .pipeDelimited

/-- The members that parts of the form `key=value` make. Parts without a key
    are skipped, and an empty value is missing. -/
def membersOfAssignments (parts : List (List Char)) : Ordered (Option String) :=
  Ordered.ofEntries ((parts.filterMap readAssignment?).map fun (key, value) =>
    (String.ofList key, (present? value).map String.ofList))

/-- Keys and values in turn, paired up to the first empty key. A last key has
    no value. -/
def pairUp : List (List Char) → List (String × Option String)
  | [] => []
  | [key] => if key.isEmpty then [] else [(String.ofList key, none)]
  | key :: value :: rest =>
    if key.isEmpty then []
    else (String.ofList key, some (String.ofList value)) :: pairUp rest

/-- The key of a member of a deep object, behind the name of the object. -/
def deepKey? (name : List Char) (cs : List Char) : Option (List Char) :=
  let isBracket := fun c : Char => c == '[' || c == ']'
  let before := cs.takeWhile fun c => !isBracket c
  match cs.dropWhile fun c => !isBracket c with
  | '[' :: rest =>
    let key := rest.takeWhile fun c => !isBracket c
    let behind := rest.dropWhile fun c => !isBracket c
    if before.isEmpty ∨ before ≠ name ∨ behind ≠ [']'] then none else some key
  | _ => none

/-- The member of a deep object in one part of a text. -/
def deepMember? (name : List Char) (part : List Char) : Option (String × Option String) :=
  let value := (part.dropWhile (· != '=')).drop 1
  (deepKey? name (part.takeWhile (· != '='))).map fun key =>
    (String.ofList key, some (String.ofList value))

/-- The members of a deep object, unless there are none. -/
def deepMembers? (s : Serialization) (cs : List Char) : Option (Ordered (Option String)) :=
  match (Text.splitBy (· == '&') cs).filterMap (deepMember? s.name.toList) with
  | [] => none
  | members => some (Ordered.ofEntries members)

/-- The object in a text. -/
def object? (s : Serialization) (cs : List Char) : Option (Ordered (Option String)) :=
  if s.style = .deepObject then s.deepMembers? cs
  else (s.parts? cs).map fun parts =>
    if s.joinsMembers then membersOfAssignments parts else Ordered.ofEntries (pairUp parts)

/-- The array in a text. -/
def array? (s : Serialization) (cs : List Char) : Option (List (Option String)) :=
  (s.parts? cs).map fun parts => parts.map fun part =>
    (if s.namesItems then present? (valueAfterName? part) else some part).map String.ofList

/-- The single text in a text. -/
def primitive? (s : Serialization) (cs : List Char) : Option String :=
  let value? := match s.style with
    | .matrix => (afterSemicolon? cs).bind valueAfterName?
    | .label => (Text.splitBy (· == '.') cs)[1]?
    | .form => present? (valueAfterName? cs)
    | .simple => some cs
    | .spaceDelimited | .pipeDelimited | .deepObject => none
  value?.map String.ofList

/-- Decodes a text into a value of a type. -/
def decode (s : Serialization) (text : String) (t : SchemaType) :
    Except UnsupportedStyle (Option Decoded) :=
  let cs := text.toList
  if s.style.supports t then
    .ok (if cs.isEmpty then none
      else match t with
        | .object => (s.object? cs).map .object
        | .array => (s.array? cs).map .array
        | _ => (s.primitive? cs).map .primitive)
  else .error ⟨s.style, t⟩

end Serialization

end OpenApi
