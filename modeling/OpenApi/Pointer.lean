import OpenApi.Json.Basic
import OpenApi.Text.Split

/-!
# Pointers into Values

A pointer names a place inside a value by the segments that lead to it, each
with a slash in front. Inside a segment the tilde and the slash are written as
`~0` and `~1`, so that every text can be a segment. The empty pointer names the
whole value.

Segments name members of objects and places in arrays. Looking up a pointer
admits array places in canonical decimal only; going down segment by segment
also admits a plus sign and leading zeros.

The same form serves for paths into instances.

## Main definitions

* `Pointer.escape`, `Pointer.unescape`: A segment as it is written and back.
* `Pointer.push`: One segment further.
* `Pointer.segments`: The segments of a pointer.
* `Pointer.get?`: The value a pointer names.
-/

namespace OpenApi

namespace Pointer

/-- The characters a character of a segment is written as. -/
def escapeChar (c : Char) : List Char :=
  if c = '~' then ['~', '0'] else if c = '/' then ['~', '1'] else [c]

/-- The characters of a written segment. -/
def escapeChars (cs : List Char) : List Char := cs.flatMap escapeChar

/-- The characters a written segment stands for. A tilde that neither digit
    follows stands for itself. -/
def unescapeChars : List Char → List Char
  | [] => []
  | '~' :: '0' :: rest => '~' :: unescapeChars rest
  | '~' :: '1' :: rest => '/' :: unescapeChars rest
  | c :: rest => c :: unescapeChars rest

/-- A segment as it is written. -/
def escape (segment : String) : String := String.ofList (escapeChars segment.toList)

/-- The segment that a written one stands for. -/
def unescape (written : String) : String := String.ofList (unescapeChars written.toList)

/-- A pointer one segment further. -/
def push (pointer segment : String) : String := pointer ++ "/" ++ escape segment

/-- The segments of a pointer; what stands before the first slash is none. -/
def segments (pointer : String) : List String :=
  ((Text.splitAll '/' pointer).drop 1).map unescape

/-- The number that decimal digits spell. -/
def decimal? (cs : List Char) : Option Nat :=
  if cs.isEmpty ∨ ¬ cs.all Char.isDigit then none
  else some (cs.foldl (fun n c => 10 * n + (c.toNat - '0'.toNat)) 0)

/-- An array place in canonical decimal: no sign, no leading zero. -/
def canonicalIndex? (segment : String) : Option Nat :=
  match segment.toList with
  | '0' :: _ :: _ => none
  | cs => decimal? cs

/-- An array place in decimal, with an optional plus sign and leading zeros. -/
def index? (segment : String) : Option Nat :=
  match segment.toList with
  | '+' :: cs => decimal? cs
  | cs => decimal? cs

/-- The value one segment below, array places being read by `index`. -/
def stepBy? (index : String → Option Nat) (value : Json) (segment : String) : Option Json :=
  match value with
  | .object members => Ordered.get? members segment
  | .array items => (index segment).bind fun i => items[i]?
  | _ => none

/-- The value one segment below. -/
def step? : Json → String → Option Json := stepBy? index?

/-- The value one segment below, array places being in canonical decimal. -/
def canonicalStep? : Json → String → Option Json := stepBy? canonicalIndex?

/-- The value a pointer names inside `root`. A pointer that is not empty starts
    with a slash. -/
def get? (root : Json) (pointer : String) : Option Json :=
  match pointer.toList with
  | [] => some root
  | '/' :: _ => (segments pointer).foldlM canonicalStep? root
  | _ => none

end Pointer

end OpenApi
