import OpenApi.Pattern.Property
import OpenApi.Pattern.Script
import OpenApi.Text.CaseFold

/-!
# Character Sets

What one place of a pattern matches: ranges of code points and what can be made
of them. A set is kept as the expression it was written as, and membership is
decided by evaluating the expression.

## Main definitions

* `CharSet`: A set of characters.
* `CharSet.holds`: Membership.
* `CharSet.ofProperty?`: The characters with a named property.
-/

namespace OpenApi

/-- A set of characters. -/
inductive CharSet where
  /-- The code points in some ranges. -/
  | ranges (list : List (Nat × Nat))
  /-- The characters of either set. -/
  | union (left right : CharSet)
  /-- The characters of both sets. -/
  | inter (left right : CharSet)
  /-- The characters of the first set that are not in the second. -/
  | diff (left right : CharSet)
  /-- The characters of exactly one of the sets. -/
  | symmDiff (left right : CharSet)
  /-- The characters outside a set. -/
  | complement (set : CharSet)
  /-- The characters that differ from one of the set in case only. -/
  | folded (set : CharSet)

namespace CharSet

/-- Whether a code point is in the set. -/
def holds : CharSet → Nat → Bool
  | .ranges list, n => Ranges.holds list n
  | .union l r, n => l.holds n || r.holds n
  | .inter l r, n => l.holds n && r.holds n
  | .diff l r, n => l.holds n && !r.holds n
  | .symmDiff l r, n => l.holds n != r.holds n
  | .complement s, n => !s.holds n
  | .folded s, n => s.holds n || (CaseFold.orbit n).any s.holds

/-- The set without characters. -/
def empty : CharSet := .ranges []

/-- The set of one character. -/
def single (c : Char) : CharSet := .ranges [(c.toNat, c.toNat)]

/-- The characters of ASCII. -/
def ascii : CharSet := .ranges [(0, 0x7f)]

/-- Whether no character outside ASCII is in a set of octets. -/
def isAsciiOctets (s : CharSet) : Bool :=
  (List.range 0x80).all fun i => !s.holds (0x80 + i)

/-- How many ranges the expression of a set lists. -/
def size : CharSet → Nat
  | .ranges list => list.length
  | .union l r => l.size + r.size
  | .inter l r => l.size + r.size
  | .diff l r => l.size + r.size
  | .symmDiff l r => l.size + r.size
  | .complement s => s.size + 1
  | .folded s => 2 * s.size

/-- The ASCII characters of the named class of a bracket expression. -/
def ofPosix? (name : String) : Option CharSet :=
  (table.lookup name).map .ranges
where
  /-- The classes by name. -/
  table : List (String × List (Nat × Nat)) := [
    ("alnum", [(0x30, 0x39), (0x41, 0x5a), (0x61, 0x7a)]),
    ("alpha", [(0x41, 0x5a), (0x61, 0x7a)]),
    ("ascii", [(0x00, 0x7f)]),
    ("blank", [(0x09, 0x09), (0x20, 0x20)]),
    ("cntrl", [(0x00, 0x1f), (0x7f, 0x7f)]),
    ("digit", [(0x30, 0x39)]),
    ("graph", [(0x21, 0x7e)]),
    ("lower", [(0x61, 0x7a)]),
    ("print", [(0x20, 0x7e)]),
    ("punct", [(0x21, 0x2f), (0x3a, 0x40), (0x5b, 0x60), (0x7b, 0x7e)]),
    ("space", [(0x09, 0x0d), (0x20, 0x20)]),
    ("upper", [(0x41, 0x5a)]),
    ("word", [(0x30, 0x39), (0x41, 0x5a), (0x5f, 0x5f), (0x61, 0x7a)]),
    ("xdigit", [(0x30, 0x39), (0x41, 0x46), (0x61, 0x66)])]

/-- The characters of a general category. -/
def ofCategory (name : String) : CharSet :=
  if name = "cn" then .complement (.ranges Category.assigned)
  else if name = "c" then
    .union (.ranges (Category.union ["cc", "cf", "co"])) (.complement (.ranges Category.assigned))
  else .ranges (Category.union (Category.parts name))

/-- A name in lower case, without blanks, hyphens, underscores and a leading `is`. -/
def plainName (cs : List Char) : String :=
  let kept := (cs.filter fun c => c != ' ' && c != '_' && c != '-').map Char.toLower
  String.ofList (match kept with
    | 'i' :: 's' :: rest => if rest = ['c'] then kept else rest
    | kept => kept)

/-- The characters with a property that a name alone stands for: a binary
    property, a general category or a script. Three short names of categories
    are also short names of properties, and stand for the categories. -/
def ofName? (name : String) : Option CharSet :=
  if name = "any" then some (.ranges [(0, 0x10ffff)])
  else if name = "assigned" then some (.ranges Category.assigned)
  else if name = "ascii" then some ascii
  else
    let binary := if ["cf", "sc", "lc"].contains name then none else Property.ranges? name
    match binary with
    | some list => some (.ranges list)
    | none =>
      match Category.shortName? name with
      | some short => some (ofCategory short)
      | none => (Script.ranges? name).map .ranges

/-- The characters whose property `property` has the value `value`. -/
def ofValue? (property value : String) : Option CharSet :=
  if property = "gc" ∨ property = "generalcategory" then
    if value = "any" then some (.ranges [(0, 0x10ffff)])
    else if value = "assigned" then some (.ranges Category.assigned)
    else if value = "ascii" then some ascii
    else (Category.shortName? value).map ofCategory
  else if ["sc", "script", "scx", "scriptextensions"].contains property then
    (Script.ranges? value).map .ranges
  else none

end CharSet

end OpenApi
