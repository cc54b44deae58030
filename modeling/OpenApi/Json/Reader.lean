import OpenApi.Json.Basic
import OpenApi.Numeric.Decimal

/-!
# Reading JSON Text

Reads a whole text as one JSON value. An integer literal that fits 64 bits is
an integer, every other numeral is a double; a negative zero without a point is
a double as well, since no integer carries its sign. A member whose name was
seen before replaces the earlier value in its place.

Every step of the reader hands on what is left of the text. The depth of the
recursion is bounded by the number of characters, which is what `Json.ofText?`
starts it with.

## Main definitions

* `Json.ofText?`: The value a text denotes.
-/

namespace OpenApi

namespace Json

/-- Drops blanks, tabs and line ends. -/
def skipBlank (cs : List Char) : List Char :=
  cs.dropWhile fun c => c = ' ' ∨ c = '\t' ∨ c = '\n' ∨ c = '\r'

/-- The value of a hexadecimal digit. -/
def hexValue? (c : Char) : Option Nat :=
  if '0' ≤ c ∧ c ≤ '9' then some (c.toNat - '0'.toNat)
  else if 'a' ≤ c ∧ c ≤ 'f' then some (c.toNat - 'a'.toNat + 10)
  else if 'A' ≤ c ∧ c ≤ 'F' then some (c.toNat - 'A'.toNat + 10)
  else none

/-- The code unit four hexadecimal digits spell. -/
def hexUnit? (a b c d : Char) : Option Nat := do
  let a ← hexValue? a
  let b ← hexValue? b
  let c ← hexValue? c
  let d ← hexValue? d
  pure (((a * 16 + b) * 16 + c) * 16 + d)

/-- The character after a backslash, for the escapes of one character. -/
def shortEscape? (c : Char) : Option Char :=
  if c = '\x22' ∨ c = '\x5c' ∨ c = '/' then some c
  else if c = 'b' then some '\x08'
  else if c = 'f' then some '\x0c'
  else if c = 'n' then some '\n'
  else if c = 'r' then some '\r'
  else if c = 't' then some '\t'
  else none

/-- Reads the rest of a quoted text after its opening quote; `seen` holds what
    was read so far, backwards. Each step uses up one unit of `fuel`. -/
def readQuoted? : Nat → List Char → List Char → Option (String × List Char)
  | 0, _, _ => none
  | _ + 1, _, [] => none
  | fuel + 1, seen, c :: rest =>
    if c = '\x22' then some (String.ofList seen.reverse, rest)
    else if c = '\x5c' then
      match rest with
      | 'u' :: a :: b :: c :: d :: rest => do
        let unit ← hexUnit? a b c d
        if 0xd800 ≤ unit ∧ unit < 0xdc00 then
          match rest with
          | '\x5c' :: 'u' :: a :: b :: c :: d :: rest => do
            let low ← hexUnit? a b c d
            if 0xdc00 ≤ low ∧ low < 0xe000 then
              let code := 0x10000 + (unit - 0xd800) * 0x400 + (low - 0xdc00)
              readQuoted? fuel (Char.ofNat code :: seen) rest
            else none
          | _ => none
        else if 0xdc00 ≤ unit ∧ unit < 0xe000 then none
        else readQuoted? fuel (Char.ofNat unit :: seen) rest
      | e :: rest => do
        let c ← shortEscape? e
        readQuoted? fuel (c :: seen) rest
      | [] => none
    else if c.toNat < 0x20 then none
    else readQuoted? fuel (c :: seen) rest

/-- Reads a numeral. A leading zero stands alone before the point. -/
def readNumber? (cs : List Char) : Option (Number × List Char) :=
  let (negative, rest) := match cs with
    | '-' :: rest => (true, rest)
    | rest => (false, rest)
  let (whole, rest) := Decimal.splitDigits rest
  let canonical := match whole with
    | [] => false
    | '0' :: _ :: _ => false
    | _ => true
  if ¬ canonical then none
  else
    let fraction? : Option (Option (List Char) × List Char) := match rest with
      | '.' :: rest =>
        let (ds, rest) := Decimal.splitDigits rest
        if ds.isEmpty then none else some (some ds, rest)
      | rest => some (none, rest)
    match fraction? with
    | none => none
    | some (fraction, rest) =>
      let exponent? : Option (Option Int × List Char) := match rest with
        | mark :: rest =>
          if mark = 'e' ∨ mark = 'E' then
            let (minus, rest) := Decimal.splitSign rest
            let (ds, rest) := Decimal.splitDigits rest
            if ds.isEmpty then none
            else
              let value : Int := Decimal.digitsValue 0 ds
              some (some (if minus then -value else value), rest)
          else some (none, mark :: rest)
        | [] => some (none, [])
      match exponent? with
      | none => none
      | some (exponent, rest) =>
        let value := Decimal.digitsValue 0 whole
        if fraction.isNone ∧ exponent.isNone ∧ ¬ (negative ∧ value = 0) then
          some (Number.ofLiteral (if negative then -(value : Int) else value), rest)
        else
          let places := fraction.getD []
          let decimal : Decimal :=
            ⟨negative, Decimal.digitsValue value places, exponent.getD 0 - places.length⟩
          decimal.toBinary64?.map fun x => (.real x, rest)

mutual

/-- Reads a value at the front of a text. -/
def readValue? : Nat → List Char → Option (Json × List Char)
  | 0, _ => none
  | fuel + 1, cs =>
    match skipBlank cs with
    | 'n' :: 'u' :: 'l' :: 'l' :: rest => some (.null, rest)
    | 't' :: 'r' :: 'u' :: 'e' :: rest => some (.bool true, rest)
    | 'f' :: 'a' :: 'l' :: 's' :: 'e' :: rest => some (.bool false, rest)
    | '\x22' :: rest => (readQuoted? (rest.length + 1) [] rest).map fun (s, rest) => (.string s, rest)
    | '[' :: rest =>
      match skipBlank rest with
      | ']' :: rest => some (.array [], rest)
      | rest => (readItems? fuel [] rest).map fun (items, rest) => (.array items, rest)
    | '\x7b' :: rest =>
      match skipBlank rest with
      | '\x7d' :: rest => some (.object [], rest)
      | rest => (readMembers? fuel [] rest).map fun (members, rest) => (.object members, rest)
    | rest => (readNumber? rest).map fun (n, rest) => (.number n, rest)

/-- Reads the items of an array up to the closing bracket; `seen` holds the
    items before, backwards. -/
def readItems? : Nat → List Json → List Char → Option (List Json × List Char)
  | 0, _, _ => none
  | fuel + 1, seen, cs => do
    let (item, rest) ← readValue? fuel cs
    match skipBlank rest with
    | ',' :: rest => readItems? fuel (item :: seen) rest
    | ']' :: rest => some ((item :: seen).reverse, rest)
    | _ => none

/-- Reads the members of an object up to the closing brace; `seen` holds the
    members before, in order. -/
def readMembers? : Nat → Ordered Json → List Char → Option (Ordered Json × List Char)
  | 0, _, _ => none
  | fuel + 1, seen, cs => do
    match skipBlank cs with
    | '\x22' :: rest =>
      let (key, rest) ← readQuoted? (rest.length + 1) [] rest
      match skipBlank rest with
      | ':' :: rest =>
        let (value, rest) ← readValue? fuel rest
        let seen := Ordered.insert seen key value
        match skipBlank rest with
        | ',' :: rest => readMembers? fuel seen rest
        | '\x7d' :: rest => some (seen, rest)
        | _ => none
      | _ => none
    | _ => none

end

/-- The value a whole text denotes, if it denotes one. -/
def ofText? (text : String) : Option Json :=
  let cs := text.toList
  match readValue? (cs.length + 1) cs with
  | some (value, rest) => if (skipBlank rest).isEmpty then some value else none
  | none => none

end Json

end OpenApi
