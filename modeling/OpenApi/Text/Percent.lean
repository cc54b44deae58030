import OpenApi.Text.Utf8

/-!
# Percent Encoding

A character outside the set a place in a URI admits is written as a percent
sign and two upper-case hexadecimal digits for each of its UTF-8 octets. The
percent sign itself is not special when writing, so a text that already holds
such triples keeps them.

Reading replaces every triple by its octet and reads the octets as UTF-8. A
percent sign that two hexadecimal digits do not follow stands for itself.

## Main definitions

* `Percent.encode`: Writes a text, given the characters to be encoded.
* `Percent.decode`: Reads a text.
-/

namespace OpenApi

namespace Percent

/-- A hexadecimal digit, in upper case. -/
def upperHex (n : Nat) : Char :=
  if n < 10 then Char.ofNat ('0'.toNat + n) else Char.ofNat ('A'.toNat + (n - 10))

/-- The triple of an octet. -/
def triple (octet : Nat) : List Char := ['%', upperHex (octet / 16), upperHex (octet % 16)]

/-- A character as its triples when `special` says so or when it is not ASCII. -/
def encodeChar (special : Char → Bool) (c : Char) : List Char :=
  if special c || 0x80 ≤ c.toNat then (Utf8.encodeChar c).flatMap triple else [c]

/-- A text with its special characters encoded. -/
def encode (special : Char → Bool) (cs : List Char) : List Char :=
  cs.flatMap (encodeChar special)

/-- The value of a hexadecimal digit of either case. -/
def hexValue? (c : Char) : Option Nat :=
  if '0' ≤ c ∧ c ≤ '9' then some (c.toNat - '0'.toNat)
  else if 'a' ≤ c ∧ c ≤ 'f' then some (c.toNat - 'a'.toNat + 10)
  else if 'A' ≤ c ∧ c ≤ 'F' then some (c.toNat - 'A'.toNat + 10)
  else none

/-- The octet two hexadecimal digits spell. -/
def octet? (high low : Char) : Option Nat := do
  let high ← hexValue? high
  let low ← hexValue? low
  pure (high * 16 + low)

/-- The octets of a text, its triples replaced. -/
def octets : List Char → List Nat
  | [] => []
  | c :: rest =>
    if c = '%' then
      match rest with
      | high :: low :: rest₁ =>
        match octet? high low with
        | some octet => octet :: octets rest₁
        | none => Utf8.encodeChar c ++ octets (high :: low :: rest₁)
      | [high] => Utf8.encodeChar c ++ octets [high]
      | [] => Utf8.encodeChar c
    else Utf8.encodeChar c ++ octets rest

/-- The text that a percent-encoded text stands for. -/
def decode (cs : List Char) : List Char := Utf8.decode (octets cs)

end Percent

end OpenApi
