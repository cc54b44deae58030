/-!
# UTF-8

Text as octets and back. Octets are natural numbers below 256.

Reading never fails: an octet sequence that no text produces is replaced, the
longest part of it that could have started a character at a time, by U+FFFD.
The octet that broke the sequence is read again as the possible start of the
next character.

## Main definitions

* `Utf8.encodeChar`, `Utf8.encode`: The octets of a character and of a text.
* `Utf8.decode`: The text of an octet sequence, with replacement.
-/

namespace OpenApi

namespace Utf8

/-- The octets of a character. -/
def encodeChar (c : Char) : List Nat :=
  let n := c.toNat
  if n < 0x80 then [n]
  else if n < 0x800 then [0xc0 + n / 0x40, 0x80 + n % 0x40]
  else if n < 0x10000 then [0xe0 + n / 0x1000, 0x80 + n / 0x40 % 0x40, 0x80 + n % 0x40]
  else [0xf0 + n / 0x40000, 0x80 + n / 0x1000 % 0x40, 0x80 + n / 0x40 % 0x40, 0x80 + n % 0x40]

/-- The octets of a text. -/
def encode (cs : List Char) : List Nat := cs.flatMap encodeChar

/-- Stands for octets that are no character. -/
def replacement : Char := '\ufffd'

/-- Whether an octet continues a character. -/
def isTail (b : Nat) : Bool := 0x80 ≤ b && b ≤ 0xbf

/-- Whether `b` may follow the leading octet `a`. After four of the leading
    octets the range of the second is narrower, so that no character is written
    with more octets than it needs, none is a surrogate and none is too large. -/
def isSecond (a b : Nat) : Bool :=
  if a = 0xe0 then 0xa0 ≤ b && b ≤ 0xbf
  else if a = 0xed then 0x80 ≤ b && b ≤ 0x9f
  else if a = 0xf0 then 0x90 ≤ b && b ≤ 0xbf
  else if a = 0xf4 then 0x80 ≤ b && b ≤ 0x8f
  else isTail b

/-- The text of an octet sequence, with U+FFFD for what is no character. -/
def decode : List Nat → List Char
  | [] => []
  | a :: rest =>
    if a < 0x80 then Char.ofNat a :: decode rest
    else if 0xc2 ≤ a ∧ a ≤ 0xdf then
      match rest with
      | [] => [replacement]
      | b :: rest₁ =>
        if isTail b then Char.ofNat ((a - 0xc0) * 0x40 + (b - 0x80)) :: decode rest₁
        else replacement :: decode (b :: rest₁)
    else if 0xe0 ≤ a ∧ a ≤ 0xef then
      match rest with
      | [] => [replacement]
      | b :: rest₁ =>
        if isSecond a b then
          match rest₁ with
          | [] => [replacement]
          | c :: rest₂ =>
            if isTail c then
              Char.ofNat ((a - 0xe0) * 0x1000 + (b - 0x80) * 0x40 + (c - 0x80)) :: decode rest₂
            else replacement :: decode (c :: rest₂)
        else replacement :: decode (b :: rest₁)
    else if 0xf0 ≤ a ∧ a ≤ 0xf4 then
      match rest with
      | [] => [replacement]
      | b :: rest₁ =>
        if isSecond a b then
          match rest₁ with
          | [] => [replacement]
          | c :: rest₂ =>
            if isTail c then
              match rest₂ with
              | [] => [replacement]
              | d :: rest₃ =>
                if isTail d then
                  Char.ofNat ((a - 0xf0) * 0x40000 + (b - 0x80) * 0x1000
                    + (c - 0x80) * 0x40 + (d - 0x80)) :: decode rest₃
                else replacement :: decode (d :: rest₃)
            else replacement :: decode (c :: rest₂)
        else replacement :: decode (b :: rest₁)
    else replacement :: decode rest

end Utf8

end OpenApi
