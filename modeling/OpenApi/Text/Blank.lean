/-!
# Blank Characters

The characters with the Unicode property White_Space, and a text without those
at its ends.

## Main definitions

* `Text.isBlank`: The property.
* `Text.trim`: A text without blanks at either end.
-/

namespace OpenApi

namespace Text

/-- Whether a character has the property White_Space. -/
def isBlank (c : Char) : Bool :=
  let n := c.toNat
  (0x09 ≤ n && n ≤ 0x0d) || n == 0x20 || n == 0x85 || n == 0xa0 || n == 0x1680
    || (0x2000 ≤ n && n ≤ 0x200a) || n == 0x2028 || n == 0x2029 || n == 0x202f
    || n == 0x205f || n == 0x3000

/-- A text without the characters of `skip` at either end. -/
def trimBy (skip : Char → Bool) (cs : List Char) : List Char :=
  ((cs.dropWhile skip).reverse.dropWhile skip).reverse

/-- A text without blanks at either end. -/
def trim (cs : List Char) : List Char := trimBy isBlank cs

end Text

end OpenApi
