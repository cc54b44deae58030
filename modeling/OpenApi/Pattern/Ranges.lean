import OpenApi.Text.Split

/-!
# Code Point Ranges

Sets of code points as ranges with both ends included, and the text the tables
write them in: hexadecimal, a hyphen between the ends, blanks between the
ranges.

## Main definitions

* `Ranges.holds`: Whether a code point is in some range.
* `Ranges.ofText`: Reads the text of a table.
-/

namespace OpenApi

namespace Ranges

/-- Whether a code point lies in some range of a list. -/
def holds (ranges : List (Nat × Nat)) (n : Nat) : Bool :=
  ranges.any fun r => r.1 ≤ n && n ≤ r.2

/-- The value of lower-case hexadecimal digits. -/
def hexValue (cs : List Char) : Nat :=
  cs.foldl (fun n c =>
    n * 16 + (if '0' ≤ c ∧ c ≤ '9' then c.toNat - '0'.toNat else c.toNat - 'a'.toNat + 10)) 0

/-- One range: its two ends, or one code point. -/
def ofWord (cs : List Char) : Nat × Nat :=
  match Text.splitBy (· == '-') cs with
  | [low, high] => (hexValue low, hexValue high)
  | _ => (hexValue cs, hexValue cs)

/-- The ranges that the rows of a table list. -/
def ofText (rows : List String) : List (Nat × Nat) :=
  rows.flatMap fun row => (Text.splitBy (· == ' ') row.toList).map ofWord

end Ranges

end OpenApi
