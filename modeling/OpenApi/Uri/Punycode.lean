/-!
# Punycode

Host names outside ASCII are written in ASCII as the basic characters of a
label followed by the places and values of the others, each as the distance
from the one before in a mixed-radix number whose digit limits adapt to the
size of the distances.

## Main definitions

* `Punycode.encode`: The ASCII form of a label.
* `Punycode.decode?`: The label an ASCII form stands for.
-/

namespace OpenApi

namespace Punycode

/-- The letter or digit that stands for a value below 36. -/
def digit (d : Nat) : Char :=
  if d < 26 then Char.ofNat ('a'.toNat + d) else Char.ofNat ('0'.toNat + (d - 26))

/-- The value of a letter or digit. -/
def digitValue? (c : Char) : Option Nat :=
  if 'a' ≤ c ∧ c ≤ 'z' then some (c.toNat - 'a'.toNat)
  else if 'A' ≤ c ∧ c ≤ 'Z' then some (c.toNat - 'A'.toNat)
  else if '0' ≤ c ∧ c ≤ '9' then some (c.toNat - '0'.toNat + 26)
  else none

/-- The limit of the digit at position `k`, between 1 and 26. -/
def threshold (k bias : Nat) : Nat :=
  if k ≤ bias then 1 else if bias + 26 ≤ k then 26 else k - bias

/-- Divides a large distance down; each step of 36 positions is one division. -/
def reduce : Nat → Nat → Nat → Nat × Nat
  | 0, delta, k => (delta, k)
  | fuel + 1, delta, k => if 455 < delta then reduce fuel (delta / 35) (k + 36) else (delta, k)

/-- The bias after a distance, given how many characters are placed. -/
def adapt (delta count : Nat) (first : Bool) : Nat :=
  let halved := if first then delta / 700 else delta / 2
  let spread := halved + halved / count
  let (rest, k) := reduce spread spread 0
  k + 36 * rest / (rest + 38)

/-- The digits of a distance. -/
def distanceDigits : Nat → Nat → Nat → Nat → List Char
  | 0, _, _, _ => []
  | fuel + 1, bias, k, q =>
    let t := threshold k bias
    if q < t then [digit q]
    else digit (t + (q - t) % (36 - t)) :: distanceDigits fuel bias (k + 36) ((q - t) / (36 - t))

/-- What the encoder has written and where it stands. -/
structure Progress where
  /-- The digits so far. -/
  written : List Char
  /-- The distance since the last placed character. -/
  delta : Nat
  /-- The current bias. -/
  bias : Nat
  /-- How many characters are placed. -/
  placed : Nat

/-- Passes one character of the label while the characters of value `n` are placed. -/
def passChar (basic n : Nat) (p : Progress) (c : Char) : Progress :=
  if c.toNat < n then { p with delta := p.delta + 1 }
  else if c.toNat = n then
    ⟨p.written ++ distanceDigits (p.delta + 1) p.bias 36 p.delta, 0,
      adapt p.delta (p.placed + 1) (p.placed == basic), p.placed + 1⟩
  else p

/-- Places the characters of the remaining values, smallest first. -/
def placeAll (label : List Char) (basic : Nat) : List Nat → Nat → Progress → Progress
  | [], _, p => p
  | n :: rest, reached, p =>
    let p := { p with delta := p.delta + (n - reached) * (p.placed + 1) }
    let p := label.foldl (passChar basic n) p
    placeAll label basic rest (n + 1) { p with delta := p.delta + 1 }

/-- Inserts a value into an increasing list that does not hold it twice. -/
def insertOnce (n : Nat) : List Nat → List Nat
  | [] => [n]
  | m :: rest => if n < m then n :: m :: rest else if n = m then m :: rest else m :: insertOnce n rest

/-- The ASCII form of a label. -/
def encode (label : List Char) : List Char :=
  let basic := label.filter fun c => c.toNat < 0x80
  let others := (label.filter fun c => 0x80 ≤ c.toNat).foldl (fun ns c => insertOnce c.toNat ns) []
  let start : Progress := ⟨[], 0, 72, basic.length⟩
  (if basic.isEmpty then [] else basic ++ ['-'])
    ++ (placeAll label basic.length others 0x80 start).written

/-- Reads one distance: its value and the rest of the digits. -/
def readDistance? : Nat → Nat → Nat → Nat → List Char → Option (Nat × List Char)
  | _, _, _, _, [] => none
  | bias, k, weight, sum, c :: rest => do
    let d ← digitValue? c
    let sum := sum + d * weight
    let t := threshold k bias
    if d < t then pure (sum, rest) else readDistance? bias (k + 36) (weight * (36 - t)) sum rest

/-- Reads all distances and inserts their characters into the label. -/
def readAll? : Nat → List Char → Nat → Nat → Nat → List Char → Option (List Char)
  | _, label, _, _, _, [] => some label
  | 0, _, _, _, _, _ => none
  | fuel + 1, label, n, i, bias, digits => do
    let (distance, rest) ← readDistance? bias 36 1 0 digits
    let count := label.length + 1
    let total := i + distance
    let n := n + total / count
    let place := total % count
    if 0x10ffff < n then none
    else
      readAll? fuel (label.take place ++ Char.ofNat n :: label.drop place) n (place + 1)
        (adapt distance count (i == 0 && n == 0x80 + distance / count && label.all (·.toNat < 0x80)))
        rest

/-- The label that an ASCII form stands for. -/
def decode? (form : List Char) : Option (List Char) :=
  let backwards := form.reverse
  let tail := (backwards.takeWhile (· != '-')).reverse
  let basic := ((backwards.dropWhile (· != '-')).drop 1).reverse
  readAll? form.length basic 0x80 0 72 tail

end Punycode

end OpenApi
