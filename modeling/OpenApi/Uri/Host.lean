import OpenApi.Pattern.Category
import OpenApi.Text.Blank
import OpenApi.Text.CaseFold
import OpenApi.Text.Percent
import OpenApi.Text.Split
import OpenApi.Uri.Basic
import OpenApi.Uri.Punycode

/-!
# Hosts

A host is written as a domain name, as an IPv4 address in one of its number
forms, or as an IPv6 address in brackets. Reading a host brings it to its one
written form: a domain name in lower case and in ASCII, an IPv4 address as four
decimal numbers, an IPv6 address with its longest run of zeros cut out.

The hosts of schemes that are not special are kept as they are, apart from
percent encoding, unless they are IPv6 addresses.

## Main definitions

* `Host.read?`: The host of a special scheme.
* `Host.readVerbatim?`: The host of any other scheme.
-/

namespace OpenApi

namespace Host

/-- The number a text spells in a base up to sixteen. -/
def numberIn? (base : Nat) (cs : List Char) : Option Nat :=
  cs.foldlM (fun n c => do
    let d ← Percent.hexValue? c
    if d < base then pure (n * base + d) else none) 0

/-- One number of an IPv4 address: hexadecimal after `0x`, octal after another
    zero, decimal otherwise. A lone `0x` is zero. -/
def ipv4Number? : List Char → Option Nat
  | [] => none
  | '0' :: 'x' :: rest => numberIn? 16 rest
  | '0' :: 'X' :: rest => numberIn? 16 rest
  | ['0'] => some 0
  | '0' :: rest => numberIn? 8 rest
  | rest => numberIn? 10 rest

/-- The labels of a name, without the empty one after a final point. -/
def labels (name : List Char) : List (List Char) :=
  let parts := Text.splitBy (· == '.') name
  if 1 < parts.length ∧ parts.getLast? = some [] then parts.dropLast else parts

/-- Whether a name has to be read as an IPv4 address: its last label is a number. -/
def endsInNumber (name : List Char) : Bool :=
  match (labels name).getLast? with
  | none => false
  | some [] => false
  | some last => last.all Char.isDigit || (ipv4Number? last).isSome

/-- The value of an IPv4 address. Its last number fills all octets that the
    numbers before it leave. -/
def ipv4Value? (name : List Char) : Option Nat := do
  let numbers ← (labels name).mapM ipv4Number?
  let last ← numbers.getLast?
  let front := numbers.dropLast
  if 3 < front.length ∨ front.any (255 < ·) then none
  else if Nat.pow 256 (4 - front.length) ≤ last then none
  else
    let high := front.foldl (fun n octet => n * 256 + octet) 0
    some (high * Nat.pow 256 (4 - front.length) + last)

/-- An IPv4 address as four decimal numbers. -/
def ipv4Text (value : Nat) : String :=
  toString (value / 16777216) ++ "." ++ toString (value / 65536 % 256) ++ "."
    ++ toString (value / 256 % 256) ++ "." ++ toString (value % 256)

/-- One decimal number of the IPv4 tail of an IPv6 address, without leading zeros. -/
def tailNumber? (cs : List Char) : Option Nat :=
  match cs with
  | [] => none
  | '0' :: _ :: _ => none
  | _ => do
    let n ← numberIn? 10 cs
    if n ≤ 255 then pure n else none

/-- One piece of an IPv6 address: up to four hexadecimal digits. -/
def piece? (cs : List Char) : Option Nat :=
  if cs.isEmpty ∨ 4 < cs.length then none else numberIn? 16 cs

/-- The pieces of one side of an IPv6 address. Only the last may be an IPv4
    address, and it is worth two. -/
def pieces? (tailAllowed : Bool) : List (List Char) → Option (List Nat)
  | [] => some []
  | [last] =>
    if last.contains '.' then
      match (Text.splitBy (· == '.') last).mapM tailNumber? with
      | some [a, b, c, d] => if tailAllowed then some [a * 256 + b, c * 256 + d] else none
      | _ => none
    else (piece? last).map fun n => [n]
  | part :: parts => do
    let n ← piece? part
    let ns ← pieces? tailAllowed parts
    pure (n :: ns)

/-- Splits an IPv6 address at its first pair of colons. -/
def splitGap : List Char → List Char → Option (List Char × List Char)
  | _, [] => none
  | seen, ':' :: ':' :: rest => some (seen.reverse, rest)
  | seen, c :: rest => splitGap (c :: seen) rest

/-- One side of an IPv6 address; an empty side has no pieces. -/
def side? (tailAllowed : Bool) (cs : List Char) : Option (List Nat) :=
  if cs.isEmpty then some [] else pieces? tailAllowed (Text.splitBy (· == ':') cs)

/-- The eight pieces of an IPv6 address. A pair of colons stands for at least
    one piece that is zero. -/
def ipv6Pieces? (cs : List Char) : Option (List Nat) :=
  match splitGap [] cs with
  | none => do
    let pieces ← pieces? true (Text.splitBy (· == ':') cs)
    if pieces.length = 8 then pure pieces else none
  | some (left, right) => do
    let left ← side? false left
    let right ← side? true right
    if left.length + right.length ≤ 7 then
      pure (left ++ List.replicate (8 - left.length - right.length) 0 ++ right)
    else none

/-- The hexadecimal text of a piece. -/
def pieceText (n : Nat) : String := String.ofList (Nat.toDigits 16 n)

/-- Pieces with colons between them. -/
def piecesText (ns : List Nat) : String := ":".intercalate (ns.map pieceText)

/-- How many zeros a list starts with. -/
def leadingZeros (ns : List Nat) : Nat := (ns.takeWhile (· == 0)).length

/-- The start and the length of the first longest run of zeros. -/
def longestZeros (ns : List Nat) : Nat × Nat :=
  (List.range ns.length).foldl (fun best i =>
    let count := leadingZeros (ns.drop i)
    if best.2 < count then (i, count) else best) (0, 0)

/-- An IPv6 address with its longest run of at least two zeros cut out. -/
def ipv6Text (ns : List Nat) : String :=
  let (start, count) := longestZeros ns
  if count < 2 then piecesText ns
  else piecesText (ns.take start) ++ "::" ++ piecesText (ns.drop (start + count))

/-- Reads the address between the brackets of a host. -/
def readBracketed? (cs : List Char) : Option String :=
  match cs with
  | '[' :: rest =>
    if rest.getLast? = some ']' then
      (ipv6Pieces? rest.dropLast).map fun ns => "[" ++ ipv6Text ns ++ "]"
    else none
  | _ => none

/-- The characters that no host may hold. -/
def isForbidden (c : Char) : Bool :=
  c.toNat == 0 || c == '\t' || c == '\n' || c == '\r' || c == ' ' || c == '\x23' || c == '/'
    || c == ':' || c == '<' || c == '>' || c == '?' || c == '@' || c == '[' || c == '\x5c'
    || c == ']' || c == '^' || c == '|'

/-- The characters that no domain name may hold. -/
def isForbiddenInDomain (c : Char) : Bool :=
  isForbidden c || Percent.control c || c == '%'

/-- Characters that a domain name drops. -/
def isIgnored (c : Char) : Bool :=
  let n := c.toNat
  n == 0xad || n == 0x34f || n == 0x200b || n == 0x2060 || n == 0x2064 || n == 0xfeff
    || (0x180b ≤ n && n ≤ 0x180d) || (0xfe00 ≤ n && n ≤ 0xfe0f)

/-- Characters outside ASCII that no domain name may hold: blanks, controls,
    joiners, private and unassigned code points, and the mark of unreadable
    octets. -/
def isUnusable (c : Char) : Bool :=
  let n := c.toNat
  0x80 ≤ n && (Text.isBlank c || n ≤ 0x9f || (0x200c ≤ n && n ≤ 0x200f)
    || (0x2028 ≤ n && n ≤ 0x202e) || (0xe000 ≤ n && n ≤ 0xf8ff) || (0xfff9 ≤ n && n ≤ 0xffff)
    || 0xe0000 ≤ n || !Ranges.holds Category.assigned n)

/-- The form of a character in a domain name: folded, of ordinary width, and
    with a point for the other full stops. -/
def mapChar (c : Char) : Char :=
  let n := c.toNat
  let narrow := if 0xff01 ≤ n ∧ n ≤ 0xff5e then n - 0xfee0 else n
  if n = 0x3002 ∨ n = 0xff61 then '.'
  else if n = 0xdf ∨ n = 0x3c2 then c
  else Char.ofNat (CaseFold.fold narrow)

/-- Whether a character may stand in the label of a domain name as it is. -/
def isLabelChar (c : Char) : Bool := !isIgnored c && !isUnusable c && mapChar c == c

/-- The ASCII form of a label, if it has one. A label that claims to be an
    ASCII form must be one. -/
def labelText? (label : List Char) : Option (List Char) :=
  match label with
  | 'x' :: 'n' :: '-' :: '-' :: form =>
    match Punycode.decode? form with
    | some decoded =>
      if label.all (·.toNat < 0x80) && decoded.any (0x80 ≤ ·.toNat) && decoded.all isLabelChar
          && Punycode.encode decoded == form then
        some label
      else none
    | none => none
  | _ =>
    if label.all (·.toNat < 0x80) then some label
    else some (['x', 'n', '-', '-'] ++ Punycode.encode label)

/-- A domain name in its ASCII form. -/
def domain? (cs : List Char) : Option (List Char) := do
  let mapped := (cs.filter fun c => !isIgnored c).map mapChar
  if mapped.any isUnusable then none
  else
    let parts ← (Text.splitBy (· == '.') mapped).mapM labelText?
    let name := ['.'].intercalate parts
    if name.isEmpty ∨ name.any isForbiddenInDomain then none else pure name

/-- The written form of the host of a special scheme. -/
def read? (cs : List Char) : Option String :=
  match cs with
  | '[' :: _ => readBracketed? cs
  | _ => do
    let name ← domain? (Percent.decode cs)
    if endsInNumber name then (ipv4Value? name).map ipv4Text
    else pure (String.ofList name)

/-- The written form of the host of a scheme that is not special. -/
def readVerbatim? (cs : List Char) : Option String :=
  match cs with
  | '[' :: _ => readBracketed? cs
  | _ =>
    if cs.any isForbidden then none
    else some (String.ofList (Percent.encode Percent.control cs))

end Host

end OpenApi
