import OpenApi.Pattern.CharSet

/-!
# Regular Expressions

What a pattern denotes, and whether it matches somewhere in a text.

A pattern says which pieces of a text it matches, so for a fixed text it is a
relation between the places where a piece starts and where it ends. Whether it
matches somewhere needs no more than the image of that relation: starting from
a set of places, the set of places where matches end. Sets of places are kept
as the bits of one number, so a character is a mask and a shift, alternatives
are a union, and a repetition is iterated until no place is added. A text of
`n` characters has `n + 1` places, so at most `n + 1` rounds add one.

Which of several matches is preferred does not matter here, so greedy and lazy
repetitions are the same.

## Main definitions

* `Regex`: A regular expression.
* `Look`: A condition on a place.
* `Regex.isMatch`: Whether a text holds a match.
* `Regex.weight`: The memory a pattern would take when its repetitions are
  written out.
-/

namespace OpenApi

/-- A condition on the characters before and after a place. -/
inductive Look where
  /-- The start of the text. -/
  | textStart
  /-- The end of the text. -/
  | textEnd
  /-- The start of a line; the flag says whether a carriage return ends one. -/
  | lineStart (returns : Bool)
  /-- The end of a line; the flag says whether a carriage return ends one. -/
  | lineEnd (returns : Bool)
  /-- Between a word character and another one or none. -/
  | wordEdge (word : CharSet)
  /-- Not between a word character and another one or none. -/
  | noWordEdge (word : CharSet)
  /-- Before a word. -/
  | wordStart (word : CharSet)
  /-- After a word. -/
  | wordEnd (word : CharSet)
  /-- Not after a word character. -/
  | noWordBefore (word : CharSet)
  /-- Not before a word character. -/
  | noWordAfter (word : CharSet)

/-- Whether an optional character is in a set. -/
def CharSet.holdsSome (s : CharSet) (c : Option Char) : Bool :=
  match c with
  | some c => s.holds c.toNat
  | none => false

/-- Whether a condition holds between two characters. -/
def Look.holds (before after : Option Char) : Look → Bool
  | .textStart => before.isNone
  | .textEnd => after.isNone
  | .lineStart false => before.isNone || before == some '\n'
  | .lineStart true =>
    before.isNone || before == some '\n' || (before == some '\r' && after != some '\n')
  | .lineEnd false => after.isNone || after == some '\n'
  | .lineEnd true =>
    after.isNone || after == some '\r' || (after == some '\n' && before != some '\r')
  | .wordEdge w => w.holdsSome before != w.holdsSome after
  | .noWordEdge w => w.holdsSome before == w.holdsSome after
  | .wordStart w => !w.holdsSome before && w.holdsSome after
  | .wordEnd w => w.holdsSome before && !w.holdsSome after
  | .noWordBefore w => !w.holdsSome before
  | .noWordAfter w => !w.holdsSome after

/-- A regular expression. -/
inductive Regex where
  /-- Matches the empty text. -/
  | empty
  /-- Matches one character of a set. -/
  | char (set : CharSet)
  /-- Matches the empty text where a condition holds. -/
  | look (condition : Look)
  /-- Matches one expression after the other. -/
  | seq (first second : Regex)
  /-- Matches either expression. -/
  | alt (left right : Regex)
  /-- Matches an expression a number of times between two bounds. -/
  | times (body : Regex) (low : Nat) (high : Option Nat)

/-- Set of places of a text, by the bits of a number. -/
abbrev Places := Nat

/-- A regular expression with its sets and conditions evaluated on one text:
    the places in front of which a character is in a set, and the places where
    a condition holds. -/
inductive PlacedRegex where
  /-- Stays at every place. -/
  | empty
  /-- Goes over one character from the given places. -/
  | step (places : Places)
  /-- Stays at the given places. -/
  | stay (places : Places)
  /-- One expression after the other. -/
  | seq (first second : PlacedRegex)
  /-- Either expression. -/
  | alt (left right : PlacedRegex)
  /-- An expression a number of times. -/
  | times (body : PlacedRegex) (low : Nat) (high : Option Nat)

namespace Regex

/-- The places of a text where a condition on the two neighbours holds; `before`
    is the character in front of the text. -/
def placesWhere (condition : Option Char → Option Char → Bool) : Option Char → List Char → Places
  | before, [] => if condition before none then 1 else 0
  | before, c :: rest =>
    2 * placesWhere condition (some c) rest + (if condition before (some c) then 1 else 0)

/-- Evaluates the sets and the conditions of an expression on a text. -/
def place (text : List Char) : Regex → PlacedRegex
  | .empty => .empty
  | .char s => .step (placesWhere (fun _ after => s.holdsSome after) none text)
  | .look l => .stay (placesWhere (fun before after => l.holds before after) none text)
  | .seq a b => .seq (place text a) (place text b)
  | .alt a b => .alt (place text a) (place text b)
  | .times r low high => .times (place text r) low high

end Regex

namespace PlacedRegex

/-- Applies a function a number of times. -/
def iterate (f : Places → Places) : Nat → Places → Places
  | 0, s => s
  | n + 1, s => iterate f n (f s)

/-- The places reached by applying `f` at most `n` times. -/
def within (f : Places → Places) : Nat → Places → Places
  | 0, s => s
  | n + 1, s =>
    let more := s ||| f s
    if more = s then s else within f n more

/-- The places where matches that start in `s` end, in a text of `count`
    characters. -/
def ends (count : Nat) : PlacedRegex → Places → Places
  | .empty, s => s
  | .step m, s => (s &&& m) <<< 1
  | .stay m, s => s &&& m
  | .seq a b, s => ends count b (ends count a s)
  | .alt a b, s => ends count a s ||| ends count b s
  | .times r low high, s =>
    let reached := iterate (ends count r) low s
    match high with
    | some high => within (ends count r) (high - low) reached
    | none => within (ends count r) (count + 1) reached

end PlacedRegex

namespace Regex

/-- Whether the expression matches some piece of a text. -/
def isMatch (r : Regex) (text : String) : Bool :=
  let cs := text.toList
  let everywhere := (1 <<< (cs.length + 1)) - 1
  (place cs r).ends cs.length everywhere != 0

/-- The memory a compiled pattern may take. -/
def maxWeight : Nat := 10485760

/-- An estimate of the memory an expression takes when every repetition is
    written out as often as its larger bound says. -/
def weight : Regex → Nat
  | .empty => 32
  | .char s => if s.size ≤ 1 then 32 else 60 * s.size
  | .look _ => 32
  | .seq a b => a.weight + b.weight
  | .alt a b => a.weight + b.weight + 32
  | .times r low high =>
    match high with
    | some high => 32 + r.weight * high
    | none => 32 + r.weight * (if low = 0 then 1 else low)

end Regex

end OpenApi
