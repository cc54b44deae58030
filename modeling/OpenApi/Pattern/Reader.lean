import OpenApi.Pattern.Regex
import OpenApi.Text.Blank

/-!
# Reading Patterns

Reads the text of a pattern as a regular expression, or not at all. There are
groups with and without names, flags that hold to the end of their group,
counted repetitions, bracket expressions with set operations, classes by
property, and conditions on a place. There is no looking ahead or behind and
no reference back to a group.

By default classes and case are those of Unicode. With that switched off a
pattern must still match whole characters only, so what would match half of
one is refused.

Each reading step takes the flags in force and the rest of the pattern and
hands on what is left. The depth of the recursion is bounded by the length of
the pattern.

## Main definitions

* `Pattern.Flags`: The flags in force.
* `Pattern.read?`: The regular expression of a pattern.
-/

namespace OpenApi

namespace Pattern

/-- The flags in force at a place of a pattern. -/
structure Flags where
  /-- Letters match in either case. -/
  ignoreCase : Bool
  /-- Circumflex and dollar sign match at every line. -/
  multiLine : Bool
  /-- The dot matches line ends. -/
  dotAll : Bool
  /-- A carriage return ends a line as well. -/
  returns : Bool
  /-- Classes are those of Unicode. -/
  unicode : Bool
  /-- Blanks and comments are skipped. -/
  verbose : Bool

/-- The flags at the start of a pattern. -/
def Flags.initial : Flags := ⟨false, false, false, false, true, false⟩

/-- Whether a character is blank between the parts of a verbose pattern. -/
def isSpace (c : Char) : Bool := Text.isBlank c

/-- Drops blanks and comments; `fuel` bounds how many. -/
def dropSpace : Nat → List Char → List Char
  | 0, cs => cs
  | fuel + 1, cs =>
    match cs.dropWhile isSpace with
    | '\x23' :: rest => dropSpace fuel (rest.dropWhile (· != '\n'))
    | rest => rest

/-- Drops blanks and comments if the pattern is verbose. -/
def skip (flags : Flags) (cs : List Char) : List Char :=
  if flags.verbose then dropSpace cs.length cs else cs

/-- What a single element of a pattern stands for. -/
inductive Atom where
  /-- A character. -/
  | char (c : Char)
  /-- An octet outside ASCII. -/
  | octet (n : Nat)
  /-- A class of characters. -/
  | set (s : CharSet)
  /-- A condition. -/
  | look (l : Look)
  /-- Any character, but for line ends. -/
  | dot

/-- Whether a character has a meaning of its own in some place of a pattern. -/
def isMeta (c : Char) : Bool :=
  ['\x5c', '.', '+', '*', '?', '(', ')', '|', '[', ']', '\x7b', '\x7d', '^', '$', '\x23', '&', '-',
    '~'].contains c

/-- Whether a backslash in front of a character just means the character. -/
def isEscapable (c : Char) : Bool :=
  isMeta c || (c.toNat < 0x80 && !c.isAlphanum && c != '<' && c != '>')

/-- The word characters in force. -/
def wordSet (flags : Flags) : CharSet :=
  if flags.unicode then .ranges Property.word
  else .ranges [(0x30, 0x39), (0x41, 0x5a), (0x5f, 0x5f), (0x61, 0x7a)]

/-- The class a letter after a backslash stands for. -/
def classOf? (flags : Flags) (c : Char) : Option CharSet :=
  let digit := if flags.unicode then Property.digit else [(0x30, 0x39)]
  let space := if flags.unicode then Property.space else [(0x09, 0x0d), (0x20, 0x20)]
  if c = 'd' then some (.ranges digit)
  else if c = 'D' then some (.complement (.ranges digit))
  else if c = 's' then some (.ranges space)
  else if c = 'S' then some (.complement (.ranges space))
  else if c = 'w' then some (wordSet flags)
  else if c = 'W' then some (.complement (wordSet flags))
  else none

/-- The character a letter after a backslash stands for. -/
def controlOf? (c : Char) : Option Char :=
  if c = 'a' then some '\x07'
  else if c = 'f' then some '\x0c'
  else if c = 't' then some '\t'
  else if c = 'n' then some '\n'
  else if c = 'r' then some '\r'
  else if c = 'v' then some '\x0b'
  else none

/-- The value of a hexadecimal digit. -/
def hexValue? (c : Char) : Option Nat :=
  if '0' ≤ c ∧ c ≤ '9' then some (c.toNat - '0'.toNat)
  else if 'a' ≤ c ∧ c ≤ 'f' then some (c.toNat - 'a'.toNat + 10)
  else if 'A' ≤ c ∧ c ≤ 'F' then some (c.toNat - 'A'.toNat + 10)
  else none

/-- The atom of a code point given in hexadecimal. Without Unicode, the code
    points of one octet stand for the octet. -/
def hexAtom? (flags : Flags) (short : Bool) (digits : List Char) : Option Atom := do
  let values ← digits.mapM hexValue?
  let n := values.foldl (fun n d => 16 * n + d) 0
  if digits.isEmpty ∨ 0x10ffff < n ∨ (0xd800 ≤ n ∧ n ≤ 0xdfff) then none
  else if ¬ flags.unicode ∧ short ∧ 0x80 ≤ n ∧ n ≤ 0xff then pure (.octet n)
  else pure (.char (Char.ofNat n))

/-- Takes a number of characters, with blanks skipped between them. -/
def takeSkipping (flags : Flags) : Nat → List Char → Option (List Char × List Char)
  | 0, cs => some ([], cs)
  | _ + 1, [] => none
  | n + 1, c :: rest => do
    let (taken, rest) ← takeSkipping flags n (skip flags rest)
    pure (c :: taken, rest)

/-- Reads a code point in hexadecimal after its letter, with `count` digits or
    with any number of them in braces. -/
def readHex? (flags : Flags) (letter : Char) (cs : List Char) : Option (Atom × List Char) :=
  match skip flags cs with
  | [] => none
  | '\x7b' :: rest =>
    let digits := (rest.takeWhile (· != '\x7d')).filter fun c => !(flags.verbose && isSpace c)
    match rest.dropWhile (· != '\x7d') with
    | [] => none
    | _ :: rest => (hexAtom? flags (letter == 'x') digits).map fun a => (a, skip flags rest)
  | rest => do
    let count := if letter = 'x' then 2 else if letter = 'u' then 4 else 8
    let (digits, rest) ← takeSkipping flags count rest
    let a ← hexAtom? flags (letter == 'x') digits
    pure (a, rest)

/-- Splits a text at the first occurrence of one of two marks. -/
def splitProperty (cs : List Char) : Option (Bool × List Char × List Char) :=
  let go (mark : List Char) : Option (List Char × List Char) :=
    (List.range cs.length).findSome? fun i =>
      if mark.isPrefixOf (cs.drop i) then some (cs.take i, cs.drop (i + mark.length)) else none
  match go ['!', '='] with
  | some (property, value) => some (true, property, value)
  | none =>
    match go [':'] with
    | some (property, value) => some (false, property, value)
    | none => (go ['=']).map fun (property, value) => (false, property, value)

/-- The class of a property, by what stands in the braces. -/
def propertySet? (cs : List Char) : Option CharSet :=
  match splitProperty cs with
  | some (negated, property, value) =>
    (CharSet.ofValue? (CharSet.plainName property) (CharSet.plainName value)).map fun s =>
      if negated then .complement s else s
  | none => CharSet.ofName? (CharSet.plainName cs)

/-- Reads the class of a property after its letter. -/
def readProperty? (flags : Flags) (negated : Bool) (cs : List Char) : Option (Atom × List Char) :=
  if ¬ flags.unicode then none
  else
    let finish (name rest : List Char) : Option (Atom × List Char) := do
      let s ← propertySet? name
      let s := if flags.ignoreCase then CharSet.folded s else s
      pure (.set (if negated then .complement s else s), rest)
    match skip flags cs with
    | [] => none
    | '\x7b' :: rest =>
      let name := (rest.takeWhile (· != '\x7d')).filter fun c => !(flags.verbose && isSpace c)
      match rest.dropWhile (· != '\x7d') with
      | [] => none
      | _ :: rest => finish name rest
    | '\x5c' :: _ => none
    | c :: rest => finish [c] (skip flags rest)

/-- The condition on words that a name in braces stands for. -/
def wordLook? (flags : Flags) (name : String) : Option Look :=
  if name = "start" then some (.wordStart (wordSet flags))
  else if name = "end" then some (.wordEnd (wordSet flags))
  else if name = "start-half" then some (.noWordBefore (wordSet flags))
  else if name = "end-half" then some (.noWordAfter (wordSet flags))
  else none

/-- Reads what follows a backslash and the letter `b`: a name in braces makes it
    another condition, a number in braces is left as a repetition. -/
def readEdge? (flags : Flags) (cs : List Char) : Option (Atom × List Char) :=
  match cs with
  | '\x7b' :: rest =>
    match skip flags rest with
    | [] => none
    | first :: more =>
      let isNameChar := fun c : Char => c.isAlpha || c == '-'
      if ¬ isNameChar first then some (.look (.wordEdge (wordSet flags)), cs)
      else
        let inside := fun c : Char => isNameChar c || (flags.verbose && isSpace c)
        let name := ((first :: more).takeWhile inside).filter isNameChar
        match (first :: more).dropWhile inside with
        | '\x7d' :: rest => (wordLook? flags (String.ofList name)).map fun l => (.look l, rest)
        | _ => none
  | cs => some (.look (.wordEdge (wordSet flags)), cs)

/-- Reads what follows a backslash. -/
def readEscape? (flags : Flags) : List Char → Option (Atom × List Char)
  | [] => none
  | c :: rest =>
    if c.isDigit then none
    else if c = 'x' ∨ c = 'u' ∨ c = 'U' then readHex? flags c rest
    else if c = 'p' ∨ c = 'P' then readProperty? flags (c == 'P') rest
    else
      match classOf? flags c with
      | some s => some (.set s, rest)
      | none =>
        if isEscapable c then some (.char c, rest)
        else
          match controlOf? c with
          | some control => some (.char control, rest)
          | none =>
            if c = 'A' then some (.look .textStart, rest)
            else if c = 'z' then some (.look .textEnd, rest)
            else if c = 'b' then readEdge? flags rest
            else if c = 'B' then some (.look (.noWordEdge (wordSet flags)), rest)
            else if c = '<' then some (.look (.wordStart (wordSet flags)), rest)
            else if c = '>' then some (.look (.wordEnd (wordSet flags)), rest)
            else none

/-- A set closed under change of case, if the flags ask for it. -/
def foldSet (flags : Flags) (s : CharSet) : CharSet :=
  if ¬ flags.ignoreCase then s
  else if flags.unicode then .folded s
  else .union s (.inter (.folded (.inter s .ascii)) .ascii)

/-- A set as an expression. Without Unicode it must not reach beyond ASCII. -/
def setRegex? (flags : Flags) (s : CharSet) : Option Regex :=
  if flags.unicode ∨ s.isAsciiOctets then some (.char s) else none

/-- An atom as an expression. -/
def atomRegex? (flags : Flags) : Atom → Option Regex
  | .char c =>
    let s := CharSet.single c
    some (.char (if c.toNat < 0x80 ∨ flags.unicode then foldSet flags s else s))
  | .octet _ => none
  | .set s => setRegex? flags s
  | .look l => some (.look l)
  | .dot =>
    if ¬ flags.unicode then none
    else if flags.dotAll then some (.char (.ranges [(0, 0x10ffff)]))
    else if flags.returns then some (.char (.complement (.ranges [(0x0a, 0x0a), (0x0d, 0x0d)])))
    else some (.char (.complement (.ranges [(0x0a, 0x0a)])))

/-- An operation between the sets of a bracket expression. -/
inductive SetOp where
  /-- The common characters. -/
  | inter
  /-- The characters of the first that are not in the second. -/
  | diff
  /-- The characters of exactly one. -/
  | symmDiff

/-- The left side of an operation whose right side is being read. -/
abbrev Pending := Option (SetOp × CharSet)

/-- Completes a pending operation with its right side. -/
def combine (flags : Flags) (pending : Pending) (right : CharSet) : CharSet :=
  match pending with
  | none => right
  | some (.inter, left) => .inter (foldSet flags left) (foldSet flags right)
  | some (.diff, left) => .diff (foldSet flags left) (foldSet flags right)
  | some (.symmDiff, left) => .symmDiff (foldSet flags left) (foldSet flags right)

/-- A set folded and complemented as asked for. -/
def finishSet (flags : Flags) (negated : Bool) (s : CharSet) : CharSet :=
  let s := foldSet flags s
  if negated then .complement s else s

/-- Reads the name of an ASCII class after its opening bracket and colon. -/
def readPosix? (flags : Flags) (cs : List Char) : Option (CharSet × List Char) :=
  let (negated, cs) := match cs with
    | '^' :: rest => (true, rest)
    | cs => (false, cs)
  match cs.dropWhile (· != ':') with
  | ':' :: ']' :: rest =>
    (CharSet.ofPosix? (String.ofList (cs.takeWhile (· != ':')))).map fun s =>
      (finishSet flags negated s, rest)
  | _ => none

/-- Reads one end of a range, or what else is in a bracket expression. -/
def readSetAtom? (flags : Flags) : List Char → Option (Atom × List Char)
  | [] => none
  | '\x5c' :: rest => readEscape? flags rest
  | c :: rest => some (.char c, rest)

/-- The code point of an atom that is one character. -/
def atomCode? (flags : Flags) : Atom → Option Nat
  | .char c => if flags.unicode ∨ c.toNat < 0x80 then some c.toNat else none
  | .octet n => some n
  | _ => none

/-- The set of an atom inside a bracket expression. -/
def atomSet? (flags : Flags) : Atom → Option CharSet
  | .set s => some s
  | a => (atomCode? flags a).map fun n => .ranges [(n, n)]

/-- Reads a range or a single element of a bracket expression. A hyphen in front
    of the closing bracket or of another hyphen makes no range. -/
def readSetItem? (flags : Flags) (cs : List Char) : Option (CharSet × List Char) := do
  let (low, rest) ← readSetAtom? flags cs
  match skip flags rest with
  | [] => none
  | '-' :: after =>
    let ahead := if flags.verbose then skip flags after else after
    match ahead with
    | [] => none
    | next :: _ =>
      if next = ']' ∨ next = '-' then
        let s ← atomSet? flags low
        pure (s, '-' :: after)
      else
        let (high, rest) ← readSetAtom? flags ahead
        let low ← atomCode? flags low
        let high ← atomCode? flags high
        if low ≤ high then pure (.ranges [(low, high)], rest) else none
  | rest =>
    let s ← atomSet? flags low
    pure (s, rest)

/-- Takes the hyphens at the start of a bracket expression. -/
def dropHyphens (flags : Flags) : Nat → Bool → List Char → Bool × List Char
  | 0, seen, cs => (seen, cs)
  | fuel + 1, seen, cs =>
    match cs with
    | '-' :: rest => dropHyphens flags fuel true (skip flags rest)
    | cs => (seen, cs)

mutual

/-- Reads a bracket expression after its opening bracket. -/
def readSet? : Nat → Flags → List Char → Option (CharSet × List Char)
  | 0, _, _ => none
  | fuel + 1, flags, cs => do
    let (negated, cs) := match skip flags cs with
      | '^' :: rest => (true, skip flags rest)
      | rest => (false, rest)
    let (hyphens, cs) := dropHyphens flags cs.length false cs
    let start : CharSet := if hyphens then .single '-' else .empty
    let (start, cs) := match cs with
      | ']' :: rest => if hyphens then (start, cs) else (CharSet.single ']', skip flags rest)
      | cs => (start, cs)
    let (s, rest) ← readSetBody? fuel flags none start cs
    pure (finishSet flags negated s, rest)

/-- Reads a bracket expression to its closing bracket. `seen` is the union of
    the items since the last operation. -/
def readSetBody? : Nat → Flags → Pending → CharSet → List Char → Option (CharSet × List Char)
  | 0, _, _, _, _ => none
  | fuel + 1, flags, pending, seen, cs =>
    match skip flags cs with
    | [] => none
    | '[' :: rest =>
      let posix := match rest with
        | ':' :: named => readPosix? flags named
        | _ => none
      match posix with
      | some (s, rest) => readSetBody? fuel flags pending (.union seen s) rest
      | none => do
        let (s, rest) ← readSet? fuel flags rest
        readSetBody? fuel flags pending (.union seen s) rest
    | ']' :: rest => some (combine flags pending seen, rest)
    | '&' :: '&' :: rest =>
      readSetBody? fuel flags (some (.inter, combine flags pending seen)) .empty rest
    | '-' :: '-' :: rest =>
      readSetBody? fuel flags (some (.diff, combine flags pending seen)) .empty rest
    | '~' :: '~' :: rest =>
      readSetBody? fuel flags (some (.symmDiff, combine flags pending seen)) .empty rest
    | rest => do
      let (s, rest) ← readSetItem? flags rest
      readSetBody? fuel flags pending (.union seen s) rest

end

/-- How the bounds of a counted repetition start: a number, or nothing. -/
def readCount? (cs : List Char) : Option (Option Nat × List Char) :=
  let cs := cs.dropWhile isSpace
  let digits := cs.takeWhile Char.isDigit
  let rest := (cs.dropWhile Char.isDigit).dropWhile isSpace
  let n := digits.foldl (fun n c => 10 * n + (c.toNat - '0'.toNat)) 0
  if digits.isEmpty then some (none, rest)
  else if 4294967295 < n then none
  else some (some n, rest)

/-- Reads the bounds of a counted repetition after the opening brace. -/
def readBounds? (flags : Flags) (cs : List Char) : Option (Nat × Option Nat × List Char) := do
  let (low, rest) ← readCount? (skip flags cs)
  match rest with
  | '\x7d' :: rest =>
    let low ← low
    pure (low, some low, rest)
  | ',' :: rest =>
    match skip flags rest with
    | '\x7d' :: rest =>
      let low ← low
      pure (low, none, rest)
    | rest =>
      let low ← low
      let (high, rest) ← readCount? rest
      let high ← high
      match rest with
      | '\x7d' :: rest => if low ≤ high then pure (low, some high, rest) else none
      | _ => none
  | _ => none

/-- A text without a question mark in front. -/
def dropLazy : List Char → List Char
  | '?' :: rest => rest
  | rest => rest

/-- The flag a letter stands for, set to a value. -/
def setFlag? (flags : Flags) (value : Bool) (c : Char) : Option Flags :=
  if c = 'i' then some { flags with ignoreCase := value }
  else if c = 'm' then some { flags with multiLine := value }
  else if c = 's' then some { flags with dotAll := value }
  else if c = 'R' then some { flags with returns := value }
  else if c = 'u' then some { flags with unicode := value }
  else if c = 'x' then some { flags with verbose := value }
  else if c = 'U' then some flags
  else none

/-- Reads flags up to the colon or the closing parenthesis; `seen` holds the
    letters before. No letter and no hyphen comes twice, and a hyphen is not
    the last of them. The answer keeps the character that ended the flags. -/
def readFlags? (flags : Flags) (seen : List Char) : List Char → Option (Flags × List Char)
  | [] => none
  | c :: rest =>
    if c = ':' ∨ c = ')' then
      if seen.head? = some '-' then none
      else if c = ')' ∧ seen.isEmpty then none
      else some (flags, c :: rest)
    else if seen.contains c then none
    else if c = '-' then readFlags? flags (c :: seen) rest
    else
      match setFlag? flags (!seen.contains '-') c with
      | some flags => readFlags? flags (c :: seen) rest
      | none => none

/-- Whether a character may stand in the name of a group. -/
def isNameChar (first : Bool) (c : Char) : Bool :=
  let letter := c == '_' || (CharSet.ranges Property.alphabetic).holds c.toNat
  if first then letter
  else letter || c == '.' || c == '[' || c == ']'
    || (CharSet.ofCategory "n").holds c.toNat

/-- Reads the name of a group up to its closing angle bracket. -/
def readName? (cs : List Char) : Option (List Char × List Char) :=
  let name := cs.takeWhile (· != '>')
  match name, cs.dropWhile (· != '>') with
  | first :: more, _ :: rest =>
    if isNameChar true first && more.all (isNameChar false) then some (name, rest) else none
  | _, _ => none

/-- The rest of a pattern, the flags in force, and the group names so far. -/
structure Cursor where
  /-- What is left of the pattern. -/
  rest : List Char
  /-- The flags in force. -/
  flags : Flags
  /-- The names of the groups so far. -/
  names : List (List Char)

/-- How a group starts. -/
inductive GroupStart where
  /-- The flags are changed for the rest of the group around. -/
  | flagsOnly (cursor : Cursor)
  /-- A group opens. -/
  | opened (cursor : Cursor)

/-- Reads the start of a group after its opening parenthesis. -/
def readGroupStart? (cur : Cursor) (cs : List Char) : Option GroupStart :=
  let named (cs : List Char) : Option GroupStart := do
    let (name, rest) ← readName? cs
    if cur.names.contains name then none
    else pure (.opened { cur with rest, names := name :: cur.names })
  match skip cur.flags cs with
  | '?' :: '=' :: _ => none
  | '?' :: '!' :: _ => none
  | '?' :: '<' :: '=' :: _ => none
  | '?' :: '<' :: '!' :: _ => none
  | '?' :: 'P' :: '<' :: rest => named rest
  | '?' :: '<' :: rest => named rest
  | '?' :: rest => do
    let (flags, rest) ← readFlags? cur.flags [] rest
    match rest with
    | ')' :: rest => pure (.flagsOnly { cur with rest, flags })
    | _ :: rest => pure (.opened { cur with rest, flags })
    | [] => none
  | rest => some (.opened { cur with rest })

/-- The expressions of a sequence, last first, as one expression. A change of
    flags stands among them as nothing. -/
def sequence (items : List (Option Regex)) : Regex :=
  items.foldl (fun after item =>
    match item, after with
    | none, after => after
    | some r, .empty => r
    | some r, after => .seq r after) .empty

/-- Repeats the last expression of a sequence. -/
def repeatLast? (items : List (Option Regex)) (low : Nat) (high : Option Nat) :
    Option (List (Option Regex)) :=
  match items with
  | some r :: before => some (some (.times r low high) :: before)
  | _ => none

/-- The atom that a character outside groups and brackets starts. -/
def readAtom? (flags : Flags) : List Char → Option (Atom × List Char)
  | [] => none
  | '\x5c' :: rest => readEscape? flags rest
  | '.' :: rest => some (.dot, rest)
  | '^' :: rest =>
    some (.look (if flags.multiLine then .lineStart flags.returns else .textStart), rest)
  | '$' :: rest =>
    some (.look (if flags.multiLine then .lineEnd flags.returns else .textEnd), rest)
  | c :: rest => some (.char c, rest)

mutual

/-- Reads alternatives up to the end of their group. -/
def readAlternatives? : Nat → Cursor → Option (Regex × Cursor)
  | 0, _ => none
  | fuel + 1, cur => do
    let (items, cur) ← readSequence? fuel [] cur
    match cur.rest with
    | '|' :: rest =>
      let (other, cur) ← readAlternatives? fuel { cur with rest }
      pure (.alt (sequence items) other, cur)
    | _ => pure (sequence items, cur)

/-- Reads the expressions of a sequence; `items` holds those before, last first. -/
def readSequence? : Nat → List (Option Regex) → Cursor → Option (List (Option Regex) × Cursor)
  | 0, _, _ => none
  | fuel + 1, items, cur =>
    match skip cur.flags cur.rest with
    | [] => some (items, { cur with rest := [] })
    | ')' :: rest => some (items, { cur with rest := ')' :: rest })
    | '|' :: rest => some (items, { cur with rest := '|' :: rest })
    | '(' :: rest => do
      match ← readGroupStart? cur rest with
      | .flagsOnly cur => readSequence? fuel (none :: items) cur
      | .opened inner =>
        let (r, inner) ← readAlternatives? fuel inner
        match inner.rest with
        | ')' :: rest =>
          readSequence? fuel (some r :: items) { inner with rest, flags := cur.flags }
        | _ => none
    | '[' :: rest => do
      let (s, rest) ← readSet? (2 * rest.length + 2) cur.flags rest
      let r ← setRegex? cur.flags s
      readSequence? fuel (some r :: items) { cur with rest }
    | '?' :: rest => do
      let items ← repeatLast? items 0 (some 1)
      readSequence? fuel items { cur with rest := dropLazy rest }
    | '*' :: rest => do
      let items ← repeatLast? items 0 none
      readSequence? fuel items { cur with rest := dropLazy rest }
    | '+' :: rest => do
      let items ← repeatLast? items 1 none
      readSequence? fuel items { cur with rest := dropLazy rest }
    | '\x7b' :: rest => do
      let (low, high, rest) ← readBounds? cur.flags rest
      let items ← repeatLast? items low high
      readSequence? fuel items { cur with rest := dropLazy (skip cur.flags rest) }
    | rest => do
      let (atom, rest) ← readAtom? cur.flags rest
      let r ← atomRegex? cur.flags atom
      readSequence? fuel (some r :: items) { cur with rest }

end

/-- The regular expression of a pattern. A pattern whose repetitions would take
    too much memory when written out is refused. -/
def read? (pattern : String) : Option Regex := do
  let cs := pattern.toList
  let (r, cur) ← readAlternatives? (2 * cs.length + 2) ⟨cs, .initial, []⟩
  if cur.rest.isEmpty ∧ r.weight ≤ Regex.maxWeight then pure r else none

end Pattern

end OpenApi
