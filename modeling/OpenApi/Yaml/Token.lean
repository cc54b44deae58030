/-!
# YAML Tokens

Cuts a YAML text into tokens. In a block, structure is shown by indentation:
a column further right than the current one opens a block, and one further left
closes all blocks that start right of it. In brackets and braces indentation
does not count.

A key needs no mark of its own, so whether a scalar was a key is known only
when a colon follows. Until then its place is remembered as a possible key, and
when the colon comes a key token is inserted there. A possible key must be
followed by its colon on the same line and within 1024 characters. At the
start of a line of a block mapping a possible key is required to be one.

Characters that may not stand in a YAML text make the whole text unreadable.

## Main definitions

* `Yaml.Token`: A token.
* `Yaml.Cursor`: What is left of the text, and where that is.
* `Yaml.Scan`: The state of the cutting.
* `Yaml.tokens?`: The tokens of a text.
-/

namespace OpenApi

namespace Yaml

/-- A token of a YAML text. -/
inductive Token where
  /-- The version a document is written in. -/
  | version (major minor : Nat)
  /-- What a tag handle stands for. -/
  | tagHandle (handle replacement : String)
  /-- Three hyphens at the start of a line. -/
  | documentStart
  /-- Three points at the start of a line. -/
  | documentEnd
  /-- A block sequence opens. -/
  | blockSequence
  /-- A block mapping opens. -/
  | blockMapping
  /-- A block closes. -/
  | blockEnd
  /-- An opening bracket. -/
  | flowSequence
  /-- A closing bracket. -/
  | flowSequenceEnd
  /-- An opening brace. -/
  | flowMapping
  /-- A closing brace. -/
  | flowMappingEnd
  /-- The hyphen of an entry. -/
  | blockEntry
  /-- A comma between entries. -/
  | flowEntry
  /-- A key follows. -/
  | key
  /-- A value follows. -/
  | value
  /-- A reference to an anchored node. -/
  | alias (name : String)
  /-- A name for the node that follows. -/
  | anchor (name : String)
  /-- The tag of the node that follows. -/
  | tag (handle suffix : String)
  /-- A scalar, written plainly or in another style. -/
  | scalar (plain : Bool) (text : String)
deriving DecidableEq, Repr

/-- Whether a character is a space or a tab. -/
def isBlank (c : Char) : Bool := c == ' ' || c == '\t'

/-- Whether a character ends a line. -/
def isBreak (c : Char) : Bool :=
  c == '\n' || c == '\r' || c.toNat == 0x85 || c.toNat == 0x2028 || c.toNat == 0x2029

/-- Whether a character may stand in names of anchors, handles and directives. -/
def isNameChar (c : Char) : Bool := c.isAlphanum || c == '_' || c == '-'

/-- Whether a character may stand in a YAML text. -/
def isAllowed (c : Char) : Bool :=
  let n := c.toNat
  n == 0x09 || n == 0x0a || n == 0x0d || (0x20 ≤ n && n ≤ 0x7e) || n == 0x85
    || (0xa0 ≤ n && n ≤ 0xfffd && n != 0xfeff) || 0x10000 ≤ n

/-- What is left of a text, and its place. -/
structure Cursor where
  /-- The text from here on. -/
  rest : List Char
  /-- How many characters came before. -/
  index : Nat
  /-- How many lines came before. -/
  line : Nat
  /-- How many characters of this line came before. -/
  column : Nat

namespace Cursor

/-- The character here. -/
def peek? (c : Cursor) : Option Char := c.rest.head?

/-- The character some places further. -/
def ahead? (c : Cursor) (n : Nat) : Option Char := c.rest[n]?

/-- Whether a blank, a line end or the end of the text is some places further. -/
def blankAhead (c : Cursor) (n : Nat) : Bool :=
  match c.ahead? n with
  | none => true
  | some ch => isBlank ch || isBreak ch

/-- Whether a line or the text ends here. -/
def atLineEnd (c : Cursor) : Bool :=
  match c.peek? with
  | none => true
  | some ch => isBreak ch

/-- Some characters of the line further. -/
def skip (c : Cursor) (n : Nat) : Cursor :=
  { c with rest := c.rest.drop n, index := c.index + n, column := c.column + n }

/-- Past the characters of a class, which holds no line ends. -/
def skipWhile (c : Cursor) (p : Char → Bool) : Cursor :=
  c.skip (c.rest.takeWhile p).length

/-- Past a line end, with the character it stands for. A carriage return and a
    line feed together are one line end. -/
def readBreak (c : Cursor) : List Char × Cursor :=
  match c.rest with
  | '\r' :: '\n' :: rest => (['\n'], ⟨rest, c.index + 2, c.line + 1, 0⟩)
  | ch :: rest =>
    if isBreak ch then
      let kept := if ch.toNat = 0x2028 ∨ ch.toNat = 0x2029 then ch else '\n'
      ([kept], ⟨rest, c.index + 1, c.line + 1, 0⟩)
    else ([], c)
  | [] => ([], c)

/-- Past a line end. -/
def skipBreak (c : Cursor) : Cursor := c.readBreak.2

/-- Past a comment, if one starts here. -/
def skipComment (c : Cursor) : Cursor :=
  if c.peek? = some '\x23' then c.skipWhile fun ch => !isBreak ch else c

/-- Whether a line of three hyphens or three points starts here. -/
def atDocumentMark (c : Cursor) : Bool :=
  c.column == 0 && (c.rest.take 3 == ['-', '-', '-'] || c.rest.take 3 == ['.', '.', '.'])
    && c.blankAhead 3

end Cursor

/-- A place where a key may have been. -/
structure PossibleKey where
  /-- Whether the place may still turn out to be a key. -/
  possible : Bool
  /-- Whether it has to. -/
  required : Bool
  /-- How many tokens came before. -/
  number : Nat
  /-- Where it is. -/
  index : Nat
  /-- On which line it is. -/
  line : Nat
  /-- In which column it is. -/
  column : Nat

/-- No key. -/
def PossibleKey.none : PossibleKey := ⟨false, false, 0, 0, 0, 0⟩

/-- The state of cutting a text into tokens. -/
structure Scan where
  /-- What is left of the text. -/
  cur : Cursor
  /-- The tokens so far. -/
  tokens : Array Token
  /-- How many brackets and braces are open. -/
  flow : Nat
  /-- The column of the innermost block, or `-1` outside all blocks. -/
  indent : Int
  /-- The columns of the blocks around it. -/
  indents : List Int
  /-- Whether a key may start here. -/
  keyAllowed : Bool
  /-- The possible key of every open bracket or brace, innermost first, and of
      the block around them. -/
  keys : List PossibleKey

namespace Scan

/-- Appends a token. -/
def push (s : Scan) (t : Token) : Scan := { s with tokens := s.tokens.push t }

/-- Inserts a token at a number. -/
def insertAt (s : Scan) (number : Nat) (t : Token) : Scan :=
  { s with tokens := (s.tokens.extract 0 number).push t ++ s.tokens.extract number s.tokens.size }

/-- The possible key of the innermost bracket. -/
def topKey (s : Scan) : PossibleKey := s.keys.headD .none

/-- Replaces the possible key of the innermost bracket. -/
def setKey (s : Scan) (k : PossibleKey) : Scan := { s with keys := k :: s.keys.drop 1 }

/-- Gives up the possible key, which must not be required. -/
def dropKey? (s : Scan) : Option Scan :=
  let k := s.topKey
  if k.possible && k.required then none else some (s.setKey { k with possible := false })

/-- Gives up all possible keys that are too far away. -/
def dropStale? (s : Scan) : Option Scan := do
  let keys ← s.keys.mapM fun k =>
    if k.possible && (k.line < s.cur.line || k.index + 1024 < s.cur.index) then
      if k.required then none else some { k with possible := false }
    else some k
  pure { s with keys }

/-- Remembers this place as a possible key, if a key may start here. -/
def saveKey? (s : Scan) : Option Scan :=
  if s.keyAllowed then do
    let required := s.flow == 0 && s.indent == (s.cur.column : Int)
    let s ← s.dropKey?
    pure (s.setKey ⟨true, required, s.tokens.size, s.cur.index, s.cur.line, s.cur.column⟩)
  else some s

/-- Opens a block at a column right of the current one. Its token is inserted
    at a number. -/
def openBlock (s : Scan) (column : Nat) (number : Nat) (t : Token) : Scan :=
  if s.flow = 0 ∧ s.indent < column then
    { s.insertAt number t with indents := s.indent :: s.indents, indent := column }
  else s

/-- Closes the blocks right of a column. -/
def closeBlocks (s : Scan) (column : Int) : Scan :=
  if s.flow = 0 then go s.indents s else s
where
  /-- Closes blocks as long as the innermost one is right of the column. -/
  go : List Int → Scan → Scan
    | [], s => s
    | outer :: rest, s =>
      if column < s.indent then
        go rest { s.push .blockEnd with indent := outer, indents := rest }
      else s

/-- Drops blanks, comments and line ends in front of the next token. A tab is
    blank only where no key may start; `fuel` bounds the number of lines. -/
def toNext : Nat → Scan → Scan
  | 0, s => s
  | fuel + 1, s =>
    let tabs := s.flow != 0 || !s.keyAllowed
    let cur := (s.cur.skipWhile fun c => c == ' ' || (tabs && c == '\t')).skipComment
    if cur.rest.isEmpty ∨ ¬ cur.atLineEnd then { s with cur }
    else
      toNext fuel { s with cur := cur.skipBreak, keyAllowed := s.keyAllowed || s.flow == 0 }

end Scan

/-- What stands between two words of a scalar. -/
structure Gap where
  /-- The blanks before the first line end, backwards. -/
  blanks : List Char
  /-- The first line end. -/
  first : List Char
  /-- The line ends after the first. -/
  others : List Char
  /-- Whether a line ended. -/
  broken : Bool

/-- Nothing between two words. -/
def Gap.empty : Gap := ⟨[], [], [], false⟩

/-- What a gap contributes to its scalar: a single line end is a space, further
    ones are kept, and without a line end the blanks are kept. -/
def Gap.text (g : Gap) : List Char :=
  if g.broken then
    if g.first = ['\n'] then (if g.others.isEmpty then [' '] else g.others)
    else g.first ++ g.others
  else g.blanks.reverse

/-- Reads blanks and line ends. After a line end, a tab left of the column
    `limit` is an error. -/
def readGap? (limit : Int) : Nat → Cursor → Gap → Option (Cursor × Gap)
  | 0, cur, g => some (cur, g)
  | fuel + 1, cur, g =>
    match cur.peek? with
    | none => some (cur, g)
    | some c =>
      if isBlank c then
        if g.broken then
          if c = '\t' ∧ (cur.column : Int) < limit then none
          else readGap? limit fuel (cur.skip 1) g
        else readGap? limit fuel (cur.skip 1) { g with blanks := c :: g.blanks }
      else if isBreak c then
        let (text, cur) := cur.readBreak
        if g.broken then readGap? limit fuel cur { g with others := g.others ++ text }
        else readGap? limit fuel cur { g with blanks := [], first := text, broken := true }
      else some (cur, g)

/-- The value of a hexadecimal digit. -/
def hexValue? (c : Char) : Option Nat :=
  if '0' ≤ c ∧ c ≤ '9' then some (c.toNat - '0'.toNat)
  else if 'a' ≤ c ∧ c ≤ 'f' then some (c.toNat - 'a'.toNat + 10)
  else if 'A' ≤ c ∧ c ≤ 'F' then some (c.toNat - 'A'.toNat + 10)
  else none

/-- The value of a hexadecimal text. -/
def hexNumber? (cs : List Char) : Option Nat :=
  cs.foldlM (fun n c => (hexValue? c).map fun d => 16 * n + d) 0

/-- The character of a one-letter escape in double quotes. -/
def escapeOf? (c : Char) : Option Char :=
  [('0', '\x00'), ('a', '\x07'), ('b', '\x08'), ('t', '\t'), ('\t', '\t'), ('n', '\n'),
    ('v', '\x0b'), ('f', '\x0c'), ('r', '\r'), ('e', '\x1b'), (' ', ' '), ('\x22', '\x22'),
    ('/', '/'), ('\x5c', '\x5c'), ('N', '\u0085'), ('_', '\u00a0'), ('L', '\u2028'),
    ('P', '\u2029')].lookup c

/-- How many hexadecimal digits follow the letter of a numeric escape. -/
def escapeLength? (c : Char) : Option Nat :=
  if c = 'x' then some 2 else if c = 'u' then some 4 else if c = 'U' then some 8 else none

/-- Reads an escape in double quotes after its backslash. -/
def readEscape? (cur : Cursor) : Option (Char × Cursor) := do
  let c ← cur.peek?
  match escapeLength? c with
  | some count =>
    let digits := (cur.rest.drop 1).take count
    let n ← hexNumber? digits
    if digits.length < count ∨ (0xd800 ≤ n ∧ n ≤ 0xdfff) ∨ 0x10ffff < n then none
    else pure (Char.ofNat n, cur.skip (count + 1))
  | none =>
    let e ← escapeOf? c
    pure (e, cur.skip 1)

/-- Reads characters of a quoted scalar up to a blank, a line end or the closing
    quote. The flag tells that an escaped line end was read. -/
def readQuotedWord? (single : Bool) : Nat → List Char → Cursor → Option (List Char × Bool × Cursor)
  | 0, _, _ => none
  | fuel + 1, seen, cur =>
    match cur.rest with
    | [] => some (seen, false, cur)
    | c :: more =>
      if isBlank c || isBreak c then some (seen, false, cur)
      else if single then
        if c = '\x27' then
          if more.head? = some '\x27' then readQuotedWord? single fuel (c :: seen) (cur.skip 2)
          else some (seen, false, cur)
        else readQuotedWord? single fuel (c :: seen) (cur.skip 1)
      else if c = '\x22' then some (seen, false, cur)
      else if c = '\x5c' then
        match more with
        | next :: _ =>
          if isBreak next then some (seen, true, (cur.skip 1).skipBreak)
          else do
            let (e, cur) ← readEscape? (cur.skip 1)
            readQuotedWord? single fuel (e :: seen) cur
        | [] => none
      else readQuotedWord? single fuel (c :: seen) (cur.skip 1)

/-- Reads a quoted scalar after its opening quote; `seen` is what was read so
    far, backwards. -/
def readQuoted? (single : Bool) : Nat → List Char → Cursor → Option (List Char × Cursor)
  | 0, _, _ => none
  | fuel + 1, seen, cur =>
    if cur.atDocumentMark ∨ cur.rest.isEmpty then none
    else do
      let (seen, escaped, cur) ← readQuotedWord? single (cur.rest.length + 1) seen cur
      let atQuote := cur.peek? = some (if single then '\x27' else '\x22')
      if atQuote ∧ ¬ escaped then pure (seen.reverse, cur.skip 1)
      else
        let start : Gap := { Gap.empty with broken := escaped }
        let (cur, gap) ← readGap? (-1) cur.rest.length cur start
        readQuoted? single fuel (gap.text.reverse ++ seen) cur

/-- Whether a character separates entries in brackets and braces. -/
def isFlowMark (c : Char) : Bool :=
  c == ',' || c == '[' || c == ']' || c == '\x7b' || c == '\x7d'

/-- Reads characters of a plain scalar up to a blank, a line end or what ends
    it. In brackets and braces a colon must not touch a separator. -/
def readPlainWord? (flow : Bool) : Nat → List Char → Cursor → Option (List Char × Cursor)
  | 0, _, _ => none
  | fuel + 1, seen, cur =>
    match cur.rest with
    | [] => some (seen, cur)
    | c :: more =>
      if isBlank c || isBreak c then some (seen, cur)
      else if flow && c == ':' && more.head?.any (fun n => isFlowMark n || n == '?') then none
      else if (c == ':' && cur.blankAhead 1) || (flow && isFlowMark c) then some (seen, cur)
      else readPlainWord? flow fuel (c :: seen) (cur.skip 1)

/-- Reads a plain scalar; `seen` is what was read so far, backwards, and `gap`
    what stood after it. Answers the scalar, the place and whether a line ended
    after the scalar. -/
def readPlain? (flow : Bool) (indent : Int) :
    Nat → List Char → Gap → Cursor → Option (List Char × Bool × Cursor)
  | 0, _, _, _ => none
  | fuel + 1, seen, gap, cur =>
    if cur.atDocumentMark ∨ cur.peek? = some '\x23' then some (seen.reverse, gap.broken, cur)
    else do
      let (word, cur) ← readPlainWord? flow (cur.rest.length + 1) [] cur
      let (seen, gap) := if word.isEmpty then (seen, gap)
        else (word ++ (gap.text.reverse ++ seen), Gap.empty)
      let more := cur.peek?.any fun c => isBlank c || isBreak c
      if ¬ more then pure (seen.reverse, gap.broken, cur)
      else
        let (cur, gap) ← readGap? indent cur.rest.length cur gap
        if ¬ flow ∧ (cur.column : Int) < indent then pure (seen.reverse, gap.broken, cur)
        else readPlain? flow indent fuel seen gap cur

/-- Reads indentation and empty lines inside a block scalar: the line ends, and
    the furthest column reached. With `indent` zero the indentation is not yet
    known, and no column limits it. -/
def readBlockBreaks? (indent : Nat) :
    Nat → Nat → List Char → Cursor → Option (Nat × List Char × Cursor)
  | 0, furthest, breaks, cur => some (furthest, breaks, cur)
  | fuel + 1, furthest, breaks, cur =>
    let spaces := (cur.rest.takeWhile (· == ' ')).length
    let cur := cur.skip (if indent = 0 then spaces else min spaces (indent - cur.column))
    let furthest := max furthest cur.column
    if cur.peek? = some '\t' ∧ (indent = 0 ∨ cur.column < indent) then none
    else if cur.rest.isEmpty ∨ ¬ cur.atLineEnd then some (furthest, breaks, cur)
    else
      let (text, cur) := cur.readBreak
      readBlockBreaks? indent fuel furthest (breaks ++ text) cur

/-- What remains of the line end after the last line of a block scalar. -/
inductive Chomp where
  /-- Nothing remains. -/
  | strip
  /-- The line end remains. -/
  | clip
  /-- All line ends remain. -/
  | keep

/-- Reads the lines of a block scalar. `seen` is what was read so far,
    backwards, `last` the line end after the last line, `breaks` the line ends
    of the empty lines after it, and `blank` tells that the last line started
    with a blank. In a folded scalar the line end between two lines that start
    with no blank is a space, or nothing when empty lines follow. -/
def readBlockLines? (folded : Bool) (indent : Nat) (chomp : Chomp) :
    Nat → List Char → List Char → List Char → Bool → Cursor → Option (List Char × Cursor)
  | 0, _, _, _, _, _ => none
  | fuel + 1, seen, last, breaks, blank, cur =>
    if cur.column = indent ∧ ¬ cur.rest.isEmpty then do
      let starts := cur.peek?.any isBlank
      let join :=
        if folded ∧ last = ['\n'] ∧ ¬ blank ∧ ¬ starts then
          (if breaks.isEmpty then [' '] else [])
        else last
      let line := cur.rest.takeWhile fun c => !isBreak c
      let seen := line.reverse ++ ((join ++ breaks).reverse ++ seen)
      let (last, cur) := (cur.skip line.length).readBreak
      let (_, breaks, cur) ← readBlockBreaks? indent (cur.rest.length + 1) 0 [] cur
      readBlockLines? folded indent chomp fuel seen last breaks starts cur
    else
      let tail := match chomp with
        | .strip => []
        | .clip => last
        | .keep => last ++ breaks
      some (seen.reverse ++ tail, cur)

/-- Reads the mark for the tail of a block scalar. -/
def readChomp? (cur : Cursor) : Option (Chomp × Cursor) :=
  match cur.peek? with
  | some '+' => some (.keep, cur.skip 1)
  | some '-' => some (.strip, cur.skip 1)
  | _ => none

/-- Reads the mark for the indentation of a block scalar: zero when there is none. -/
def readIncrement? (cur : Cursor) : Option (Nat × Cursor) :=
  match cur.peek? with
  | some c =>
    if c = '0' then none
    else if c.isDigit then some (c.toNat - '0'.toNat, cur.skip 1)
    else some (0, cur)
  | none => some (0, cur)

/-- Reads a block scalar after its indicator, in a block at column `parent`. -/
def readBlock? (folded : Bool) (parent : Int) (cur : Cursor) : Option (List Char × Cursor) := do
  let (chomp, increment, cur) ← match readChomp? cur with
    | some (chomp, cur) => (readIncrement? cur).map fun (n, cur) => (chomp, n, cur)
    | none => do
      let (n, cur) ← readIncrement? cur
      match (if n = 0 then none else readChomp? cur) with
      | some (chomp, cur) => pure (chomp, n, cur)
      | none => pure (Chomp.clip, n, cur)
  let cur := (cur.skipWhile isBlank).skipComment
  if ¬ cur.atLineEnd then none
  else
    let cur := cur.skipBreak
    let given : Nat := if increment = 0 then 0 else (max parent 0).toNat + increment
    let (furthest, breaks, cur) ← readBlockBreaks? given (cur.rest.length + 1) 0 [] cur
    let indent := if given = 0 then max furthest (max (parent + 1).toNat 1) else given
    readBlockLines? folded indent chomp (cur.rest.length + 2) [] [] breaks false cur

/-- Whether a character may stand in the text of a tag. -/
def isTagChar (verbatim : Bool) (c : Char) : Bool :=
  isNameChar c || [';', '/', '?', ':', '@', '&', '=', '+', '$', '.', '%', '!', '~', '*', '\x27',
    '(', ')'].contains c || (verbatim && (c == ',' || c == '[' || c == ']'))

/-- Replaces the percent-encoded octets of the text of a tag. They must be
    UTF-8. -/
def unescapeTag? : Nat → List Char → Option (List Char)
  | 0, _ => none
  | _ + 1, [] => some []
  | fuel + 1, '%' :: a :: b :: rest => do
    let lead ← hexNumber? [a, b]
    let count := if lead < 0x80 then 0 else if lead < 0xc0 then 4
      else if lead < 0xe0 then 1 else if lead < 0xf0 then 2 else if lead < 0xf8 then 3 else 4
    if count = 4 then none
    else
      let (n, rest) ← tails count (if count = 0 then lead else lead % Nat.pow 2 (6 - count)) rest
      let more ← unescapeTag? fuel rest
      pure (Char.ofNat n :: more)
  | fuel + 1, c :: rest => do
    if c = '%' then none
    else
      let more ← unescapeTag? fuel rest
      pure (c :: more)
where
  /-- Reads the octets that continue a character. -/
  tails : Nat → Nat → List Char → Option (Nat × List Char)
    | 0, n, rest => some (n, rest)
    | count + 1, n, '%' :: a :: b :: rest => do
      let octet ← hexNumber? [a, b]
      if octet / 64 = 2 then tails count (64 * n + octet % 64) rest else none
    | _, _, _ => none

/-- Reads the text of a tag. -/
def readTagText? (verbatim : Bool) (cur : Cursor) : Option (List Char × Cursor) := do
  let taken := cur.rest.takeWhile (isTagChar verbatim)
  let text ← unescapeTag? (taken.length + 1) taken
  pure (text, cur.skip taken.length)

/-- Reads the handle of a tag: an exclamation mark, and perhaps a name and
    another one. -/
def readHandle? (directive : Bool) (cur : Cursor) : Option (List Char × Cursor) :=
  match cur.rest with
  | '!' :: rest =>
    let name := rest.takeWhile isNameChar
    let cur := cur.skip (1 + name.length)
    if cur.peek? = some '!' then some ('!' :: name ++ ['!'], cur.skip 1)
    else if directive ∧ ¬ name.isEmpty then none
    else some ('!' :: name, cur)
  | _ => none

/-- Reads a tag: its handle and the rest of it. -/
def readTag? (flow : Bool) (cur : Cursor) : Option (Token × Cursor) := do
  let (handle, suffix, cur) ←
    if cur.ahead? 1 = some '<' then do
      let (text, cur) ← readTagText? true (cur.skip 2)
      if text.isEmpty ∨ cur.peek? ≠ some '>' then none
      else pure ([], text, cur.skip 1)
    else do
      let (handle, cur) ← readHandle? false cur
      if 1 < handle.length ∧ handle.getLast? = some '!' then
        let (text, cur) ← readTagText? false cur
        if text.isEmpty then none else pure (handle, text, cur)
      else
        let (text, cur) ← readTagText? false cur
        let suffix := handle.drop 1 ++ text
        pure (if suffix.isEmpty then ([], ['!'], cur) else (['!'], suffix, cur))
  if cur.blankAhead 0 ∨ (flow ∧ cur.peek? = some ',') then
    pure (.tag (String.ofList handle) (String.ofList suffix), cur)
  else none

/-- Reads the name of an anchor or an alias after its indicator. -/
def readAnchor? (cur : Cursor) : Option (String × Cursor) :=
  let name := (cur.rest.drop 1).takeWhile isNameChar
  let cur := cur.skip (1 + name.length)
  let ended := cur.blankAhead 0 ||
    cur.peek?.any fun c => ['?', ':', ',', ']', '\x7d', '%', '@', '\x60'].contains c
  if name.isEmpty ∨ ¬ ended then none else some (String.ofList name, cur)

/-- Reads a number of a version, of at most nine digits. -/
def readVersionNumber? (cur : Cursor) : Option (Nat × Cursor) :=
  let digits := cur.rest.takeWhile Char.isDigit
  if digits.isEmpty ∨ 9 < digits.length then none
  else some (digits.foldl (fun n c => 10 * n + (c.toNat - '0'.toNat)) 0, cur.skip digits.length)

/-- Reads a directive with the rest of its line. -/
def readDirective? (cur : Cursor) : Option (Token × Cursor) := do
  let cur := cur.skip 1
  let name := cur.rest.takeWhile isNameChar
  let cur := cur.skip name.length
  if name.isEmpty ∨ ¬ cur.blankAhead 0 then none
  else
    let cur := cur.skipWhile isBlank
    let (token, cur) ←
      if name = ['Y', 'A', 'M', 'L'] then do
        let (major, cur) ← readVersionNumber? cur
        if cur.peek? ≠ some '.' then none
        else
          let (minor, cur) ← readVersionNumber? (cur.skip 1)
          pure (Token.version major minor, cur)
      else if name = ['T', 'A', 'G'] then do
        let (handle, cur) ← readHandle? true cur
        if ¬ cur.peek?.any isBlank then none
        else
          let (text, cur) ← readTagText? true (cur.skipWhile isBlank)
          if text.isEmpty ∨ ¬ cur.blankAhead 0 then none
          else pure (Token.tagHandle (String.ofList handle) (String.ofList text), cur)
      else none
    let cur := (cur.skipWhile isBlank).skipComment
    if cur.atLineEnd then pure (token, cur.skipBreak) else none

/-- Whether a plain scalar may start here. -/
def startsPlain (flow : Bool) (cur : Cursor) : Bool :=
  match cur.peek? with
  | none => false
  | some c =>
    let indicator := ['-', '?', ':', ',', '[', ']', '\x7b', '\x7d', '\x23', '&', '*', '!', '|',
      '>', '\x27', '\x22', '%', '@', '\x60'].contains c
    let blankNext := (cur.ahead? 1).any isBlank
    !(indicator || isBlank c || isBreak c) || (c == '-' && !blankNext)
      || (!flow && (c == '?' || c == ':') && !cur.blankAhead 1)

namespace Scan

/-- Takes an opening bracket or brace. -/
def openFlow? (s : Scan) (t : Token) : Option Scan := do
  let s ← s.saveKey?
  pure { s.push t with
    keys := .none :: s.keys, flow := s.flow + 1, keyAllowed := true, cur := s.cur.skip 1 }

/-- Takes a closing bracket or brace. -/
def closeFlow? (s : Scan) (t : Token) : Option Scan := do
  let s ← s.dropKey?
  let keys := if s.flow = 0 then s.keys else s.keys.drop 1
  pure { s.push t with keys, flow := s.flow - 1, keyAllowed := false, cur := s.cur.skip 1 }

/-- Takes an indicator that opens a block of its own where a key may start. -/
def takeIndicator? (s : Scan) (block t : Token) (keyAfter : Bool) : Option Scan := do
  if s.flow = 0 ∧ ¬ s.keyAllowed then none
  else
    let s := s.openBlock s.cur.column s.tokens.size block
    let s ← s.dropKey?
    pure { s.push t with keyAllowed := keyAfter, cur := s.cur.skip 1 }

/-- Takes the colon of a value. A possible key becomes a key. -/
def takeValue? (s : Scan) : Option Scan :=
  let k := s.topKey
  if k.possible then
    let s := (s.insertAt k.number .key).openBlock k.column k.number .blockMapping
    let s := s.setKey { k with possible := false }
    some { s.push .value with keyAllowed := false, cur := s.cur.skip 1 }
  else if s.flow = 0 ∧ ¬ s.keyAllowed then none
  else
    let s := s.openBlock s.cur.column s.tokens.size .blockMapping
    some { s.push .value with keyAllowed := s.flow == 0, cur := s.cur.skip 1 }

/-- Takes a token that may be a key. -/
def takeNode? (s : Scan) (t : Token) (cur : Cursor) (keyAfter : Bool) : Option Scan := do
  let s ← s.saveKey?
  pure { s.push t with keyAllowed := keyAfter, cur }

/-- Takes a token that closes all blocks. -/
def takeTop? (s : Scan) (t : Token) (cur : Cursor) : Option Scan := do
  let s ← (s.closeBlocks (-1)).dropKey?
  pure { s.push t with keyAllowed := false, cur }

/-- Takes the next token, which starts at the character `c`. -/
def take? (s : Scan) (c : Char) : Option Scan :=
  let cur := s.cur
  let flow := s.flow != 0
  if cur.column = 0 ∧ c = '%' then do
    let (t, cur) ← readDirective? cur
    s.takeTop? t cur
  else if cur.atDocumentMark then
    s.takeTop? (if c = '-' then .documentStart else .documentEnd) (cur.skip 3)
  else if c = '[' then s.openFlow? .flowSequence
  else if c = '\x7b' then s.openFlow? .flowMapping
  else if c = ']' then s.closeFlow? .flowSequenceEnd
  else if c = '\x7d' then s.closeFlow? .flowMappingEnd
  else if c = ',' then do
    let s ← s.dropKey?
    pure { s.push .flowEntry with keyAllowed := true, cur := cur.skip 1 }
  else if c = '-' ∧ cur.blankAhead 1 then s.takeIndicator? .blockSequence .blockEntry true
  else if c = '?' ∧ (flow ∨ cur.blankAhead 1) then s.takeIndicator? .blockMapping .key (!flow)
  else if c = ':' ∧ (flow ∨ cur.blankAhead 1) then s.takeValue?
  else if c = '*' then do
    let (name, cur) ← readAnchor? cur
    s.takeNode? (.alias name) cur false
  else if c = '&' then do
    let (name, cur) ← readAnchor? cur
    s.takeNode? (.anchor name) cur false
  else if c = '!' then do
    let (t, cur) ← readTag? flow cur
    s.takeNode? t cur false
  else if (c = '|' ∨ c = '>') ∧ ¬ flow then do
    let s ← s.dropKey?
    let (text, cur) ← readBlock? (c == '>') s.indent (cur.skip 1)
    pure { s.push (.scalar false (String.ofList text)) with keyAllowed := true, cur }
  else if c = '\x27' ∨ c = '\x22' then do
    let (text, cur) ← readQuoted? (c == '\x27') (cur.rest.length + 1) [] (cur.skip 1)
    s.takeNode? (.scalar false (String.ofList text)) cur false
  else if startsPlain flow cur then do
    let (text, broken, cur) ←
      readPlain? flow (s.indent + 1) (cur.rest.length + 1) [] .empty cur
    s.takeNode? (.scalar true (String.ofList text)) cur broken
  else none

/-- Takes all tokens of a text; `fuel` bounds their number. -/
def run? : Nat → Scan → Option (Array Token)
  | 0, _ => none
  | fuel + 1, s => do
    let s ← (toNext (s.cur.rest.length + 1) s).dropStale?
    let s := s.closeBlocks s.cur.column
    match s.cur.peek? with
    | none =>
      let s ← (s.closeBlocks (-1)).dropKey?
      pure s.tokens
    | some c =>
      let s ← s.take? c
      run? fuel s

end Scan

/-- The tokens of a text. A byte order mark in front is dropped. -/
def tokens? (text : String) : Option (List Token) :=
  let cs := match text.toList with
    | c :: rest => if c.toNat = 0xfeff then rest else c :: rest
    | [] => []
  if cs.all isAllowed then
    let start : Scan := ⟨⟨cs, 0, 0, 0⟩, #[], 0, -1, [], true, [.none]⟩
    (start.run? (cs.length + 2)).map Array.toList
  else none

end Yaml

end OpenApi
