import OpenApi.Uri.Host

/-!
# Reading URIs

Reads a text as an absolute URI, or as a reference relative to a base. Reading
is lenient the way browsers are: blanks and control characters around the text
and tabs and line ends inside it are dropped, and in the special schemes
backslashes are slashes and missing slashes are made up for.

The text falls into its parts from the outside in. The first hash sign starts
the fragment and the first question mark before it the query, whatever stands
in front of them; only what is left is read as scheme, authority and path. Dot
segments are resolved while the segments of a path are taken up.

Under the scheme `file`, a segment that is a drive letter stays at the head of
the path, and empty segments before the first other one are dropped.

## Main definitions

* `Uri.read?`: The absolute URI a text is.
* `Uri.readWith?`: The URI a text stands for, given a base.
* `Uri.resolve?`: An absolute URI as it is, anything else relative to the base.
-/

namespace OpenApi

namespace Uri

/-- The text without what surrounds it and without tabs and line ends. -/
def clean (cs : List Char) : List Char :=
  let strip := fun c : Char => c.toNat ≤ 0x20
  (((cs.dropWhile strip).reverse.dropWhile strip).reverse).filter fun c => !isLineOrTab c

/-- What stands before the first `mark`, and what stands after it, if there is one. -/
def splitMark (mark : Char) (cs : List Char) : List Char × Option (List Char) :=
  let front := cs.takeWhile (· != mark)
  match cs.dropWhile (· != mark) with
  | [] => (front, none)
  | _ :: rest => (front, some rest)

/-- Whether a character may stand in a scheme after its first letter. -/
def isSchemeChar (c : Char) : Bool := c.isAlphanum || c == '+' || c == '-' || c == '.'

/-- The scheme a text starts with, in lower case, and what follows the colon. -/
def splitScheme? (cs : List Char) : Option (String × List Char) :=
  match cs with
  | [] => none
  | first :: _ =>
    if first.isAlpha then
      match cs.dropWhile isSchemeChar with
      | ':' :: rest => some (String.ofList ((cs.takeWhile isSchemeChar).map Char.toLower), rest)
      | _ => none
    else none

/-- Whether a character is a slash of either direction. -/
def isSlash (c : Char) : Bool := c == '/' || c == '\x5c'

/-- Whether a character ends a segment. -/
def endsSegment (special : Bool) (c : Char) : Bool := c == '/' || (special && c == '\x5c')

/-- Whether a segment is a drive letter: a letter and a colon or a bar. -/
def isDrive : List Char → Bool
  | [letter, mark] => letter.isAlpha && (mark == ':' || mark == '|')
  | _ => false

/-- Whether a segment is a drive letter with a colon. -/
def isPlainDrive : List Char → Bool
  | [letter, mark] => letter.isAlpha && mark == ':'
  | _ => false

/-- Whether the first segment of a text is a drive letter. -/
def startsWithDrive (cs : List Char) : Bool := isDrive (cs.takeWhile fun c => !isSlash c)

/-- A segment in lower case with its encoded points decoded. -/
def plainDots : List Char → List Char
  | [] => []
  | c :: rest =>
    match c, rest with
    | '%', '2' :: 'e' :: rest₁ => '.' :: plainDots rest₁
    | '%', '2' :: 'E' :: rest₁ => '.' :: plainDots rest₁
    | c, rest => c :: plainDots rest

/-- Whether a segment stays where it is. -/
def isSingleDot (segment : List Char) : Bool := plainDots segment == ['.']

/-- Whether a segment goes one up. -/
def isDoubleDot (segment : List Char) : Bool := plainDots segment == ['.', '.']

/-- The segments without the last one; a drive letter alone stays. -/
def shorten (file : Bool) (list : List String) : List String :=
  match list with
  | [only] => if file && isPlainDrive only.toList then [only] else []
  | list => list.dropLast

/-- Takes up one segment. A dot segment at the end leaves an empty segment
    behind. -/
def takeSegment (file : Bool) (list : List String) (segment : List Char) (last : Bool) :
    List String :=
  if isDoubleDot segment then
    let shorter := shorten file list
    if last then shorter ++ [""] else shorter
  else if isSingleDot segment then
    if last then list ++ [""] else list
  else if file && list.all (· == "") && isDrive segment then
    list ++ [String.ofList (segment.take 1 ++ [':'])]
  else list ++ [String.ofList (Percent.encode Percent.pathSet segment)]

/-- Takes up all segments in order. -/
def takeSegments (file : Bool) : List String → List (List Char) → List String
  | list, [] => list
  | list, [segment] => takeSegment file list segment true
  | list, segment :: rest => takeSegments file (takeSegment file list segment false) rest

/-- Takes up the segments of a text whose leading slash is gone. -/
def takePath (special file : Bool) (list : List String) (cs : List Char) : List String :=
  let taken := takeSegments file list (Text.splitBy (endsSegment special) cs)
  if file then
    match taken.dropWhile (· == "") with
    | [] => [""]
    | rest => rest
  else taken

/-- Splits user name and password off before the last at sign; the flag says
    whether there was an at sign. -/
def splitUser (cs : List Char) : Option (List Char) × List Char :=
  let backwards := cs.reverse
  match backwards.dropWhile (· != '@') with
  | [] => (none, cs)
  | _ :: user => (some user.reverse, (backwards.takeWhile (· != '@')).reverse)

/-- The host at the front of a text and the rest from the colon before a port.
    Colons inside brackets belong to the host. -/
def splitHost : Bool → List Char → List Char × List Char
  | _, [] => ([], [])
  | bracketed, c :: rest =>
    if c == ':' && !bracketed then ([], c :: rest)
    else
      let inside := if c == '[' then true else if c == ']' then false else bracketed
      let (host, after) := splitHost inside rest
      (c :: host, after)

/-- The port after the host: none when nothing or the default is written. The
    rest is what a backslash after the port starts. -/
def readPort? (scheme : String) (cs : List Char) : Option (Option Nat × List Char) :=
  match cs with
  | [] => some (none, [])
  | _ :: rest =>
    let digits := rest.takeWhile Char.isDigit
    let after := rest.dropWhile Char.isDigit
    let port := digits.foldl (fun n c => 10 * n + (c.toNat - '0'.toNat)) 0
    let ended : Bool := match after with
      | [] => true
      | c :: _ => c == '\x5c'
    if ¬ ended ∨ 65535 < port then none
    else if digits.isEmpty ∨ defaultPort? scheme = some port then some (none, after)
    else some (some port, after)

/-- The user name and password before an at sign, each encoded. -/
def readUser (cs : List Char) : String × Option String :=
  let encoded := fun part => String.ofList (Percent.encode Percent.userSet part)
  match splitMark ':' cs with
  | (user, none) => (encoded user, none)
  | (user, some []) => (encoded user, none)
  | (user, some password) => (encoded user, some (encoded password))

/-- Reads the authority after two slashes, and what follows it. `more` says
    whether a query or a fragment follows. -/
def readAuthority? (scheme : String) (more : Bool) (cs : List Char) :
    Option (Authority × List Char) := do
  let special := isSpecial scheme
  let front := cs.takeWhile fun c => !endsSegment special c
  let rest := cs.dropWhile fun c => !endsSegment special c
  let (userPart, hostPart) := splitUser front
  let (user, password) := readUser (userPart.getD [])
  if userPart = some [] ∧ hostPart.isEmpty ∧ (¬ rest.isEmpty ∨ more) then none
  else
    let (hostText, portText) := splitHost false hostPart
    if hostText.isEmpty ∧ (special ∨ ¬ portText.isEmpty ∨ user ≠ "" ∨ password.isSome) then none
    else
      let host ← if special then Host.read? hostText else Host.readVerbatim? hostText
      let (port, after) ← readPort? scheme portText
      pure (⟨user, password, host, port⟩, after ++ rest)

/-- The path after an authority. A special scheme has at least one segment. -/
def pathAfterAuthority (special : Bool) (cs : List Char) : UriPath :=
  match cs with
  | [] => .segments (if special then [""] else [])
  | c :: rest =>
    .segments (takePath special false [] (if endsSegment special c then rest else c :: rest))

/-- A URI up to its path whose authority follows two slashes. -/
def readAfterSlashes? (scheme : String) (more : Bool) (cs : List Char) : Option Uri := do
  let (authority, rest) ← readAuthority? scheme more cs
  pure ⟨scheme, some authority, pathAfterAuthority (isSpecial scheme) rest, none, none⟩

/-- The host after the two slashes of a file URI, and what follows it. A drive
    letter is no host, and the local host is none. -/
def readFileHost? (cs : List Char) : Option (String × List Char) :=
  let front := cs.takeWhile fun c => !isSlash c
  let rest := cs.dropWhile fun c => !isSlash c
  if isDrive front then some ("", cs)
  else if front.isEmpty then some ("", rest)
  else do
    let host ← Host.read? front
    pure (if host = "localhost" then "" else host, rest)

/-- The URI of scheme `file` with a host and a path. -/
def fileUri (host : String) (list : List String) : Uri :=
  ⟨"file", some (.ofHost host), .segments list, none, none⟩

/-- A text without its first character, if that is a slash. -/
def dropSlash : List Char → List Char
  | [] => []
  | c :: rest => if isSlash c then rest else c :: rest

/-- A URI of scheme `file` up to its path. -/
def readFile? (base : Option Uri) (cs : List Char) : Option Uri :=
  match cs with
  | [] =>
    match base with
    | some b => some { b with fragment := none }
    | none => some (fileUri "" [""])
  | first :: rest =>
    if isSlash first then
      match rest with
      | second :: after =>
        if isSlash second then do
          let (host, tail) ← readFileHost? after
          let list := takePath true true [] (dropSlash tail)
          let drive := list.head?.map fun s => isPlainDrive s.toList
          pure (fileUri (if drive = some true then "" else host) list)
        else some (rooted rest)
      | [] => some (rooted rest)
    else
      match base with
      | none => some (fileUri "" (takePath true true [] cs))
      | some b =>
        if startsWithDrive cs then some (fileUri "" (takePath true true [] cs))
        else
          let list := takePath true true (shorten true b.pathSegments) cs
          some { b with path := .segments list, query := none, fragment := none }
where
  /-- A path from the root, on the drive or the host of the base. -/
  rooted (rest : List Char) : Uri :=
    match base with
    | some b =>
      if startsWithDrive rest then fileUri "" (takePath true true [] rest)
      else
        match b.pathSegments.head? with
        | some head =>
          if isPlainDrive head.toList then fileUri "" (takePath true true [head] rest)
          else fileUri (b.authority.elim "" (·.host)) (takePath true true [] rest)
        | none => fileUri (b.authority.elim "" (·.host)) (takePath true true [] rest)
    | none => fileUri "" (takePath true true [] rest)

/-- A reference relative to a hierarchical base, up to its path. The query of
    the base is kept only when the reference is empty up to its query. -/
def readRelative? (base : Uri) (more : Bool) (cs : List Char) : Option Uri :=
  let special := isSpecial base.scheme
  match cs with
  | [] => some { base with fragment := none }
  | first :: rest =>
    if isSlash first then
      match rest with
      | second :: after =>
        if isSlash second then
          if first == '/' && second == '/' then readAfterSlashes? base.scheme more after
          else readAfterSlashes? base.scheme more (cs.dropWhile isSlash)
        else some (atPath (takePath special false [] rest))
      | [] => some (atPath (takePath special false [] rest))
    else some (atPath (takePath special false base.pathSegments.dropLast cs))
where
  /-- The base with another path and no query. -/
  atPath (list : List String) : Uri :=
    { base with path := .segments list, query := none, fragment := none }

/-- A URI with a scheme of its own, up to its path. -/
def readAbsolute? (base : Option Uri) (scheme : String) (more : Bool) (cs : List Char) :
    Option Uri :=
  if scheme = "file" then readFile? (base.filter fun b => b.scheme == "file") cs
  else if isSpecial scheme then
    let slashes := (cs.takeWhile isSlash).length
    match base with
    | some b =>
      if slashes < 2 ∧ b.scheme = scheme then readRelative? b more cs
      else readAfterSlashes? scheme more (cs.dropWhile isSlash)
    | none => readAfterSlashes? scheme more (cs.dropWhile isSlash)
  else
    match cs with
    | '/' :: '/' :: rest => readAfterSlashes? scheme more rest
    | '/' :: rest => some ⟨scheme, none, .segments (takePath false false [] rest), none, none⟩
    | rest =>
      some ⟨scheme, none, .rootless (String.ofList (Percent.encode Percent.control rest)), none, none⟩

/-- A reference without a scheme, up to its path. A base that is not
    hierarchical admits a fragment alone. -/
def readReference? (base : Uri) (query fragment : Bool) (cs : List Char) : Option Uri :=
  if cs.isEmpty ∧ ¬ query ∧ fragment then some { base with fragment := none }
  else if ¬ base.isHierarchical then none
  else if base.scheme = "file" then readFile? (some base) cs
  else readRelative? base (query || fragment) cs

/-- A query as it is written under a scheme. -/
def encodeQuery (scheme : String) (cs : List Char) : String :=
  let special := if isSpecial scheme then Percent.specialQuerySet else Percent.querySet
  String.ofList (Percent.encode special cs)

/-- The URI a text stands for, given a base for references. -/
def readWith? (base : Option Uri) (reference : String) : Option Uri := do
  let (body, fragment) := splitMark '\x23' (clean reference.toList)
  let (front, query) := splitMark '?' body
  let u ← match splitScheme? front with
    | some (scheme, rest) => readAbsolute? base scheme (query.isSome || fragment.isSome) rest
    | none => base.bind fun b => readReference? b query.isSome fragment.isSome front
  let query := match query with
    | some cs => some (encodeQuery u.scheme cs)
    | none => u.query
  pure { u with query, fragment := fragment.map fun cs => encodeFragment (String.ofList cs) }

/-- The absolute URI a text is. -/
def read? (reference : String) : Option Uri := readWith? none reference

/-- The URI a reference stands for: itself when it is absolute, else relative
    to `base`. -/
def resolve? (base : Uri) (reference : String) : Option Uri :=
  (read? reference).orElse fun _ => readWith? (some base) reference

end Uri

end OpenApi
