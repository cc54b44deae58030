import OpenApi.Text.Percent

/-!
# URI Values

An absolute URI in its parts, as the registry keeps and compares it, and its
text.

The parts are stored the way they are written: percent-encoded where their
place demands it, the scheme and a host name in lower case, without a default
port. So two URIs are the same exactly when their parts are equal.

A URI without an authority may have a path that is no sequence of segments,
such as the address of a `mailto:` URI. Such a URI is no base for relative
references. Its path loses its trailing blanks when no query and no fragment
follow it, since they would be lost on reading the text again.

## Main definitions

* `Uri`: Scheme, authority, path, query and fragment.
* `Uri.text`: The URI as it is written.
* `Uri.withFragment`, `Uri.document`: The URI with another fragment, or with none.
* `Uri.decodedFragment`: What the fragment stands for.
-/

namespace OpenApi

/-- Who is asked: an optional user, a host and an optional port. -/
structure Authority where
  /-- The user name; empty when there is none. -/
  user : String
  /-- The password, never empty. -/
  password : Option String
  /-- The host as it is written; empty when there is none. -/
  host : String
  /-- The port, unless it is the default one of the scheme. -/
  port : Option Nat
deriving DecidableEq, Repr

/-- An authority that is a host alone. -/
def Authority.ofHost (host : String) : Authority := ⟨"", none, host, none⟩

/-- What is asked for. -/
inductive UriPath where
  /-- A path that is no sequence of segments. -/
  | rootless (text : String)
  /-- A sequence of segments, each with a slash in front of it. -/
  | segments (list : List String)
deriving DecidableEq, Repr

/-- An absolute URI. -/
structure Uri where
  /-- The scheme, in lower case. -/
  scheme : String
  /-- The authority, if two slashes introduce one. -/
  authority : Option Authority
  /-- The path. -/
  path : UriPath
  /-- The query, if a question mark introduces one. -/
  query : Option String
  /-- The fragment, if a hash sign introduces one. -/
  fragment : Option String
deriving DecidableEq, Repr

/-- Control characters are encoded everywhere in a URI. -/
def Percent.control (c : Char) : Bool := c.toNat < 0x20 || c.toNat == 0x7f

/-- The characters that are encoded in a fragment. -/
def Percent.fragmentSet (c : Char) : Bool :=
  control c || c == ' ' || c == '\x22' || c == '<' || c == '>' || c == '\x60'

/-- The characters that are encoded in the segments of a path. -/
def Percent.pathSet (c : Char) : Bool :=
  fragmentSet c || c == '\x23' || c == '?' || c == '\x7b' || c == '\x7d'

/-- The characters that are encoded in a user name or a password. -/
def Percent.userSet (c : Char) : Bool :=
  pathSet c || c == '/' || c == ':' || c == ';' || c == '=' || c == '@' || c == '['
    || c == '\x5c' || c == ']' || c == '^' || c == '|'

/-- The characters that are encoded in a query. -/
def Percent.querySet (c : Char) : Bool :=
  control c || c == ' ' || c == '\x22' || c == '\x23' || c == '<' || c == '>'

/-- The characters that are encoded in a query of a special scheme. -/
def Percent.specialQuerySet (c : Char) : Bool := querySet c || c == '\x27'

namespace Uri

/-- The port a special scheme uses when none is written. -/
def defaultPort? (scheme : String) : Option Nat :=
  if scheme = "http" ∨ scheme = "ws" then some 80
  else if scheme = "https" ∨ scheme = "wss" then some 443
  else if scheme = "ftp" then some 21
  else none

/-- Whether a scheme always has a host and treats backslashes as slashes. -/
def isSpecial (scheme : String) : Bool :=
  (defaultPort? scheme).isSome || scheme == "file"

/-- A user name and password as they stand before a host. -/
def userText (a : Authority) : String :=
  match a.password with
  | some password => a.user ++ ":" ++ password ++ "@"
  | none => if a.user = "" then "" else a.user ++ "@"

/-- An authority with the two slashes in front of it. -/
def authorityText (a : Authority) : String :=
  "//" ++ userText a ++ a.host ++
    (match a.port with
      | some port => ":" ++ toString port
      | none => "")

/-- A sequence of segments as it is written. -/
def segmentsText (list : List String) : String :=
  list.foldl (fun text segment => text ++ "/" ++ segment) ""

/-- A path as it is written. -/
def pathText : UriPath → String
  | .rootless text => text
  | .segments list => segmentsText list

/-- What stands between the scheme and the path. Without an authority, a path
    whose first segment is empty is set off by a dot segment, so that its two
    slashes do not introduce an authority. -/
def frontText (u : Uri) : String :=
  match u.authority, u.path with
  | some a, _ => authorityText a
  | none, .segments ("" :: _ :: _) => "/."
  | none, _ => ""

/-- The URI without its fragment, as it is written. -/
def documentText (u : Uri) : String :=
  u.scheme ++ ":" ++ u.frontText ++ pathText u.path ++
    (match u.query with
      | some query => "?" ++ query
      | none => "")

/-- The URI as it is written. -/
def text (u : Uri) : String :=
  match u.fragment with
  | some fragment => u.documentText ++ "\x23" ++ fragment
  | none => u.documentText

/-- Whether a character is dropped wherever it stands in a URI. -/
def isLineOrTab (c : Char) : Bool := c == '\t' || c == '\n' || c == '\r'

/-- A text as it stands in a fragment. Tabs and line ends are dropped. -/
def encodeFragment (fragment : String) : String :=
  String.ofList
    (Percent.encode Percent.fragmentSet (fragment.toList.filter fun c => !isLineOrTab c))

/-- The URI with the fragment that `fragment` is written as. -/
def withFragment (u : Uri) (fragment : String) : Uri :=
  { u with fragment := some (encodeFragment fragment) }

/-- A path without the blanks at its end, if it is no sequence of segments. -/
def stripPath : UriPath → UriPath
  | .rootless text =>
    .rootless (String.ofList ((text.toList.reverse.dropWhile (· == ' ')).reverse))
  | path => path

/-- The URI without its fragment: the document it addresses or lies in. -/
def document (u : Uri) : Uri :=
  { u with fragment := none, path := if u.query.isSome then u.path else stripPath u.path }

/-- What the fragment stands for; empty when there is none. -/
def decodedFragment (u : Uri) : String :=
  match u.fragment with
  | some fragment => String.ofList (Percent.decode fragment.toList)
  | none => ""

/-- Whether a relative reference can be resolved against the URI. -/
def isHierarchical (u : Uri) : Bool :=
  match u.path with
  | .rootless _ => false
  | .segments _ => true

/-- The segments of the path; none when it is no sequence of segments. -/
def pathSegments (u : Uri) : List String :=
  match u.path with
  | .rootless _ => []
  | .segments list => list

end Uri

end OpenApi
