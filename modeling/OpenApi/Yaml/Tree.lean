import OpenApi.Yaml.Token

/-!
# YAML Trees

What a list of tokens describes: scalars, sequences and mappings, each perhaps
with a name and a tag, and references to named nodes. Names and references are
kept as they are written; scalars are not yet given a meaning.

A text holds one document. It may be opened by three hyphens, after directives
that declare tag handles, and it may be closed by three points, after which
nothing may follow.

A node that has a name or a tag but no content is an empty plain scalar, and so
is a missing key, value or entry. A sequence that is the value of a block
mapping needs no indentation of its own; it ends where no further hyphen
follows.

## Main definitions

* `Yaml.Tree`: A node with everything below it.
* `Yaml.Handles`: What tag handles stand for.
* `Yaml.readDocument?`: The tree of the only document of a list of tokens.
-/

namespace OpenApi

namespace Yaml

/-- A node of a YAML document with everything below it, nodes being named by
    values of type `α`. -/
inductive Tree (α : Type) where
  /-- A reference to the node of that name. -/
  | alias (name : α)
  /-- A scalar, written plainly or in another style. -/
  | scalar (anchor : Option α) (tag : Option String) (plain : Bool) (text : String)
  /-- A sequence. -/
  | sequence (anchor : Option α) (tag : Option String) (items : List (Tree α))
  /-- A mapping, its keys not necessarily distinct. -/
  | mapping (anchor : Option α) (tag : Option String) (entries : List (Tree α × Tree α))
deriving Repr

/-- Where content is missing. -/
def Tree.empty {α : Type} : Tree α := .scalar none none true ""

/-- What tag handles stand for; of two entries the first one counts. -/
abbrev Handles := List (String × String)

/-- The handles that need no declaration. -/
def defaultHandles : Handles := [("!", "!"), ("!!", "tag:yaml.org,2002:")]

/-- The tag that a handle and a suffix make. A handle that is not declared
    makes none; without a handle the suffix is the tag. -/
def fullTag? (handles : Handles) (handle suffix : String) : Option String :=
  if handle.isEmpty then some suffix
  else (handles.lookup handle).map fun replacement => replacement ++ suffix

/-- What stands in front of the content of a node. -/
structure Properties where
  /-- The name. -/
  anchor : Option String
  /-- The tag. -/
  tag : Option String

/-- Reads the properties of a node, in either order. -/
def readProperties? (handles : Handles) : List Token → Option (Properties × List Token)
  | .anchor name :: .tag handle suffix :: rest
  | .tag handle suffix :: .anchor name :: rest => do
    let tag ← fullTag? handles handle suffix
    pure (⟨some name, some tag⟩, rest)
  | .anchor name :: rest => some (⟨some name, none⟩, rest)
  | .tag handle suffix :: rest => do
    let tag ← fullTag? handles handle suffix
    pure (⟨none, some tag⟩, rest)
  | rest => some (⟨none, none⟩, rest)

/-- Whether the next token is one of some tokens. -/
def startsWithAny (tokens stops : List Token) : Bool :=
  match tokens with
  | [] => false
  | t :: _ => stops.contains t

/-- Reads the comma in front of an entry that is not the first one. -/
def readSeparator? (first : Bool) (tokens : List Token) : Option (List Token) :=
  if first then some tokens
  else match tokens with
    | .flowEntry :: rest => some rest
    | _ => none

mutual

/-- Reads a node. Block content is read where `block` holds, and a sequence
    without indentation of its own where `indentless` holds. The number bounds
    the depth of the recursion, here and in what follows. -/
def readNode? (handles : Handles) (block indentless : Bool) :
    Nat → List Token → Option (Tree String × List Token)
  | 0, _ => none
  | _ + 1, .alias name :: rest => some (.alias name, rest)
  | fuel + 1, tokens => do
    let (⟨anchor, tag⟩, tokens) ← readProperties? handles tokens
    if indentless && startsWithAny tokens [.blockEntry] then
      let (items, rest) ← readIndentless? handles fuel tokens
      pure (.sequence anchor tag items, rest)
    else match tokens, block with
      | .scalar plain text :: rest, _ =>
        let tag := if tag = some "!" then none else tag
        pure (.scalar anchor tag plain text, rest)
      | .flowSequence :: rest, _ =>
        let (items, rest) ← readFlowItems? handles true fuel rest
        pure (.sequence anchor tag items, rest)
      | .flowMapping :: rest, _ =>
        let (entries, rest) ← readFlowEntries? handles true fuel rest
        pure (.mapping anchor tag entries, rest)
      | .blockSequence :: rest, true =>
        let (items, rest) ← readBlockItems? handles fuel rest
        pure (.sequence anchor tag items, rest)
      | .blockMapping :: rest, true =>
        let (entries, rest) ← readBlockEntries? handles fuel rest
        pure (.mapping anchor tag entries, rest)
      | _, _ =>
        if anchor.isSome ∨ tag.isSome then pure (.scalar anchor tag true "", tokens) else none

/-- Reads a node, or nothing in front of one of some tokens. -/
def readOptional? (handles : Handles) (block indentless : Bool) (stops : List Token) :
    Nat → List Token → Option (Tree String × List Token)
  | 0, _ => none
  | fuel + 1, tokens =>
    if startsWithAny tokens stops then some (.empty, tokens)
    else readNode? handles block indentless fuel tokens

/-- Reads the entries of a block sequence up to its end. -/
def readBlockItems? (handles : Handles) : Nat → List Token → Option (List (Tree String) × List Token)
  | 0, _ => none
  | fuel + 1, .blockEntry :: rest => do
    let (item, rest) ← readOptional? handles true false [.blockEntry, .blockEnd] fuel rest
    let (items, rest) ← readBlockItems? handles fuel rest
    pure (item :: items, rest)
  | _ + 1, .blockEnd :: rest => some ([], rest)
  | _ + 1, _ => none

/-- Reads the entries of a sequence without indentation of its own. -/
def readIndentless? (handles : Handles) : Nat → List Token → Option (List (Tree String) × List Token)
  | 0, _ => none
  | fuel + 1, .blockEntry :: rest => do
    let (item, rest) ←
      readOptional? handles true false [.blockEntry, .key, .value, .blockEnd] fuel rest
    let (items, rest) ← readIndentless? handles fuel rest
    pure (item :: items, rest)
  | _ + 1, rest => some ([], rest)

/-- Reads the entries of a block mapping up to its end. -/
def readBlockEntries? (handles : Handles) :
    Nat → List Token → Option (List (Tree String × Tree String) × List Token)
  | 0, _ => none
  | fuel + 1, .key :: rest => do
    let (key, rest) ← readOptional? handles true true [.key, .value, .blockEnd] fuel rest
    let (value, rest) ← match rest with
      | .value :: rest => readOptional? handles true true [.key, .value, .blockEnd] fuel rest
      | rest => pure (.empty, rest)
    let (entries, rest) ← readBlockEntries? handles fuel rest
    pure ((key, value) :: entries, rest)
  | _ + 1, .blockEnd :: rest => some ([], rest)
  | _ + 1, _ => none

/-- Reads the entries in brackets up to the closing one. An entry that starts
    with a key is a mapping of that key alone. A key left out takes the token
    after it along. -/
def readFlowItems? (handles : Handles) (first : Bool) :
    Nat → List Token → Option (List (Tree String) × List Token)
  | 0, _ => none
  | _ + 1, .flowSequenceEnd :: rest => some ([], rest)
  | fuel + 1, tokens => do
    match ← readSeparator? first tokens with
    | .flowSequenceEnd :: rest => pure ([], rest)
    | .key :: rest =>
      let (key, rest) ←
        if startsWithAny rest [.value, .flowEntry, .flowSequenceEnd] then pure (.empty, rest.drop 1)
        else readNode? handles false false fuel rest
      let (value, rest) ← match rest with
        | .value :: rest =>
          readOptional? handles false false [.flowEntry, .flowSequenceEnd] fuel rest
        | rest => pure (.empty, rest)
      let (items, rest) ← readFlowItems? handles false fuel rest
      pure (.mapping none none [(key, value)] :: items, rest)
    | rest =>
      let (item, rest) ← readNode? handles false false fuel rest
      let (items, rest) ← readFlowItems? handles false fuel rest
      pure (item :: items, rest)

/-- Reads the entries in braces up to the closing one. An entry without a key
    token is a key without a value. -/
def readFlowEntries? (handles : Handles) (first : Bool) :
    Nat → List Token → Option (List (Tree String × Tree String) × List Token)
  | 0, _ => none
  | _ + 1, .flowMappingEnd :: rest => some ([], rest)
  | fuel + 1, tokens => do
    match ← readSeparator? first tokens with
    | .flowMappingEnd :: rest => pure ([], rest)
    | .key :: rest =>
      let (key, rest) ←
        readOptional? handles false false [.value, .flowEntry, .flowMappingEnd] fuel rest
      let (value, rest) ← match rest with
        | .value :: rest =>
          readOptional? handles false false [.flowEntry, .flowMappingEnd] fuel rest
        | rest => pure (.empty, rest)
      let (entries, rest) ← readFlowEntries? handles false fuel rest
      pure ((key, value) :: entries, rest)
    | rest =>
      let (key, rest) ← readNode? handles false false fuel rest
      let (entries, rest) ← readFlowEntries? handles false fuel rest
      pure ((key, .empty) :: entries, rest)

end

/-- Reads the directives in front of a document. The version may be declared
    once, as 1.1 or 1.2, and every handle once. -/
def readDirectives? (versioned : Bool) (handles : Handles) :
    List Token → Option (Handles × List Token)
  | .version major minor :: rest =>
    if versioned ∨ major ≠ 1 ∨ (minor ≠ 1 ∧ minor ≠ 2) then none
    else readDirectives? true handles rest
  | .tagHandle handle replacement :: rest =>
    if (handles.lookup handle).isSome then none
    else readDirectives? versioned (handles ++ [(handle, replacement)]) rest
  | rest => some (handles, rest)

/-- Whether a token stands outside of all content. -/
def Token.isOutside : Token → Bool
  | .version _ _ | .tagHandle _ _ | .documentStart | .documentEnd => true
  | _ => false

/-- Reads the content of the document up to its end. Nothing but points that
    close the document may follow. -/
def readContent? (handles : Handles) (tokens : List Token) : Option (Tree String) := do
  let (tree, rest) ← readNode? handles true false (4 * tokens.length + 4) tokens
  if rest.all (· == .documentEnd) then pure tree else none

/-- The tree of the only document, or the empty scalar without a document. -/
def readDocument? (tokens : List Token) : Option (Tree String) := do
  match tokens with
  | [] => pure .empty
  | t :: _ =>
    if t.isOutside ∧ t ≠ .documentEnd then
      let (handles, rest) ← readDirectives? false [] tokens
      match rest with
      | .documentStart :: content =>
        let isEmpty := match content with
          | [] => true
          | c :: _ => c.isOutside
        if isEmpty then
          (if content.all (· == .documentEnd) then pure .empty else none)
        else readContent? (handles ++ defaultHandles) content
      | _ => none
    else readContent? defaultHandles tokens

end Yaml

end OpenApi
