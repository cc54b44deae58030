import OpenApi.Yaml.Scalar
import OpenApi.Yaml.Tree

/-!
# YAML Values

The JSON value a YAML text stands for. Mappings become objects and must have
scalars as keys, which are taken as they are written; of a repeated key the
last value counts, in the place of the first. References are replaced by what
the node they lead to stands for.

Names are numbered as the nodes appear. A name stands for the number of
different names that were given before it, and one that is given again stands
for its new number from there on. A reference takes the number that its name
stands for at that place, and leads to the last node of the document with that
number. A name that was never given makes the text unreadable.

References can make a small text stand for a large value, or for an endless
one. So at most 128 sequences and mappings may be inside each other, and at
most a hundred references may be followed for every event of the text: a
scalar, a reference, or the start or end of a sequence or mapping.

## Main definitions

* `Yaml.Tree.number?`: Names and references by numbers.
* `Yaml.Tree.value?`: The value of a tree.
* `Yaml.read?`: The value of a text.
-/

namespace OpenApi

namespace Yaml

namespace Tree

/-- The number of a node with a name, and the names after it. -/
def numberAnchor (names : Ordered Nat) : Option String → Option Nat × Ordered Nat
  | none => (none, names)
  | some name => (some names.length, Ordered.insert names name names.length)

mutual

/-- A tree with numbers for its names, and the names after it. -/
def number? (names : Ordered Nat) : Tree String → Option (Tree Nat × Ordered Nat)
  | .alias name => (Ordered.get? names name).map fun n => (.alias n, names)
  | .scalar anchor tag plain text =>
    let (anchor, names) := numberAnchor names anchor
    some (.scalar anchor tag plain text, names)
  | .sequence anchor tag items => do
    let (anchor, names) := numberAnchor names anchor
    let (items, names) ← numberItems? names items
    pure (.sequence anchor tag items, names)
  | .mapping anchor tag entries => do
    let (anchor, names) := numberAnchor names anchor
    let (entries, names) ← numberEntries? names entries
    pure (.mapping anchor tag entries, names)

/-- The items of a sequence with numbers for their names. -/
def numberItems? (names : Ordered Nat) :
    List (Tree String) → Option (List (Tree Nat) × Ordered Nat)
  | [] => some ([], names)
  | item :: rest => do
    let (item, names) ← number? names item
    let (rest, names) ← numberItems? names rest
    pure (item :: rest, names)

/-- The entries of a mapping with numbers for their names. -/
def numberEntries? (names : Ordered Nat) :
    List (Tree String × Tree String) → Option (List (Tree Nat × Tree Nat) × Ordered Nat)
  | [] => some ([], names)
  | (key, value) :: rest => do
    let (key, names) ← number? names key
    let (value, names) ← number? names value
    let (rest, names) ← numberEntries? names rest
    pure ((key, value) :: rest, names)

end

mutual

/-- The numbered nodes of a tree in the order of the text. -/
def numbered : Tree Nat → List (Nat × Tree Nat)
  | .alias _ => []
  | .scalar anchor tag plain text =>
    anchor.toList.map fun n => (n, .scalar anchor tag plain text)
  | .sequence anchor tag items =>
    (anchor.toList.map fun n => (n, .sequence anchor tag items)) ++ numberedItems items
  | .mapping anchor tag entries =>
    (anchor.toList.map fun n => (n, .mapping anchor tag entries)) ++ numberedEntries entries

/-- The numbered nodes of the items of a sequence. -/
def numberedItems : List (Tree Nat) → List (Nat × Tree Nat)
  | [] => []
  | item :: rest => numbered item ++ numberedItems rest

/-- The numbered nodes of the entries of a mapping. -/
def numberedEntries : List (Tree Nat × Tree Nat) → List (Nat × Tree Nat)
  | [] => []
  | (key, value) :: rest => numbered key ++ (numbered value ++ numberedEntries rest)

end

mutual

/-- How many events a tree has. -/
def events : Tree Nat → Nat
  | .alias _ => 1
  | .scalar _ _ _ _ => 1
  | .sequence _ _ items => eventsOfItems items + 2
  | .mapping _ _ entries => eventsOfEntries entries + 2

/-- How many events the items of a sequence have. -/
def eventsOfItems : List (Tree Nat) → Nat
  | [] => 0
  | item :: rest => events item + eventsOfItems rest

/-- How many events the entries of a mapping have. -/
def eventsOfEntries : List (Tree Nat × Tree Nat) → Nat
  | [] => 0
  | (key, value) :: rest => events key + events value + eventsOfEntries rest

end

/-- The node itself, or the one it refers to in `nodes`. The state is how many
    references may still be followed. -/
def target? (nodes : List (Nat × Tree Nat)) : Tree Nat → StateT Nat Option (Tree Nat)
  | .alias n => fun left =>
    match left, nodes.lookup n with
    | left + 1, some node => some (node, left)
    | _, _ => none
  | node => pure node

/-- The text of a key. -/
def keyText? (nodes : List (Nat × Tree Nat)) (key : Tree Nat) : StateT Nat Option String := do
  match ← target? nodes key with
  | .scalar _ _ _ text => pure text
  | _ => failure

/-- The value of a scalar. Nothing else has a value without going down. -/
def leafValue? : Tree Nat → StateT Nat Option Json
  | .scalar _ tag plain text =>
    match scalarValue? tag plain text with
    | some value => pure value
    | none => failure
  | _ => failure

/-- The value of a node whose references lead to `nodes`, with at most `depth`
    sequences and mappings inside each other. -/
def valueIn? (nodes : List (Nat × Tree Nat)) (depth : Nat) (node : Tree Nat) :
    StateT Nat Option Json := do
  let target ← target? nodes node
  match depth with
  | 0 => leafValue? target
  | depth + 1 =>
    match target with
    | .sequence _ tag items =>
      if isOwnTag tag then failure
      else
        let items ← items.mapM (valueIn? nodes depth)
        pure (.array items)
    | .mapping _ tag entries =>
      if isOwnTag tag then failure
      else
        let members ← entries.mapM fun (key, value) => do
          let key ← keyText? nodes key
          let value ← valueIn? nodes depth value
          pure (key, value)
        pure (.object (Ordered.ofEntries members))
    | leaf => leafValue? leaf

/-- How many sequences and mappings may be inside each other. -/
def maxDepth : Nat := 128

/-- The value of a document. -/
def value? (document : Tree String) : Option Json := do
  let (tree, _) ← number? [] document
  let (value, _) ← (valueIn? (numbered tree).reverse maxDepth tree).run (100 * events tree)
  pure value

end Tree

/-- The value of a text. -/
def read? (text : String) : Option Json := do
  let tokens ← tokens? text
  let document ← readDocument? tokens
  document.value?

end Yaml

end OpenApi
