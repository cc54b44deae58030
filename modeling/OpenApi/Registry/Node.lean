import OpenApi.Pointer
import OpenApi.Uri.Reader

/-!
# Schema Nodes

A place inside a registered document, with everything that is needed to go on
from there: the value at the place, the document and the pointer that address
it, and the base URI that relative references written there resolve against.

The base of a document is its own address. Every object on the way down that
carries an `$id` text changes the base to that text, resolved against the base
so far; an `$id` that does not resolve changes nothing.

A node may exclude one schema from the evaluation of its `allOf`. The exclusion
belongs to the node and not to the place: going down to a child drops it.

## Main definitions

* `Node`: A place in a document.
* `Node.scope`: The address of a node.
* `Node.child?`: The node below, by segments.
* `baseAt`: The base at a pointer of a document.
-/

namespace OpenApi

/-- A place inside a registered document. -/
structure Node where
  /-- The value at the place. -/
  value : Json
  /-- The address of the document. -/
  document : Uri
  /-- The place in the document. -/
  pointer : String
  /-- What relative references at the place resolve against. -/
  base : Uri
  /-- The address of the schema that `allOf` skips here, if any. -/
  exclusion : Option String
deriving Repr

/-- The base inside a value, given the base around it. -/
def rebase (base : Uri) (value : Json) : Uri :=
  match value.get? "$id" with
  | some (.string id) => (base.resolve? id).getD base
  | _ => base

/-- The base at the end of a path of segments, as far as the path leads. -/
def baseAlong (value : Json) (base : Uri) : List String → Uri
  | [] => base
  | segment :: rest =>
    match Pointer.step? value segment with
    | none => base
    | some next => baseAlong next (rebase base next) rest

/-- The base at a pointer of the document with address `document`. -/
def baseAt (root : Json) (document : Uri) (pointer : String) : Uri :=
  baseAlong root (rebase document root) (Pointer.segments pointer)

namespace Node

/-- A member of the value of the node, if that is an object. -/
def get? (n : Node) (key : String) : Option Json := n.value.get? key

/-- Whether the value of the node is an object with a member under `key`. -/
def has (n : Node) (key : String) : Bool := n.value.has key

/-- The address of the node: its document, and its pointer as the fragment. -/
def scopeUri (n : Node) : Uri := n.document.withFragment n.pointer

/-- The address of the node as a text. -/
def scope (n : Node) : String := n.scopeUri.text

/-- The node one segment below. -/
def step? (n : Node) (segment : String) : Option Node := do
  let value ← Pointer.step? n.value segment
  pure ⟨value, n.document, Pointer.push n.pointer segment, rebase n.base value, none⟩

/-- The node some segments below, without an exclusion. -/
def child? (n : Node) (segments : List String) : Option Node :=
  segments.foldlM step? { n with exclusion := none }

/-- The node with its `allOf` skipping the members that lead to `scope`. -/
def excluding (n : Node) (scope : String) : Node := { n with exclusion := some scope }

/-- The subschemas of a keyword that holds a list of them. -/
def branches (n : Node) (key : String) : List Node :=
  let count := ((n.get? key).bind Json.array?).elim 0 List.length
  (List.range count).filterMap fun i => n.child? [key, toString i]

end Node

end OpenApi
