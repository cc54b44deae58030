import OpenApi.Error
import OpenApi.Registry.Node
import OpenApi.Yaml.Value

/-!
# The Registry

The documents that schemas are looked up in, by address. Nothing is fetched: a
reference that leads to a document that was not registered leads nowhere.

A document answers to the address it was registered under and to pointers into
it. Registering it also records the `$id` and `$anchor` texts of its objects,
except inside the keywords that hold instance data, so that references can use
those instead. Of two objects that claim the same identifier the first one
recorded keeps it. An address whose document is registered is looked up there,
and only otherwise among the identifiers.

Following a reference may lead to a node that is itself a reference. A chain of
them is followed for a bounded number of hops; a longer one is taken for a
cycle.

## Main definitions

* `Registry`: Documents, identifiers and anchors.
* `Registry.register`, `Registry.registerYaml`: Adds a document.
* `Registry.node?`: The node at an address.
* `Registry.deref`: Follows references.
-/

namespace OpenApi

/-- A place inside a registered document. -/
structure Location where
  /-- The address of the document. -/
  document : Uri
  /-- The place in the document. -/
  pointer : String
deriving DecidableEq, Repr

/-- What an object says about its own address. -/
inductive Declaration where
  /-- The object is the resource at an address. -/
  | identifier (uri : Uri) (location : Location)
  /-- The object is what a fragment of its resource names. -/
  | anchor (uri : Uri) (location : Location)

/-- The keywords whose values are instances and not schemas. -/
def dataKeywords : List String := ["enum", "const", "default", "example", "examples"]

namespace Declaration

/-- The identifier and the anchor that an object declares for itself, given
    the base around it and its place. -/
def own (value : Json) (base document : Uri) (pointer : String) :
    Uri × List Declaration :=
  let location : Location := ⟨document, pointer⟩
  let identified : Uri × List Declaration :=
    match value.get? "$id" with
    | some (.string id) =>
      match base.resolve? id with
      | some uri => (uri.document, [.identifier uri.document location])
      | none => (base, [])
    | _ => (base, [])
  match value.get? "$anchor" with
  | some (.string name) =>
    (identified.1, identified.2 ++ [.anchor (identified.1.withFragment name) location])
  | _ => identified

mutual

/-- All declarations inside a value, outermost first. -/
def collect (value : Json) (base document : Uri) (pointer : String) : List Declaration :=
  match value with
  | .object members =>
    let (base, found) := own (.object members) base document pointer
    found ++ collectMembers members base document pointer
  | .array items => collectItems items 0 base document pointer
  | _ => []

/-- All declarations inside the items of an array from place `i` on. -/
def collectItems (items : List Json) (i : Nat) (base document : Uri) (pointer : String) :
    List Declaration :=
  match items with
  | [] => []
  | item :: rest =>
    collect item base document (pointer ++ "/" ++ toString i)
      ++ collectItems rest (i + 1) base document pointer

/-- All declarations inside the members of an object that may hold schemas. -/
def collectMembers (members : List (String × Json)) (base document : Uri) (pointer : String) :
    List Declaration :=
  match members with
  | [] => []
  | (key, value) :: rest =>
    (if key ∈ dataKeywords then [] else collect value base document (Pointer.push pointer key))
      ++ collectMembers rest base document pointer

end

/-- The address and the place of an identifier. -/
def identifier? : Declaration → Option (Uri × Location)
  | .identifier uri location => some (uri, location)
  | .anchor _ _ => none

/-- The address and the place of an anchor. -/
def anchor? : Declaration → Option (Uri × Location)
  | .anchor uri location => some (uri, location)
  | .identifier _ _ => none

end Declaration

/-- The address that relative addresses of documents are taken to be relative to. -/
def standInBase : Uri := ⟨"http", some (.ofHost "example.invalid"), .segments [""], none, none⟩

/-- An address of a document, which may be relative. -/
def Uri.readLenient? (text : String) : Option Uri := standInBase.resolve? text

/-- Registered documents, and what can be found in them by identifier. In each
    list the first entry of an address is the one that counts. -/
structure Registry where
  /-- The documents by their addresses. -/
  documents : List (Uri × Json)
  /-- The places of identified objects. -/
  identifiers : List (Uri × Location)
  /-- The places of anchored objects. -/
  anchors : List (Uri × Location)

namespace Registry

/-- The registry without documents. -/
def empty : Registry := ⟨[], [], []⟩

/-- The document with an address that has no fragment. -/
def document? (r : Registry) (uri : Uri) : Option Json := r.documents.lookup uri

/-- Adds a document under an address, which must be free, and answers the
    address in full. -/
def register (r : Registry) (address : String) (root : Json) :
    Except DocumentError (Uri × Registry) :=
  match Uri.readLenient? address with
  | none => .error (.invalidUri address)
  | some uri =>
    let document := uri.document
    match r.document? document with
    | some _ => .error (.collision document.text)
    | none =>
      let found := Declaration.collect root document document ""
      .ok (document,
        { documents := r.documents ++ [(document, root)]
          identifiers := r.identifiers ++ found.filterMap Declaration.identifier?
          anchors := r.anchors ++ found.filterMap Declaration.anchor? })

/-- Adds a document given as a YAML text, which is read first. -/
def registerYaml (r : Registry) (address text : String) : Except DocumentError (Uri × Registry) :=
  match Yaml.read? text with
  | none => .error (.unreadable address)
  | some root => r.register address root

/-- Whether a document is registered under an address. -/
def contains (r : Registry) (address : String) : Bool :=
  match Uri.readLenient? address with
  | some uri => (r.document? uri.document).isSome
  | none => false

/-- The place an address names. A fragment that is no pointer is an anchor. -/
def locate? (r : Registry) (uri : Uri) : Option Location :=
  let fragment := uri.decodedFragment
  let isAnchor := match fragment.toList with
    | [] => false
    | c :: _ => c != '/'
  if isAnchor then r.anchors.lookup uri
  else
    match r.document? uri.document with
    | some _ => some ⟨uri.document, fragment⟩
    | none =>
      (r.identifiers.lookup uri.document).map fun place =>
        ⟨place.document, place.pointer ++ fragment⟩

/-- The node at a place. -/
def nodeAt? (r : Registry) (place : Location) : Option Node := do
  let root ← r.document? place.document
  let value ← Pointer.get? root place.pointer
  pure ⟨value, place.document, place.pointer, baseAt root place.document place.pointer, none⟩

/-- The node at an address. -/
def node? (r : Registry) (uri : Uri) : Option Node := (r.locate? uri).bind r.nodeAt?

/-- The node at an address given as a text. -/
def find? (r : Registry) (address : String) : Option Node :=
  (Uri.readLenient? address).bind r.node?

/-- The node a reference leads to from `base`. -/
def resolve? (r : Registry) (reference : String) (base : Uri) : Option Node :=
  (base.resolve? reference).bind r.node?

/-- How many hops of a chain of references are followed. -/
def maxHops : Nat := 32

/-- Follows references for a number of hops. The exclusion of the node stays
    with it on the way. -/
def derefWithin (r : Registry) : Nat → Node → Except SchemaError Node
  | 0, n => .error ⟨n.scope, .reference, some "reference cycle"⟩
  | hops + 1, n =>
    match n.get? "$ref" with
    | none => .ok n
    | some (.string reference) =>
      match r.resolve? reference n.base with
      | some next => derefWithin r hops { next with exclusion := n.exclusion }
      | none => .error ⟨n.scope, .reference, some reference⟩
    | some _ => .error ⟨n.scope, .reference, none⟩

/-- The first node without a reference that references lead to. -/
def deref (r : Registry) (n : Node) : Except SchemaError Node := derefWithin r maxHops n

end Registry

end OpenApi
