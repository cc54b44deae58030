import OpenApi.Proofs.Json.Identical
import OpenApi.Proofs.Registry.Node
import OpenApi.Proofs.Uri.Reader
import OpenApi.Schema.Basic

/-!
# Scopes as Addresses

A node is known to everyone else by its scope, a text: errors name schemas by it
and other objects are bound to schemas through it. So looking up the scope has
to lead back to the node. The scope is the address of the document with the
pointer as its fragment, and the pointer is escaped once for the segments and
once more for the fragment.

The text is read as the address it was written from, since the address of a
document is regular. The escapes of segments come back whatever the keys of
objects are. Those of the fragment come back only for faithful pointers, and
these are exactly the nodes that their scopes lead back to. For any other node
the scope leads to another pointer, where there may be another schema or none.

## Main definitions

* `Registry.Built`: Registries that come about by registering documents.
* `Registry.Obtained`: Nodes that are obtained from a registry.
* `Registry.Finds`: A text leads to a node.

## Theorems

* `has_of_obtained`: The registry has every obtained node.
* `node?_scopeUri`: What the scope of a node leads to.
* `find?_scope`: The text of the scope leads to the same.
* `finds_scope_iff`: Which nodes their scopes lead back to.
-/

namespace OpenApi

namespace Registry

/-- Registries that documents were registered in, one after the other. -/
inductive Built : Registry → Prop where
  /-- There are no documents at first. -/
  | empty : Built Registry.empty
  /-- A document is registered successfully. -/
  | register (r r' : Registry) (address : String) (root : Json) (uri : Uri) :
      Built r → r.register address root = .ok (uri, r') → Built r'

/-- The ways to obtain a node from a registry. -/
inductive Obtained (r : Registry) : Node → Prop where
  /-- The node at an address. -/
  | node (uri : Uri) (n : Node) : r.node? uri = some n → Obtained r n
  /-- The node at an address that is given as a text. -/
  | find (address : String) (n : Node) : r.find? address = some n → Obtained r n
  /-- A node below, array places being in canonical decimal. -/
  | child (n m : Node) (segments : List String) :
      Obtained r n → n.Canonical segments → n.child? segments = some m → Obtained r m
  /-- A node in a list of subschemas. -/
  | branch (n m : Node) (key : String) : Obtained r n → m ∈ n.branches key → Obtained r m
  /-- The node that references lead to. -/
  | deref (n m : Node) : Obtained r n → r.deref n = .ok m → Obtained r m
  /-- The same node with an exclusion. -/
  | excluding (n : Node) (scope : String) : Obtained r n → Obtained r (n.excluding scope)

variable (r : Registry)

theorem has_of_obtained (n : Node) (h : r.Obtained n) : r.Has n := by
  have hclosed := r.closed_has
  induction h with
  | node uri n hn => exact hclosed.node? r uri n hn
  | find address n hn =>
      rcases Option.bind_eq_some_iff.mp hn with ⟨uri, _, hnode⟩
      exact hclosed.node? r uri n hnode
  | child n m segments _ hcanonical hm ih => exact hclosed.child? r segments n m ih hcanonical hm
  | branch n m key _ hm ih => exact hclosed.branches r n m key ih hm
  | deref n m _ hm ih => exact hclosed.derefWithin r maxHops n m ih hm
  | excluding n scope _ ih => exact hclosed.exclusion n (some scope) ih

/-- The addresses of documents are read from texts and have no fragment. -/
theorem address_of_built (hr : r.Built) (entry : Uri × Json) (hentry : entry ∈ r.documents) :
    ∃ address uri, Uri.readLenient? address = some uri ∧ entry.1 = uri.document := by
  induction hr with
  | empty => exact absurd hentry List.not_mem_nil
  | register r r' address root uri _ hregister ih =>
      obtain ⟨⟨read, hread, huri⟩, _, _, _, rfl⟩ :=
        r.registered_of_register r' address root uri hregister
      rcases List.mem_append.mp hentry with hold | hnew
      · exact ih hold
      · rw [List.mem_singleton.mp hnew]
        exact ⟨address, read, hread, huri⟩

/-- A node that the registry has lies in a registered document. -/
theorem address_of_has (hr : r.Built) (n : Node) (hn : r.Has n) :
    ∃ address uri root, Uri.readLenient? address = some uri ∧ n.document = uri.document
      ∧ r.document? n.document = some root ∧ (Pointer.get? root n.pointer).isSome := by
  rcases r.exists_root_of_has n hn with ⟨root, hroot, hget, _⟩
  rcases r.address_of_built hr _ (r.mem_documents_of_document? n.document root hroot) with
    ⟨address, uri, hread, huri⟩
  exact ⟨address, uri, root, hread, huri, hroot, Option.isSome_iff_exists.mpr ⟨n.value, hget⟩⟩

/-- The pointer of a node is empty or starts with a slash, and so does what its
    fragment stands for. -/
theorem decodedFragment_scopeUri (n : Node) (root : Json)
    (hget : (Pointer.get? root n.pointer).isSome = true) :
    n.scopeUri.decodedFragment.toList = []
      ∨ ∃ rest, n.scopeUri.decodedFragment.toList = '/' :: rest := by
  unfold Node.scopeUri
  unfold Pointer.get? at hget
  split at hget
  · rename_i hempty
    rw [Uri.decodedFragment_withFragment, hempty]
    exact Or.inl rfl
  · rename_i rest hpointer
    exact Or.inr (Uri.decodedFragment_cons n.document n.pointer rest hpointer)
  · exact absurd hget Bool.false_ne_true

/-- The scope of a node leads into its document, to what the fragment stands for. -/
theorem node?_scopeUri (hr : r.Built) (n : Node) (hn : r.Has n) :
    r.node? n.scopeUri = r.nodeAt? ⟨n.document, n.scopeUri.decodedFragment⟩ := by
  rcases r.address_of_has hr n hn with ⟨_, uri, root, _, hdocument, hroot, hget⟩
  have hscope : n.scopeUri.document = n.document := by
    refine Uri.document_withFragment n.document ?_ n.pointer
    rw [hdocument]
    exact Uri.document_document uri
  unfold node? locate?
  -- The fragment is no anchor, so the address is looked up among the documents.
  rcases decodedFragment_scopeUri n root hget with hstart | ⟨rest, hstart⟩
  · simp only [hstart, hscope, hroot, Bool.false_eq_true, if_false, Option.bind_some]
  · simp only [hstart, hscope, hroot, bne_self_eq_false, Bool.false_eq_true, if_false,
      Option.bind_some]

/-- A lookup leads to the node: to its value at its place, with its base. -/
def Finds (found : Option Node) (n : Node) : Prop :=
  ∃ m, found = some m ∧ m.value = n.value ∧ m.pointer = n.pointer ∧ m.base = n.base

/-- A faithful pointer leads back to the node. -/
theorem node?_scopeUri_of_isFaithful (hr : r.Built) (n : Node) (hn : r.Has n)
    (h : Uri.isFaithful n.pointer = true) : r.node? n.scopeUri = some n.bare := by
  rw [r.node?_scopeUri hr n hn, Node.scopeUri,
    (Uri.decodedFragment_withFragment_iff n.document n.pointer).mpr h]
  exact hn

theorem finds_scopeUri_iff (hr : r.Built) (n : Node) (hn : r.Has n) :
    Finds (r.node? n.scopeUri) n ↔ Uri.isFaithful n.pointer = true := by
  constructor
  · rintro ⟨m, hm, _, hpointer, _⟩
    rw [r.node?_scopeUri hr n hn] at hm
    have hplace : m.pointer = n.scopeUri.decodedFragment :=
      congrArg Location.pointer (r.place_of_found _ m hm).1
    exact (Uri.decodedFragment_withFragment_iff n.document n.pointer).mp
      (hplace.symm.trans hpointer)
  · intro h
    exact ⟨n.bare, r.node?_scopeUri_of_isFaithful hr n hn h, rfl, rfl, rfl⟩

/-- The node at an address has no exclusion. -/
theorem bare_of_find? (address : String) (n : Node) (h : r.find? address = some n) : n.bare = n := by
  rcases Option.bind_eq_some_iff.mp h with ⟨uri, _, huri⟩
  rcases Option.bind_eq_some_iff.mp huri with ⟨place, _, hplace⟩
  exact (r.place_of_found place n hplace).2

section Texts

theorem isRegular_standInBase : standInBase.IsRegular := by
  have hread : Uri.read? "http://example.invalid/" = some standInBase := by decide +kernel
  exact Uri.isRegular_readWith? none (fun b hb => absurd hb.symm (Option.some_ne_none b)) _ _ hread

/-- The address of a document is regular, even if it is relative. -/
theorem isRegular_readLenient? (address : String) (uri : Uri)
    (h : Uri.readLenient? address = some uri) : uri.IsRegular := by
  rcases Option.or_eq_some_iff.mp (Option.orElse_eq_or.symm.trans h) with h | ⟨_, h⟩
  · exact Uri.isRegular_readWith? none (fun b hb => absurd hb.symm (Option.some_ne_none b)) _ uri h
  · refine Uri.isRegular_readWith? (some standInBase) (fun b hb => ?_) _ uri h
    rw [← Option.some.inj hb]
    exact ⟨isRegular_standInBase, by decide⟩

/-- The scope of a node is read as its address. -/
theorem readLenient?_scope (hr : r.Built) (n : Node) (hn : r.Has n) :
    Uri.readLenient? n.scope = some n.scopeUri := by
  rcases r.address_of_has hr n hn with ⟨address, uri, _, hread, hdocument, _⟩
  have hregular : n.scopeUri.IsRegular := by
    refine Uri.isRegular_withFragment _ ?_ n.pointer
    rw [hdocument]
    exact Uri.isRegular_document uri (isRegular_readLenient? address uri hread)
  unfold Uri.readLenient? Uri.resolve? Node.scope
  rw [Uri.read?_text n.scopeUri hregular fun hnone => absurd hnone (Option.some_ne_none _)]
  rfl

/-- The scope leads to the same node as the address it is the text of. -/
theorem find?_scope (hr : r.Built) (n : Node) (hn : r.Has n) :
    r.find? n.scope = r.node? n.scopeUri := by
  unfold find?
  rw [r.readLenient?_scope hr n hn, Option.bind_some]

end Texts

/-- Exactly the nodes with faithful pointers are found at their scopes, and a
    schema is bound to the node it was made for exactly if that is one of them. -/
theorem finds_scope_iff (hr : r.Built) :
    (∀ n, r.Obtained n → (Finds (r.find? n.scope) n ↔ Uri.isFaithful n.pointer = true))
      ∧ ∀ address s, Schema.find r address = .ok s →
          ∃ n, r.find? address = some n ∧ (s.node = .ok n ↔ Uri.isFaithful n.pointer = true) := by
  constructor
  · intro n hn
    have hhas := r.has_of_obtained n hn
    rw [r.find?_scope hr n hhas]
    exact r.finds_scopeUri_iff hr n hhas
  · intro address s hs
    unfold Schema.find at hs
    split at hs
    · rename_i n hn
      have hhas := r.has_of_obtained n (Obtained.find address n hn)
      refine ⟨n, hn, ?_⟩
      rw [← Except.ok.inj hs]
      unfold Schema.node
      dsimp only
      constructor
      · -- A schema is bound to the node that its scope leads to, so this is the first part again.
        intro h
        split at h
        · rename_i m hm
          rw [Except.ok.inj h] at hm
          exact (r.finds_scopeUri_iff hr n hhas).mp ⟨n, hm, rfl, rfl, rfl⟩
        · exact absurd h (by simp only [reduceCtorEq, not_false_eq_true])
      · intro h
        rw [r.node?_scopeUri_of_isFaithful hr n hhas h, r.bare_of_find? address n hn]
    · exact absurd hs (by simp only [reduceCtorEq, not_false_eq_true])

/-- The address of a document of two schemas. -/
def lettersAddress : Uri := ⟨"http", some (.ofHost "letters"), .segments ["a"], none, none⟩

/-- Two schemas whose names differ only in how a letter is spelled. -/
def lettersDocument : Json :=
  .object [("a%41", .object [("type", .string "string")]),
    ("aA", .object [("type", .string "integer")])]

/-- The registry of that document. -/
def letters : Registry := ⟨[(lettersAddress, lettersDocument)], [], []⟩

/-- The schema whose name has a triple. -/
def spelled : Node :=
  ⟨.object [("type", .string "string")], lettersAddress, "/a%41", lettersAddress, none⟩

/-- The other schema. -/
def plain : Node :=
  ⟨.object [("type", .string "integer")], lettersAddress, "/aA", lettersAddress, none⟩

theorem built_letters : letters.Built := by
  have hread : Uri.readLenient? "http://letters/a" = some lettersAddress := by decide +kernel
  refine .register Registry.empty letters "http://letters/a" lettersDocument lettersAddress .empty ?_
  unfold register
  rw [hread]
  rfl

/-- The scope of one schema leads to the other one. -/
theorem finds_scope_letters :
    letters.Built ∧ letters.Obtained spelled ∧ ¬ Finds (letters.find? spelled.scope) spelled
      ∧ (letters.find? spelled.scope).map Node.value = some plain.value
      ∧ letters.Obtained plain ∧ Finds (letters.find? plain.scope) plain
      ∧ ∃ s, Schema.find letters "http://letters/a\x23/a%2541" = .ok s ∧ s.node ≠ .ok spelled := by
  have hspelled : letters.find? "http://letters/a\x23/a%2541" = some spelled := by
    decide +kernel
  have hplain : letters.find? "http://letters/a\x23/aA" = some plain := by
    decide +kernel
  have hschema : Schema.find letters "http://letters/a\x23/a%2541" = .ok ⟨letters, spelled.scopeUri⟩ := by
    unfold Schema.find
    rw [hspelled]
  have hlost : ¬ Uri.isFaithful spelled.pointer = true := by decide +kernel
  rcases finds_scope_iff letters built_letters with ⟨hnodes, hschemas⟩
  refine ⟨built_letters, .find _ _ hspelled, fun h => hlost ((hnodes _ (.find _ _ hspelled)).mp h),
    by decide +kernel, .find _ _ hplain, (hnodes _ (.find _ _ hplain)).mpr (by decide +kernel),
    _, hschema, fun h => ?_⟩
  rcases hschemas _ _ hschema with ⟨n, hn, hiff⟩
  rw [Option.some.inj (hn.symm.trans hspelled)] at hiff
  exact hlost (hiff.mp h)

end Registry

end OpenApi
