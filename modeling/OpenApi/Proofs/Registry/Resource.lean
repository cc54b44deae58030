import Mathlib.Data.List.Infix
import Mathlib.Logic.Relation
import OpenApi.Proofs.Evaluation.Reach
import OpenApi.Proofs.Registry.Index
import OpenApi.Proofs.Registry.Places

/-!
# Schema Resources

A schema with an `$id` is a resource of its own, together with the schemas inside
it up to those with an `$id` again. A reference that is a fragment alone is meant
to stay inside the resource it is written in. Two traversals have to agree for
that: the base of a schema is worked out on the way down to it, and what it leads
to was recorded when the document was registered.

The base is the identifier of the innermost object on the way that has one, or
the address of the document (`nearest_cases`). A document whose identifiers are
distinct has one entry at most for each. So the entry of the innermost object is
found, if there is one. The two traversals disagree in one point: the names of
properties are segments like any other, so when the document is registered, the
properties that are called like a keyword of instance data are passed over. The
base knows of the identifiers below them, the index does not, and references that
are fragments lead nowhere there.

## Main definitions

* `Json.paths`: The paths inside a value.
* `Json.IdentifiesApart`: The identifiers of a document are distinct.
* `Json.Nearest`: The innermost identified object on a path.
* `Node.Contains`: A schema is written inside another one.

## Theorems

* `nearest_cases`: What the base is.
* `lookup_identifier`: What is recorded for an identifier.
* `resolve_resource`: Where fragments lead.
-/

namespace OpenApi

namespace Json

/-- The paths inside a value; some may lead nowhere. -/
def paths (x : Json) : List (List String) :=
  (Pointer.spelled x).map fun cs => Pointer.segments (String.ofList cs)

theorem mem_paths_of_seek? (x y : Json) (base around : Uri) (path : List String)
    (h : x.seek? base path = some (y, around)) : path ∈ x.paths := by
  have hvalue := get?_of_seek? path x y base around h
  refine List.mem_map.mpr ⟨_, Pointer.mem_spelled_of_get? x y _ hvalue, ?_⟩
  rw [String.ofList_toList, Pointer.segments_ofSegments]

variable (root : Json) (document : Uri)

theorem mem_paths_of_identified? (path : List String) (uri : Uri)
    (h : root.identified? document path = some uri) : path ∈ root.paths := by
  rcases Option.bind_eq_some_iff.mp h with ⟨⟨x, around⟩, hseek, _⟩
  exact mem_paths_of_seek? root x document around path hseek

/-- Up to fragments, the identifiers in a document differ from each other and from
    the address of the document. -/
def IdentifiesApart : Prop :=
  ∀ path uri, root.identified? document path = some uri → uri.document ≠ document
    ∧ ∀ path' uri', root.identified? document path' = some uri' →
        uri'.document = uri.document → path' = path

instance : Decidable (root.IdentifiesApart document) :=
  decidable_of_iff
    (∀ path ∈ root.paths, ∀ uri ∈ root.identified? document path, uri.document ≠ document
      ∧ ∀ path' ∈ root.paths, ∀ uri' ∈ root.identified? document path',
          uri'.document = uri.document → path' = path)
    ⟨fun h path uri huri =>
        have hpath := h path (mem_paths_of_identified? root document path uri huri) uri huri
        ⟨hpath.1, fun path' uri' huri' =>
          hpath.2 path' (mem_paths_of_identified? root document path' uri' huri') uri' huri'⟩,
      fun h path _ uri huri =>
        ⟨(h path uri huri).1, fun path' _ uri' huri' => (h path uri huri).2 path' uri' huri'⟩⟩

/-- Of the identified objects that a path comes by, the end included, the one at
    the end of `nearest` is the innermost, and this is its identifier. -/
structure Nearest (path nearest : List String) (uri : Uri) : Prop where
  /-- The path comes by the object. -/
  above : nearest <+: path
  /-- The object is identified. -/
  identified : root.identified? document nearest = some uri
  /-- All others are further out. -/
  innermost : ∀ other, other <+: path → (root.identified? document other).isSome = true →
    other <+: nearest

/-- The base at the end of a path, from the base around. -/
theorem rebase_of_seek? (path : List String) (x : Json) (around : Uri)
    (h : root.seek? document path = some (x, around)) :
    rebase around x = (root.identified? document path).getD around := by
  unfold identified?
  rw [h, Option.bind_some, rebase_eq]

-- The induction is on the path from its end: an identifier of the last object is
-- the base, and without one the base is that of the path in front.
/-- The base at the end of a path is the identifier of the innermost object, or
    the address of the document. -/
theorem nearest_cases (path : List String) :
    ∀ x around, root.seek? document path = some (x, around) →
      (∃ nearest uri, root.Nearest document path nearest uri ∧ rebase around x = uri)
        ∨ ((∀ outer, outer <+: path → root.identified? document outer = none)
          ∧ rebase around x = document) := by
  have hhere : ∀ path x around uri, root.seek? document path = some (x, around) →
      root.identified? document path = some uri →
      ∃ nearest uri, root.Nearest document path nearest uri ∧ rebase around x = uri := by
    intro path x around uri hseek huri
    refine ⟨path, uri, ⟨List.prefix_refl path, huri, fun other hother _ => hother⟩, ?_⟩
    rw [rebase_of_seek? root document path x around hseek, huri, Option.getD_some]
  induction path using List.reverseRecOn with
  | nil =>
      intro x around hseek
      rcases hid : root.identified? document [] with _ | uri
      · refine Or.inr ⟨fun outer houter => ?_, ?_⟩
        · rw [List.prefix_nil.mp houter, hid]
        · rw [rebase_of_seek? root document [] x around hseek, hid, Option.getD_none]
          exact (Prod.mk.inj (Option.some.inj hseek)).2.symm
      · exact Or.inl (hhere [] x around uri hseek hid)
  | append_singleton path segment ih =>
      intro x around hseek
      rcases hid : root.identified? document (path ++ [segment]) with _ | uri
      · -- Without an identifier here the base is that of the object around.
        have hbase : rebase around x = around := by
          rw [rebase_of_seek? root document _ x around hseek, hid, Option.getD_none]
        rw [seek?_append] at hseek
        rcases Option.bind_eq_some_iff.mp hseek with ⟨⟨y, outside⟩, hy, hstep⟩
        rcases Option.bind_eq_some_iff.mp hstep with ⟨z, _, hlast⟩
        have haround : rebase outside y = around := (Prod.mk.inj (Option.some.inj hlast)).2
        rw [hbase, ← haround]
        rcases ih y outside hy with ⟨nearest, uri, hnearest, huri⟩ | ⟨hnone, hdocument⟩
        · refine Or.inl ⟨nearest, uri, ⟨?_, hnearest.identified, fun other hother hsome => ?_⟩, huri⟩
          · exact hnearest.above.trans (List.prefix_append path [segment])
          · rcases List.prefix_concat_iff.mp hother with rfl | hother
            · rw [hid] at hsome
              exact absurd hsome Bool.false_ne_true
            · exact hnearest.innermost other hother hsome
        · refine Or.inr ⟨fun outer houter => ?_, hdocument⟩
          rcases List.prefix_concat_iff.mp houter with rfl | houter
          · exact hid
          · exact hnone outer houter
      · exact Or.inl (hhere _ x around uri hseek hid)

end Json

/-- The schema is written in one of the places of the other one where schemas for
    the same instance, for its items or for its members are. -/
inductive Node.Contains (n : Node) : Node → Prop where
  /-- The schema of a declared member. -/
  | property (m : Node) (declared : Ordered Json) (name : String) :
      n.get? "properties" = some (.object declared) → n.child? ["properties", name] = some m →
        Contains n m
  /-- The schema of items, or that of the item at a place. -/
  | item (m : Node) (i : Nat) : n.itemSchema? i = some m → Contains n m
  /-- The schema of another keyword. -/
  | keyword (m : Node) (key : String) :
      key ∈ ["additionalProperties", "additionalItems", "not"] → n.child? [key] = some m →
        Contains n m
  /-- A schema in the list of a keyword. -/
  | branch (m : Node) (key : String) :
      key ∈ ["allOf", "anyOf", "oneOf"] → m ∈ n.branches key → Contains n m

namespace Registry

variable (r : Registry)

section Reached

/-- The schemas inside a schema are nodes of the registry, in the same document. -/
theorem has_of_contains (n m : Node) (hn : r.Has n) (h : n.Contains m) :
    r.Has m ∧ m.document = n.document := by
  have hbelow : ∀ segments, n.Canonical segments → n.child? segments = some m →
      r.Has m ∧ m.document = n.document := fun segments hcanonical hchild =>
    ⟨r.closed_has.child? r segments n m hn hcanonical hchild,
      Node.document_of_child? segments n m hchild⟩
  -- Whichever way leads inside, its segments are canonical.
  cases h with
  | property declared name hdeclared hchild =>
      exact hbelow _ (Node.canonical_property n m declared name hdeclared hchild) hchild
  | item i hschema =>
      rcases Node.canonical_itemSchema? n m i hschema with ⟨segments, hcanonical, hchild⟩
      exact hbelow segments hcanonical hchild
  | keyword key hkey hchild =>
      refine hbelow [key] (Node.canonical_of_index? n m key ?_ hchild) hchild
      simp only [List.mem_cons, List.not_mem_nil, or_false] at hkey
      rcases hkey with rfl | rfl | rfl
      · rfl
      · rfl
      · rfl
  | branch key _ hbranch =>
      rcases Node.canonical_branch n m key hbranch with ⟨i, hcanonical, hchild⟩
      exact hbelow _ hcanonical hchild

theorem has_of_reached (top n : Node) (htop : r.Has top)
    (h : Relation.ReflTransGen Node.Contains top n) : r.Has n ∧ n.document = top.document := by
  induction h with
  | refl => exact ⟨htop, rfl⟩
  | tail _ hstep ih =>
      obtain ⟨hhas, hdocument⟩ := r.has_of_contains _ _ ih.1 hstep
      exact ⟨hhas, hdocument.trans ih.2⟩

end Reached

section OneDocument

theorem eq_empty_of_built (hr : r.Built) (hnone : r.documents = []) : r = empty := by
  cases hr with
  | empty => rfl
  | register r' _ address root uri _ hregister =>
      obtain ⟨rfl, _⟩ := r'.lists_of_register r address root uri hregister
      exact absurd hnone (List.append_ne_nil_of_right_ne_nil _ (List.cons_ne_nil _ _))

variable (document : Uri) (root : Json)

/-- A registry with one document is what registering the document makes of the
    empty one. -/
theorem exists_register_of_built (hr : r.Built) (hone : r.documents = [(document, root)]) :
    ∃ address, empty.register address root = .ok (document, r) := by
  cases hr with
  | empty => exact absurd hone.symm (List.cons_ne_nil _ _)
  | register r' _ address root' uri hbuilt hregister =>
      have hlists := (r'.lists_of_register r address root' uri hregister).1
      have hdocuments : r'.documents ++ [(uri, root')] = [(document, root)] := by
        rw [← hone, hlists]
      rcases List.append_eq_singleton_iff.mp hdocuments with ⟨hnone, hentry⟩ | ⟨_, hnil⟩
      · rw [List.cons.injEq, Prod.mk.injEq] at hentry
        rw [r'.eq_empty_of_built hbuilt hnone, hentry.1.1, hentry.1.2] at hregister
        exact ⟨address, hregister⟩
      · exact absurd hnil (List.cons_ne_nil _ _)

variable (address : String) (hr : empty.register address root = .ok (document, r))

include hr

theorem document?_of_ne (uri : Uri) (h : uri ≠ document) : r.document? uri = none := by
  obtain ⟨rfl, _⟩ := empty.lists_of_register r address root document hr
  unfold document?
  rw [empty, List.nil_append, List.lookup_cons, beq_false_of_ne h, List.lookup_nil]

/-- The identifier at the end of a path is recorded with this path, unless the path
    comes by instance data. -/
theorem lookup_identifier (hroot : root.WellFormed) (hapart : root.IdentifiesApart document)
    (path : List String) (uri : Uri) (huri : root.identified? document path = some uri) :
    r.identifiers.lookup uri.document =
      if ∀ segment ∈ path, segment ∉ dataKeywords then
        some ⟨document, Pointer.ofSegments path⟩
      else none := by
  obtain ⟨hlists, hsegmented, hself⟩ := empty.lists_of_register r address root document hr
  have hidentifiers : r.identifiers
      = (Declaration.collect root document document "").filterMap Declaration.identifier? := by
    rw [hlists]
    rfl
  have hentries := Declaration.mem_identifiers_iff document root hroot hsegmented hself
  obtain ⟨_, hunique⟩ := hapart path uri huri
  by_cases hpath : ∀ segment ∈ path, segment ∉ dataKeywords
  · rw [if_pos hpath, hidentifiers]
    have hmem := (hentries uri.document ⟨document, Pointer.ofSegments path⟩).mpr
      ⟨path, uri, huri, hpath, rfl, rfl⟩
    -- The first entry of this address counts, and there is no other one, since identifiers differ.
    obtain ⟨place, hplace, hfound⟩ := exists_lookup_of_mem _ _ hmem
    rcases (hentries uri.document place).mp hfound with ⟨path', uri', huri', _, heq, rfl⟩
    rw [hplace, hunique path' uri' huri' heq.symm]
  · rw [if_neg hpath, hidentifiers, List.lookup_eq_none_iff]
    rintro ⟨key, place⟩ hentry
    rw [bne_iff_ne]
    rintro rfl
    -- An entry would have been collected on this very path.
    rcases (hentries uri.document place).mp hentry with ⟨path', uri', huri', hpath', heq, _⟩
    rw [hunique path' uri' huri' heq.symm] at hpath'
    exact hpath hpath'

end OneDocument

/-- A fragment that is a pointer leads into the document of its base, or below the
    object that is recorded for it. -/
theorem node?_withFragment (base : Uri) (pointer : String)
    (hfaithful : Uri.isFaithful pointer = true)
    (hstart : pointer.toList = [] ∨ ∃ rest, pointer.toList = '/' :: rest) :
    r.node? (base.withFragment pointer)
      = match r.document? base.document with
        | some _ => r.nodeAt? ⟨base.document, pointer⟩
        | none => (r.identifiers.lookup base.document).bind fun place =>
            r.nodeAt? ⟨place.document, place.pointer ++ pointer⟩ := by
  have hfragment := (Uri.decodedFragment_withFragment_iff base pointer).mpr hfaithful
  -- A pointer comes back from the fragment as it is, so it is not taken for the name of an
  -- anchor.
  have hanchor : ¬ (base.withFragment pointer).namesAnchor = true := by
    unfold Uri.namesAnchor
    rw [hfragment]
    rcases hstart with hstart | ⟨rest, hstart⟩
    · rw [hstart]
      exact Bool.false_ne_true
    · rw [hstart]
      exact fun h => absurd h (by simp only [bne_self_eq_false, Bool.false_eq_true,
        not_false_eq_true])
  unfold node?
  rw [locate?_eq, if_neg hanchor, hfragment]
  have hdocument : (base.withFragment pointer).document = base.document := rfl
  rw [hdocument]
  rcases r.document? base.document with _ | root
  · exact Option.bind_map
  · rfl

/-- The empty fragment leads to the document of its base, or to the object that is
    recorded for it. -/
theorem resolve?_sharp (base : Uri) :
    r.resolve? "\x23" base
      = match r.document? base.document with
        | some _ => r.nodeAt? ⟨base.document, ""⟩
        | none => (r.identifiers.lookup base.document).bind r.nodeAt? := by
  have hresolve : base.resolve? "\x23" = some (base.withFragment "") :=
    Uri.resolve?_fragment base "" (fun c hc => absurd hc List.not_mem_nil)
  unfold resolve?
  rw [hresolve, Option.bind_some, r.node?_withFragment base "" rfl (Or.inl rfl)]
  rcases r.document? base.document with _ | root
  · refine Option.bind_congr fun place _ => ?_
    rw [String.append_empty]
  · rfl

/-- In a document with distinct identifiers, take a schema that is reached from the
    whole document. If an object on the way has an identifier, the innermost one
    gives the base. An empty fragment leads from the base to this object, unless
    one of the properties on the way to it is called like a keyword of instance
    data; then it leads nowhere. Without such an object it leads to the document. -/
theorem resolve_resource (document : Uri) (root : Json) (hr : r.Built)
    (hone : r.documents = [(document, root)]) (hroot : root.WellFormed)
    (hapart : root.IdentifiesApart document) (top n : Node)
    (htop : r.nodeAt? ⟨document, ""⟩ = some top)
    (hn : Relation.ReflTransGen Node.Contains top n) :
    (∃ nearest uri, root.Nearest document (Pointer.segments n.pointer) nearest uri
        ∧ n.base = uri
        ∧ ∃ m, r.nodeAt? ⟨document, Pointer.ofSegments nearest⟩ = some m
          ∧ r.resolve? "\x23" n.base
            = if ∀ segment ∈ nearest, segment ∉ dataKeywords then some m else none)
      ∨ ((∀ outer, outer <+: Pointer.segments n.pointer →
            root.identified? document outer = none)
          ∧ n.base = document ∧ r.resolve? "\x23" n.base = some top) := by
  obtain ⟨address, hregister⟩ := r.exists_register_of_built document root hr hone
  obtain ⟨_, _, hself⟩ := empty.lists_of_register r address root document hregister
  have hdocument := empty.document?_of_register r address root document hregister
  -- The node is at the end of its path, and its base is the one there.
  obtain ⟨hhas, hsame⟩ := r.has_of_reached top n (r.has_of_found _ top htop) hn
  have hplace : top.document = document := congrArg Location.document (r.place_of_found _ top htop).1
  rw [hplace] at hsame
  obtain ⟨around, hseek, hbase⟩ := r.exists_seek?_of_has n root hhas (hsame.symm ▸ hdocument)
  rw [hsame] at hseek
  rcases root.nearest_cases document _ n.value around hseek with
    ⟨nearest, uri, hnearest, huri⟩ | ⟨hnone, houtside⟩
  · left
    refine ⟨nearest, uri, hnearest, hbase.trans huri, ?_⟩
    rcases Option.bind_eq_some_iff.mp hnearest.identified with ⟨⟨x, outside⟩, hx, _⟩
    refine ⟨_, r.nodeAt?_of_seek? document root x outside nearest hdocument hx, ?_⟩
    have hne := (hapart nearest uri hnearest.identified).1
    rw [hbase, huri, resolve?_sharp, r.document?_of_ne document root address hregister _ hne]
    dsimp only
    rw [r.lookup_identifier document root address hregister hroot hapart nearest uri
      hnearest.identified]
    by_cases hclean : ∀ segment ∈ nearest, segment ∉ dataKeywords
    · rw [if_pos hclean, if_pos hclean, Option.bind_some]
      exact r.nodeAt?_of_seek? document root x outside nearest hdocument hx
    · rw [if_neg hclean, if_neg hclean]
      rfl
  · right
    refine ⟨hnone, hbase.trans houtside, ?_⟩
    rw [hbase, houtside, resolve?_sharp, hself, hdocument]
    exact htop

/-- The address of a document of a schema with two resources inside it. -/
def catalogAddress : Uri := ⟨"http", some (.ofHost "shop"), .segments ["a"], none, none⟩

/-- The schema of a price. -/
def priceSchema : Json :=
  .object [("$id", .string "http://shop/price"), ("items", .object [("type", .string "number")])]

/-- The schema of an example, which is a property like any other. -/
def exampleSchema : Json :=
  .object [("$id", .string "http://shop/b"), ("type", .string "string")]

/-- The document. -/
def catalogDocument : Json :=
  .object [("properties", .object [("price", priceSchema), ("example", exampleSchema)])]

/-- The registry of the document. -/
def catalog : Registry := empty.after (.json "http://shop/a" catalogDocument)

/-- The whole document. -/
def catalogNode : Node := ⟨catalogDocument, catalogAddress, "", catalogAddress, none⟩

/-- The schema of a price at its place. -/
def priceNode : Node :=
  ⟨priceSchema, catalogAddress, "/properties/price",
    ⟨"http", some (.ofHost "shop"), .segments ["price"], none, none⟩, none⟩

/-- The schema for the items of a price. -/
def itemNode : Node :=
  ⟨.object [("type", .string "number")], catalogAddress, "/properties/price/items",
    ⟨"http", some (.ofHost "shop"), .segments ["price"], none, none⟩, none⟩

/-- The schema of the example at its place. -/
def exampleNode : Node :=
  ⟨exampleSchema, catalogAddress, "/properties/example",
    ⟨"http", some (.ofHost "shop"), .segments ["b"], none, none⟩, none⟩

theorem reached_item : Relation.ReflTransGen Node.Contains catalogNode itemNode :=
  .tail (.single (.property priceNode [("price", priceSchema), ("example", exampleSchema)] "price"
    rfl (by decide +kernel))) (.item itemNode 0 (by decide +kernel))

theorem reached_example : Relation.ReflTransGen Node.Contains catalogNode exampleNode :=
  .single (.property exampleNode [("price", priceSchema), ("example", exampleSchema)] "example"
    rfl (by decide +kernel))

theorem identifiesApart_catalog : catalogDocument.IdentifiesApart catalogAddress := by
  decide +kernel

/-- Inside the price a fragment leads to the price. -/
theorem resolve_resource_price :
    catalog.Built ∧ catalog.documents = [(catalogAddress, catalogDocument)]
      ∧ catalogDocument.WellFormed ∧ catalogDocument.IdentifiesApart catalogAddress
      ∧ catalog.nodeAt? ⟨catalogAddress, ""⟩ = some catalogNode
      ∧ Relation.ReflTransGen Node.Contains catalogNode itemNode
      ∧ ∃ nearest uri,
        catalogDocument.Nearest catalogAddress ["properties", "price", "items"] nearest uri
          ∧ itemNode.base = uri
          ∧ ∃ m, catalog.nodeAt? ⟨catalogAddress, Pointer.ofSegments nearest⟩ = some m
            ∧ catalog.resolve? "\x23" itemNode.base
              = if ∀ segment ∈ nearest, segment ∉ dataKeywords then some m else none := by
  have hr : catalog.Built := empty.built_after .empty _
  have hone : catalog.documents = [(catalogAddress, catalogDocument)] := by decide +kernel
  have hroot : catalogDocument.WellFormed := by decide +kernel
  have hapart := identifiesApart_catalog
  have htop : catalog.nodeAt? ⟨catalogAddress, ""⟩ = some catalogNode := by decide +kernel
  refine ⟨hr, hone, hroot, hapart, htop, reached_item, ?_⟩
  rcases catalog.resolve_resource catalogAddress catalogDocument hr hone hroot hapart catalogNode
    itemNode htop reached_item with h | ⟨hnone, _⟩
  · exact h
  · have hprice : (catalogDocument.identified? catalogAddress ["properties", "price"]).isSome
        = true := by
      decide +kernel
    rw [hnone ["properties", "price"] (by decide +kernel)] at hprice
    exact absurd hprice Bool.false_ne_true

/-- The example is a schema with an identifier, and this identifier is its base, but
    a fragment leads nowhere from there. -/
theorem resolve_example :
    Relation.ReflTransGen Node.Contains catalogNode exampleNode
      ∧ catalogDocument.IdentifiesApart catalogAddress
      ∧ catalogDocument.identified? catalogAddress ["properties", "example"]
        = some exampleNode.base
      ∧ catalog.nodeAt? ⟨catalogAddress, "/properties/example"⟩ = some exampleNode
      ∧ catalog.resolve? "\x23" exampleNode.base = none :=
  ⟨reached_example, identifiesApart_catalog, by decide +kernel, by decide +kernel, by decide +kernel⟩

end Registry

end OpenApi
