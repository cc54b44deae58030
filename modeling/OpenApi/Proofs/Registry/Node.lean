import OpenApi.Proofs.Json.Parts
import OpenApi.Proofs.Pointer
import OpenApi.Schema.Verdict

/-!
# Nodes of a Registry

A node is a value with an address, and nothing in its type ties one to the
other. Two properties do. `Registry.Holds` says that the value is somewhere in a
registered document, and `Registry.Has` says that it is what the registry has
under the address of the node, together with the base there.

Evaluations go from node to node in three ways: down by the segments of
keywords, along references, and by setting or dropping an exclusion. A property
that holds of what the registry finds and survives these is `Closed`, so that it
holds of every node an evaluation comes to. Both properties above are closed.

Going down leads to the address one segment further only if the segment is
canonical, since the lookup of an address is stricter about array places than
going down is. The segments that keywords use are: a place counted by the
program, or a name that is no array place.

## Main definitions

* `Node.place`, `Node.bare`: The place of a node, and the node without exclusion.
* `Node.Canonical`: The segments lead down as in a lookup.
* `Registry.Holds`, `Registry.Has`: A registry has a node.
* `Registry.Closed`: A property survives the steps of an evaluation.

## Theorems

* `registered_of_register`: What a successful registration does.
* `Closed.child?`, `Closed.branches`, `Closed.follow`: The steps.
* `nodeAt?_push`: The node at a place one segment further.
* `child?_eq_map`: What going down yields.
* `map_value_child?`, `map_value_branches`: The values of nodes below a node.
* `closed_holds`, `closed_has`: The two properties are closed.
* `derefWithin_spec`, `derefWithin_exclusion`: Where references lead.
-/

namespace OpenApi

namespace Pointer

theorem mem_parts_of_canonicalStep? (x y : Json) (segment : String)
    (h : canonicalStep? x segment = some y) : y ∈ x.parts := by
  cases x with
  | object members => exact Json.mem_parts_of_get? (.object members) segment y h
  | array items =>
      rcases Option.bind_eq_some_iff.mp h with ⟨i, _, hitem⟩
      exact Json.mem_parts_item items y (List.mem_of_getElem? hitem)
  | _ => exact absurd h (by simp only [canonicalStep?, stepBy?, reduceCtorEq, not_false_eq_true])

/-- Looking up a pointer goes down by its segments. -/
theorem foldlM_of_get? (root value : Json) (pointer : String)
    (h : get? root pointer = some value) :
    (segments pointer).foldlM canonicalStep? root = some value := by
  unfold get? at h
  split at h
  · rename_i hempty
    rw [String.toList_eq_nil_iff.mp hempty, segments_empty]
    exact h
  · exact h
  · exact absurd h (by simp only [reduceCtorEq, not_false_eq_true])

theorem mem_parts_of_foldlM (path : List String) :
    ∀ root value : Json, path.foldlM canonicalStep? root = some value → value ∈ root.parts := by
  induction path with
  | nil =>
      intro root value h
      rw [← Option.some.inj h]
      exact Json.mem_parts_self root
  | cons segment rest ih =>
      intro root value h
      rw [List.foldlM_cons] at h
      rcases Option.bind_eq_some_iff.mp h with ⟨next, hnext, hrest⟩
      exact Json.mem_parts_trans _ _ _ (mem_parts_of_canonicalStep? root next segment hnext)
        (ih next value hrest)

theorem mem_parts_of_get? (root value : Json) (pointer : String)
    (h : get? root pointer = some value) : value ∈ root.parts :=
  mem_parts_of_foldlM (segments pointer) root value (foldlM_of_get? root value pointer h)

end Pointer

/-- The base at the end of a path that leads to a value, some segments further. -/
theorem baseAlong_append (path further : List String) (value : Json) :
    ∀ (root : Json) (base : Uri), path.foldlM Pointer.canonicalStep? root = some value →
      baseAlong root base (path ++ further)
        = baseAlong value (baseAlong root base path) further := by
  induction path with
  | nil =>
      intro root base h
      rw [← Option.some.inj h]
      rfl
  | cons first rest ih =>
      intro root base h
      rw [List.foldlM_cons] at h
      rcases Option.bind_eq_some_iff.mp h with ⟨next, hnext, hrest⟩
      rw [List.cons_append, baseAlong, baseAlong,
        Pointer.step?_of_canonicalStep? root first next hnext]
      exact ih next (rebase base next) hrest

/-- Where the node is. -/
def Node.place (n : Node) : Location := ⟨n.document, n.pointer⟩

/-- The node as it is found at its place, without an exclusion. -/
def Node.bare (n : Node) : Node := { n with exclusion := none }

namespace Registry

/-- The value of the node is part of a registered document. -/
def Holds (r : Registry) (n : Node) : Prop := ∃ entry ∈ r.documents, n.value ∈ entry.2.parts

/-- The node is what the registry has at its place. -/
def Has (r : Registry) (n : Node) : Prop := r.nodeAt? n.place = some n.bare

/-- A property of nodes that survives every step of an evaluation. -/
structure Closed (r : Registry) (P : Node → Prop) : Prop where
  /-- Nodes that are found have it. -/
  found : ∀ place n, r.nodeAt? place = some n → P n
  /-- Going down by a canonical segment keeps it. -/
  step : ∀ n segment m, P n → Pointer.canonicalStep? n.value segment = some m.value →
    n.step? segment = some m → P m
  /-- It does not depend on the exclusion. -/
  exclusion : ∀ n e, P n → P { n with exclusion := e }

end Registry

namespace Node

/-- The segments lead down from the node as in a lookup. -/
def Canonical (n : Node) (segments : List String) : Prop :=
  (segments.foldlM Pointer.canonicalStep? n.value).isSome

theorem value_of_step? (n m : Node) (segment : String) (h : n.step? segment = some m) :
    Pointer.step? n.value segment = some m.value := by
  rcases Option.bind_eq_some_iff.mp h with ⟨value, hvalue, hm⟩
  rw [← Option.some.inj hm]
  exact hvalue

theorem bare_of_step? (n m : Node) (segment : String) (h : n.step? segment = some m) :
    m.bare = m := by
  rcases Option.bind_eq_some_iff.mp h with ⟨value, _, hm⟩
  rw [← Option.some.inj hm]
  rfl

theorem child?_cons (n : Node) (segment : String) (rest : List String) :
    n.child? (segment :: rest) = (n.step? segment).bind fun m => m.child? rest := by
  unfold child?
  rw [List.foldlM_cons]
  change (n.step? segment).bind _ = _
  refine Option.bind_congr fun m hm => ?_
  change rest.foldlM step? m = rest.foldlM step? m.bare
  rw [bare_of_step? n m segment hm]

/-- Going down yields the value it comes to, the pointer with the segments as they are
    given, and the base along them. -/
theorem child?_eq_map (segments : List String) :
    ∀ n : Node, n.child? segments = (segments.foldlM Pointer.step? n.value).map fun value =>
      ⟨value, n.document, segments.foldl Pointer.push n.pointer,
        baseAlong n.value n.base segments, none⟩ := by
  induction segments with
  | nil => exact fun n => rfl
  | cons segment rest ih =>
      intro n
      rw [child?_cons, List.foldlM_cons]
      unfold step? baseAlong
      rcases Pointer.step? n.value segment with _ | next
      · rfl
      · exact ih _

/-- There is a node below exactly where the value leads on, and it has that value. -/
theorem map_value_child? (segments : List String) (n : Node) :
    (n.child? segments).map Node.value = segments.foldlM Pointer.step? n.value := by
  rw [child?_eq_map, Option.map_map]
  exact Option.map_id'

theorem document_of_child? (segments : List String) (n m : Node)
    (h : n.child? segments = some m) : m.document = n.document := by
  rw [child?_eq_map] at h
  rcases Option.map_eq_some_iff.mp h with ⟨_, _, rfl⟩
  rfl

theorem exclusion_of_child? (segments : List String) (n m : Node)
    (h : n.child? segments = some m) : m.exclusion = none := by
  rw [child?_eq_map] at h
  rcases Option.map_eq_some_iff.mp h with ⟨_, _, rfl⟩
  rfl

theorem value_of_child? (segments : List String) (n m : Node) (h : n.child? segments = some m) :
    segments.foldlM Pointer.step? n.value = some m.value := by
  rw [← map_value_child?, h]
  rfl

theorem canonical_cons (n m : Node) (segment : String) (rest : List String)
    (h : n.Canonical (segment :: rest)) (hm : n.step? segment = some m) :
    Pointer.canonicalStep? n.value segment = some m.value ∧ m.Canonical rest := by
  unfold Canonical at h
  rw [List.foldlM_cons] at h
  rcases Option.isSome_iff_exists.mp h with ⟨last, hlast⟩
  rcases Option.bind_eq_some_iff.mp hlast with ⟨value, hvalue, hrest⟩
  have hstep := Pointer.step?_of_canonicalStep? n.value segment value hvalue
  rw [value_of_step? n m segment hm, Option.some.injEq] at hstep
  rw [hstep]
  exact ⟨hvalue, Option.isSome_iff_exists.mpr ⟨last, hstep ▸ hrest⟩⟩

/-- A segment that both readings of array places take alike is canonical. -/
theorem canonical_of_index? (n m : Node) (segment : String)
    (hread : Pointer.index? segment = Pointer.canonicalIndex? segment)
    (h : n.child? [segment] = some m) : n.Canonical [segment] := by
  have hvalue := value_of_child? [segment] n m h
  simp only [List.foldlM_cons, List.foldlM_nil] at hvalue
  rw [Pointer.step?_eq_canonicalStep? n.value segment hread] at hvalue
  unfold Canonical
  simp only [List.foldlM_cons, List.foldlM_nil]
  rw [hvalue]
  rfl

theorem canonicalStep?_of_get? (n : Node) (key : String) (value : Json)
    (hget : n.get? key = some value) : Pointer.canonicalStep? n.value key = some value := by
  unfold get? at hget
  cases hn : n.value with
  | object members => rwa [hn] at hget
  | _ =>
      rw [hn] at hget
      exact absurd hget (by simp only [Json.get?, reduceCtorEq, not_false_eq_true])

/-- Below a segment that is no place of an array there is what the key holds. -/
theorem map_value_key (n : Node) (key : String) (hkey : Pointer.index? key = none) :
    (n.child? [key]).map Node.value = n.get? key := by
  rw [map_value_child?, List.foldlM_cons]
  simp only [List.foldlM_nil, bind_pure]
  unfold get?
  cases n.value with
  | object members => rfl
  | array items =>
      unfold Pointer.step? Pointer.stepBy?
      rw [hkey]
      rfl
  | _ => rfl

theorem has_eq_isSome_child? (n : Node) (key : String) (hkey : Pointer.index? key = none) :
    n.has key = (n.child? [key]).isSome := by
  rw [← Option.isSome_map (f := Node.value), n.map_value_key key hkey]
  rfl

theorem exists_child?_of_get? (n : Node) (key : String) (value : Json)
    (h : n.get? key = some value) : ∃ m, n.child? [key] = some m ∧ m.value = value := by
  refine Option.map_eq_some_iff.mp ?_
  rw [map_value_child?, List.foldlM_cons,
    Pointer.step?_of_canonicalStep? _ _ _ (n.canonicalStep?_of_get? key value h)]
  rfl

/-- Two segments below a node with a member there is what that member leads on to. -/
theorem map_value_below (n : Node) (key segment : String) (value : Json)
    (hget : n.get? key = some value) :
    (n.child? [key, segment]).map Node.value = Pointer.step? value segment := by
  have hkey := Pointer.step?_of_canonicalStep? _ _ _ (n.canonicalStep?_of_get? key value hget)
  rw [map_value_child?, List.foldlM_cons, hkey]
  simp only [List.foldlM_cons, List.foldlM_nil, bind_pure, Option.bind_eq_bind, Option.bind_some]

/-- The node two segments below a node with a member lies in that member. -/
theorem step?_of_get? (n m : Node) (key segment : String) (value : Json)
    (hget : n.get? key = some value) (h : n.child? [key, segment] = some m) :
    Pointer.step? value segment = some m.value := by
  rw [← n.map_value_below key segment value hget, h]
  rfl

/-- Below a member, it is the segment after the key that has to be canonical. -/
theorem canonical_of_get? (n m : Node) (key segment : String) (value : Json)
    (hget : n.get? key = some value)
    (hstep : Pointer.step? value segment = Pointer.canonicalStep? value segment)
    (h : n.child? [key, segment] = some m) : n.Canonical [key, segment] := by
  have hvalue := n.step?_of_get? m key segment value hget h
  unfold Canonical
  simp only [List.foldlM_cons, List.foldlM_nil]
  rw [n.canonicalStep?_of_get? key value hget, Option.bind_eq_bind, Option.bind_some, ← hstep,
    hvalue]
  rfl

theorem canonical_property (n m : Node) (declared : Ordered Json) (name : String)
    (hdeclared : n.get? "properties" = some (.object declared))
    (h : n.child? ["properties", name] = some m) : n.Canonical ["properties", name] :=
  canonical_of_get? n m "properties" name (.object declared) hdeclared rfl h

theorem exists_object_of_has (n : Node) (key : String) (h : n.has key = true) :
    ∃ members, n.value = .object members := by
  cases hn : n.value with
  | object members => exact ⟨members, rfl⟩
  | _ =>
      unfold has at h
      rw [hn] at h
      exact absurd h Bool.false_ne_true

theorem has_of_mem_branches (n m : Node) (key : String) (h : m ∈ n.branches key) :
    n.has key = true := by
  rcases List.mem_filterMap.mp h with ⟨i, hi, _⟩
  rcases hget : n.get? key with _ | value
  · rw [hget] at hi
    exact absurd (List.mem_range.mp hi) (Nat.not_lt_zero i)
  · exact Option.isSome_iff_exists.mpr ⟨value, hget⟩

theorem filterMap_range {α : Type} (items : List α) :
    (List.range items.length).filterMap (fun i => items[i]?) = items := by
  induction items with
  | nil => rfl
  | cons item rest ih =>
      rw [List.length_cons, List.range_succ_eq_map, List.filterMap_cons, List.filterMap_map]
      simp only [List.getElem?_cons_zero, Function.comp_def, Nat.succ_eq_add_one,
        List.getElem?_cons_succ, ih]

/-- The branches of a keyword are the items of its list, in their order. -/
theorem map_value_branches (n : Node) (key : String) :
    (n.branches key).map Node.value = ((n.get? key).bind Json.array?).getD [] := by
  unfold branches
  rw [List.map_filterMap]
  rcases hlist : (n.get? key).bind Json.array? with _ | items
  · rfl
  · obtain ⟨value, hget, harray⟩ := Option.bind_eq_some_iff.mp hlist
    have hvalue : value = .array items := by
      cases value with
      | array items' => exact congrArg Json.array (Option.some.inj harray)
      | _ => exact nomatch harray
    subst hvalue
    have hitem : ∀ i : Nat, (n.child? [key, toString i]).map Node.value = items[i]? := by
      intro i
      rw [n.map_value_below key (toString i) _ hget,
        Pointer.step?_eq_canonicalStep? _ _ (Pointer.index?_toString i),
        Pointer.canonicalStep?_array]
    simp only [hitem, Option.elim_some, Option.getD_some]
    exact filterMap_range items

theorem canonical_branch (n m : Node) (key : String) (h : m ∈ n.branches key) :
    ∃ i : Nat, n.Canonical [key, toString i] ∧ n.child? [key, toString i] = some m := by
  rcases List.mem_filterMap.mp h with ⟨i, hi, hchild⟩
  refine ⟨i, ?_, hchild⟩
  rcases hget : n.get? key with _ | value
  · rw [hget] at hi
    exact absurd (List.mem_range.mp hi) (Nat.not_lt_zero i)
  · exact canonical_of_get? n m key (toString i) value hget
      (Pointer.step?_eq_canonicalStep? value _ (Pointer.index?_toString i)) hchild

end Node

namespace Registry

variable (r : Registry)

/-- A successful registration adds one document under an address that was free,
    and what the document declares, behind everything there was. -/
theorem registered_of_register (r' : Registry) (address : String) (root : Json) (d : Uri)
    (h : r.register address root = .ok (d, r')) :
    (∃ uri, Uri.readLenient? address = some uri ∧ d = uri.document) ∧ r.document? d = none
      ∧ ∃ identifiers anchors,
        r' = ⟨r.documents ++ [(d, root)], r.identifiers ++ identifiers, r.anchors ++ anchors⟩ := by
  unfold register at h
  split at h
  · exact absurd h (by simp only [reduceCtorEq, not_false_eq_true])
  · rename_i uri hread
    dsimp only at h
    split at h
    · exact absurd h (by simp only [reduceCtorEq, not_false_eq_true])
    · rename_i hfree
      rw [Except.ok.injEq, Prod.mk.injEq] at h
      rcases h with ⟨rfl, rfl⟩
      exact ⟨⟨uri, hread, rfl⟩, hfree, _, _, rfl⟩

/-- Evaluations follow references as lookups do. -/
theorem follow_eq_ok_iff (n t : Node) : r.follow n = .ok t ↔ r.deref n = .ok t := by
  unfold follow
  rcases r.deref n with e | target
  · simp only [Except.mapError, reduceCtorEq]
  · simp only [Except.mapError, Except.ok.injEq]

section Closed

variable {P : Node → Prop} (hP : r.Closed P)

include hP

theorem Closed.child? (segments : List String) :
    ∀ n m : Node, P n → n.Canonical segments → n.child? segments = some m → P m := by
  induction segments with
  | nil =>
      intro n m hn _ hm
      rw [← Option.some.inj hm]
      exact hP.exclusion n none hn
  | cons segment rest ih =>
      intro n m hn hcanonical hm
      rw [Node.child?_cons] at hm
      rcases Option.bind_eq_some_iff.mp hm with ⟨next, hnext, hrest⟩
      rcases Node.canonical_cons n next segment rest hcanonical hnext with ⟨hstep, htail⟩
      exact ih next m (hP.step n segment next hn hstep hnext) htail hrest

theorem Closed.branches (n m : Node) (key : String) (hn : P n) (hm : m ∈ n.branches key) : P m := by
  rcases Node.canonical_branch n m key hm with ⟨i, hcanonical, hchild⟩
  exact hP.child? r [key, toString i] n m hn hcanonical hchild

theorem Closed.key (n m : Node) (key : String)
    (hkey : Pointer.index? key = Pointer.canonicalIndex? key) (hn : P n)
    (h : n.child? [key] = some m) : P m :=
  hP.child? r [key] n m hn (Node.canonical_of_index? n m key hkey h) h

theorem Closed.node? (uri : Uri) (n : Node) (h : r.node? uri = some n) : P n := by
  rcases Option.bind_eq_some_iff.mp h with ⟨place, _, hplace⟩
  exact hP.found place n hplace

theorem Closed.derefWithin (hops : Nat) :
    ∀ n t : Node, P n → r.derefWithin hops n = .ok t → P t := by
  induction hops with
  | zero => exact fun n t _ h => absurd h (by simp only [Registry.derefWithin, reduceCtorEq,
      not_false_eq_true])
  | succ hops ih =>
      intro n t hn h
      unfold Registry.derefWithin at h
      split at h
      · rw [← Except.ok.inj h]
        exact hn
      · split at h
        · rename_i next hnext
          rcases Option.bind_eq_some_iff.mp hnext with ⟨uri, _, hfound⟩
          exact ih _ t (hP.exclusion next _ (hP.node? r uri next hfound)) h
        · exact absurd h (by simp only [reduceCtorEq, not_false_eq_true])
      · exact absurd h (by simp only [reduceCtorEq, not_false_eq_true])

theorem Closed.follow (n t : Node) (hn : P n) (h : r.follow n = .ok t) : P t :=
  hP.derefWithin r maxHops n t hn ((r.follow_eq_ok_iff n t).mp h)

end Closed

theorem mem_documents_of_document? (uri : Uri) (root : Json) (h : r.document? uri = some root) :
    (uri, root) ∈ r.documents := by
  unfold document? at h
  rcases List.lookup_eq_some_iff.mp h with ⟨before, after, hsplit, _⟩
  rw [hsplit]
  exact List.mem_append_right before List.mem_cons_self

theorem holds_of_found (place : Location) (n : Node) (h : r.nodeAt? place = some n) :
    r.Holds n := by
  rcases Option.bind_eq_some_iff.mp h with ⟨root, hroot, hvalue⟩
  rcases Option.bind_eq_some_iff.mp hvalue with ⟨value, hget, hn⟩
  refine ⟨(place.document, root), r.mem_documents_of_document? _ root hroot, ?_⟩
  rw [← Option.some.inj hn]
  exact Pointer.mem_parts_of_get? root value place.pointer hget

theorem closed_holds : r.Closed r.Holds where
  found := r.holds_of_found
  step := by
    rintro n segment m ⟨entry, hentry, hn⟩ hstep _
    exact ⟨entry, hentry,
      Json.mem_parts_trans _ _ _ hn (Pointer.mem_parts_of_canonicalStep? n.value m.value segment hstep)⟩
  exclusion _ _ hn := hn

theorem holds_of_has (n : Node) (h : r.Has n) : r.Holds n :=
  r.holds_of_found n.place n.bare h

/-- A node of the registry has the value at its pointer, and the base there. -/
theorem exists_root_of_has (n : Node) (h : r.Has n) :
    ∃ root, r.document? n.document = some root ∧ Pointer.get? root n.pointer = some n.value
      ∧ n.base = baseAt root n.document n.pointer := by
  rcases Option.bind_eq_some_iff.mp h with ⟨root, hroot, hvalue⟩
  rcases Option.bind_eq_some_iff.mp hvalue with ⟨value, hget, hsome⟩
  have hbare : (⟨value, n.document, n.pointer, baseAt root n.document n.pointer, none⟩ : Node)
      = n.bare := Option.some.inj hsome
  have hsame : value = n.value := congrArg Node.value hbare
  rw [hsame] at hget
  exact ⟨root, hroot, hget, (congrArg Node.base hbare).symm⟩

/-- What is found at a place has that place. -/
theorem place_of_found (place : Location) (n : Node) (h : r.nodeAt? place = some n) :
    n.place = place ∧ n.bare = n := by
  rcases Option.bind_eq_some_iff.mp h with ⟨root, _, hvalue⟩
  rcases Option.bind_eq_some_iff.mp hvalue with ⟨value, _, hn⟩
  rw [← Option.some.inj hn]
  exact ⟨rfl, rfl⟩

theorem has_of_found (place : Location) (n : Node) (h : r.nodeAt? place = some n) : r.Has n := by
  rcases r.place_of_found place n h with ⟨hplace, hbare⟩
  rw [Has, hplace, hbare]
  exact h

/-- Going down by a canonical segment leads to what is found there. -/
theorem nodeAt?_push (place : Location) (n m : Node) (segment : String)
    (hn : r.nodeAt? place = some n)
    (hstep : Pointer.canonicalStep? n.value segment = some m.value)
    (hm : n.step? segment = some m) :
    r.nodeAt? ⟨place.document, Pointer.push place.pointer segment⟩ = some m := by
  rcases Option.bind_eq_some_iff.mp hn with ⟨root, hroot, hvalue⟩
  rcases Option.bind_eq_some_iff.mp hvalue with ⟨value, hget, hsome⟩
  rw [← Option.some.inj hsome] at hstep hm
  refine Option.bind_eq_some_iff.mpr ⟨root, hroot, ?_⟩
  refine Option.bind_eq_some_iff.mpr ⟨m.value, ?_, ?_⟩
  · rw [Pointer.get?_push, hget]
    exact hstep
  · rcases Option.bind_eq_some_iff.mp hm with ⟨next, hnext, hsomem⟩
    rw [← Option.some.inj hsomem]
    refine congrArg some ?_
    simp only [baseAt, Pointer.segments_push]
    rw [baseAlong_append _ [segment] value root _ (Pointer.foldlM_of_get? root value _ hget),
      baseAlong, show Pointer.step? value segment = some next from hnext]
    rfl

theorem closed_has : r.Closed r.Has where
  found := r.has_of_found
  step := by
    intro n segment m hn hstep hm
    have hm' : n.bare.step? segment = some m := hm
    refine r.has_of_found ⟨n.document, Pointer.push n.pointer segment⟩ m ?_
    exact r.nodeAt?_push n.place n.bare m segment hn hstep hm'
  exclusion _ _ hn := hn

section References

/-- References lead to a node without one, and the exclusion stays as it was. -/
theorem derefWithin_spec (hops : Nat) :
    ∀ n t : Node, r.derefWithin hops n = .ok t →
      t.get? "$ref" = none ∧ t.exclusion = n.exclusion := by
  induction hops with
  | zero => exact fun n t h => absurd h (by simp only [derefWithin, reduceCtorEq,
      not_false_eq_true])
  | succ hops ih =>
      intro n t h
      unfold derefWithin at h
      split at h
      · rename_i hnone
        rw [← Except.ok.inj h]
        exact ⟨hnone, rfl⟩
      · split at h
        · rename_i next _
          exact ih { next with exclusion := n.exclusion } t h
        · exact absurd h (by simp only [reduceCtorEq, not_false_eq_true])
      · exact absurd h (by simp only [reduceCtorEq, not_false_eq_true])

/-- The exclusion does not matter for where references lead, and stays on the way. -/
theorem derefWithin_exclusion (e : Option String) (hops : Nat) :
    ∀ n : Node, r.derefWithin hops { n with exclusion := e }
      = (r.derefWithin hops n).map fun t => { t with exclusion := e } := by
  induction hops with
  | zero => exact fun n => rfl
  | succ hops ih =>
      intro n
      have hget : ({ n with exclusion := e } : Node).get? "$ref" = n.get? "$ref" := rfl
      unfold derefWithin
      rw [hget]
      split
      · rfl
      · rename_i reference _
        dsimp only
        cases r.resolve? reference n.base with
        | none => rfl
        | some next => exact ih { next with exclusion := n.exclusion }
      · rfl

theorem deref_excluding (n t : Node) (scope : String) (h : r.deref n = .ok t) :
    r.deref (n.excluding scope) = .ok (t.excluding scope) := by
  refine (r.derefWithin_exclusion (some scope) maxHops n).trans ?_
  rw [show r.derefWithin maxHops n = .ok t from h]
  rfl

/-- Nothing is left to follow. -/
theorem deref_of_deref (n t : Node) (h : r.deref n = .ok t) : r.deref t = .ok t := by
  obtain ⟨hnone, _⟩ := r.derefWithin_spec maxHops n t h
  unfold deref maxHops derefWithin
  rw [hnone]

end References

end Registry

end OpenApi
