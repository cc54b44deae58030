import OpenApi.Proofs.Evaluation.Keyword
import OpenApi.Proofs.Registry.Node

/-!
# What an Evaluation Comes To

From a schema and an instance an evaluation goes on to subschemas and to parts
of the instance. The parts are where conditions on the instance are needed: an
instance without repeated keys has only such parts. The subschemas are nodes
like the one the evaluation started from, so what is closed under the steps
between nodes holds of all of them.

A registry whose documents have no `default` anywhere has none in the schemas of
declared members either, so evaluating `properties` adds no member.

## Main definitions

* `Registry.Reaches`: What an evaluation comes to, and with which part of the instance.

## Theorems

* `mem_parts_of_applies`: Subschemas are applied to parts of the instance.
* `Closed.applies`: A closed property holds of subschemas.
* `addsNothing_of_lacks`: Without defaults no member is added.
-/

namespace OpenApi

namespace Node

theorem mem_parts_of_applies (r : Registry) (n m : Node) (x y : Json) (h : n.Applies r x m y) :
    y ∈ x.parts := by
  cases h with
  | item items i _ _ hitem _ => exact Json.mem_parts_item items y (List.mem_of_getElem? hitem)
  | additionalItem items _ i _ _ _ _ hitem _ =>
      exact Json.mem_parts_item items y (List.mem_of_getElem? hitem)
  | property members name _ _ hmember _ _ => exact Json.mem_parts_member members (name, y) hmember
  | additionalProperty members name _ _ hmember _ _ =>
      exact Json.mem_parts_member members (name, y) hmember
  | member _ _ _ _ => exact Json.mem_parts_self x
  | choice _ _ _ _ _ => exact Json.mem_parts_self x
  | negation _ _ _ => exact Json.mem_parts_self x
  | selection _ _ _ => exact Json.mem_parts_self x

theorem canonical_itemSchema? (n m : Node) (i : Nat) (h : n.itemSchema? i = some m) :
    ∃ segments, n.Canonical segments ∧ n.child? segments = some m := by
  unfold itemSchema? at h
  split at h
  · rename_i items hget
    refine ⟨["items", toString i], ?_, h⟩
    exact canonical_of_get? n m "items" (toString i) _ hget
      (Pointer.step?_eq_canonicalStep? _ _ (Pointer.index?_toString i)) h
  · exact ⟨["items"], canonical_of_index? n m "items" rfl h, h⟩

end Node

namespace Registry

/-- From a schema and an instance an evaluation may come to a schema and a part of
    the instance. -/
inductive Reaches (r : Registry) (n : Node) (x : Json) : Node → Json → Prop where
  /-- It starts with the schema and the instance. -/
  | start : Reaches r n x n x
  /-- The references of a schema are followed, and what is there applies others. -/
  | step (m t k : Node) (y z : Json) :
      Reaches r n x m y → r.follow m = .ok t → t.Applies r y k z → Reaches r n x k z

variable (r : Registry)

/-- An evaluation applies only schemas with the properties of closed ones. -/
theorem Closed.applies {P : Node → Prop} (hP : r.Closed P) (n m : Node) (x y : Json) (hn : P n)
    (h : n.Applies r x m y) : P m := by
  cases h with
  | item items i _ _ _ hschema =>
      rcases Node.canonical_itemSchema? n m i hschema with ⟨segments, hcanonical, hchild⟩
      exact hP.child? r segments n m hn hcanonical hchild
  | additionalItem items _ _ _ _ _ _ _ hchild => exact hP.key r n m "additionalItems" rfl hn hchild
  | property members name _ _ _ hdeclared hchild =>
      rcases hdeclared with ⟨declared, hget⟩
      exact hP.child? r _ n m hn (Node.canonical_property n m declared name hget hchild) hchild
  | additionalProperty members name _ _ _ _ hchild =>
      exact hP.key r n m "additionalProperties" rfl hn hchild
  | member _ _ hbranch _ => exact hP.branches r n m "allOf" hn hbranch
  | choice key _ _ hkey hbranch =>
      rcases hkey with rfl | rfl
      · exact hP.branches r n m "anyOf" hn hbranch
      · exact hP.branches r n m "oneOf" hn hbranch
  | negation _ _ hchild => exact hP.key r n m "not" rfl hn hchild
  | selection _ selected hselects =>
      rcases hselects with ⟨_, _, _, uri, _, _, hfound, _⟩
      exact hP.exclusion selected _ (hP.node? r uri selected hfound)

theorem get?_of_lacks (hlacks : ∀ entry ∈ r.documents, entry.2.Lacks "default") (n : Node)
    (hn : r.Holds n) : n.get? "default" = none := by
  rcases hn with ⟨entry, hentry, hvalue⟩
  have hkeys := hlacks entry hentry n.value hvalue
  unfold Node.get?
  cases hn : n.value with
  | object members =>
      rw [hn] at hkeys
      exact (Ordered.get?_eq_none_iff members "default").mpr hkeys
  | _ => rfl

theorem addsNothing_of_lacks (hlacks : ∀ entry ∈ r.documents, entry.2.Lacks "default") (n : Node)
    (hn : r.Holds n) : n.AddsNothing r := by
  intro declared name schema target hdeclared hchild hfollow
  have hschema : r.Holds schema := r.closed_holds.child? r _ n schema hn
    (Node.canonical_property n schema declared name hdeclared hchild) hchild
  exact r.get?_of_lacks hlacks target (r.closed_holds.follow r schema target hschema hfollow)

end Registry

end OpenApi
