import OpenApi.Proofs.Registry.Node

/-!
# All Places of a Registry

A registry is finite, and so are the ways to address something in it. A value has
finitely many parts, each is reached by one sequence of segments, and a segment
is written in finitely many ways, since a tilde that no digit follows may stand
for itself. All this is listed here, with the pointers in all their spellings.

The list holds some pointers that lead nowhere, which does no harm. What counts
is that every node of the registry is at a listed place, so that there are only
finitely many of them, up to exclusions.

## Main definitions

* `Pointer.spellings`: The ways to write a segment.
* `Pointer.spelled`: The pointers into a value.
* `Registry.nodes`: The nodes of a registry.

## Theorems

* `exists_path_of_get?`: The written segments of a pointer.
* `mem_spelled_of_get?`: Every pointer that names a value is listed.
* `mem_nodes_of_has`: Every node is listed.
-/

namespace OpenApi

namespace Pointer

/-- The ways to write the characters of a segment. -/
def spellings : List Char → List (List Char)
  | [] => [[]]
  | c :: rest =>
    (spellings rest).flatMap fun cs =>
      [c :: cs] ++ (if c = '~' then ['~' :: '0' :: cs] else [])
        ++ (if c = '/' then ['~' :: '1' :: cs] else [])

/-- The pointers that start with a segment and go on with one of some pointers. -/
def below (segment : String) (pointers : List (List Char)) : List (List Char) :=
  (spellings segment.toList).flatMap fun cs => pointers.map fun p => '/' :: cs ++ p

mutual

/-- The pointers into a value, in all their spellings. -/
def spelled : Json → List (List Char)
  | .array items => [] :: spelledItems items 0
  | .object members => [] :: spelledMembers members
  | _ => [[]]

/-- The pointers into the items of an array from place `i` on. -/
def spelledItems (items : List Json) (i : Nat) : List (List Char) :=
  match items with
  | [] => []
  | x :: rest => below (toString i) (spelled x) ++ spelledItems rest (i + 1)

/-- The pointers into the members of an object. -/
def spelledMembers (members : List (String × Json)) : List (List Char) :=
  match members with
  | [] => []
  | (key, x) :: rest => below key (spelled x) ++ spelledMembers rest

end

theorem mem_spellings (cs : List Char) : cs ∈ spellings (unescapeChars cs) := by
  induction cs using unescapeChars.induct with
  | case1 => exact List.mem_singleton_self _
  | case2 rest ih =>
      rw [unescapeChars, spellings]
      refine List.mem_flatMap.mpr ⟨rest, ih, ?_⟩
      exact List.mem_append_left _ (List.mem_append_right _ (List.mem_singleton_self _))
  | case3 rest ih =>
      rw [unescapeChars, spellings]
      refine List.mem_flatMap.mpr ⟨rest, ih, ?_⟩
      exact List.mem_append_right _ (List.mem_singleton_self _)
  | case4 c rest h0 h1 ih =>
      rw [unescapeChars, spellings]
      · refine List.mem_flatMap.mpr ⟨rest, ih, ?_⟩
        exact List.mem_append_left _ (List.mem_append_left _ (List.mem_singleton_self _))
      · exact h0
      · exact h1

theorem mem_below (segment : String) (pointers : List (List Char)) (cs p : List Char)
    (hcs : String.ofList (unescapeChars cs) = segment) (hp : p ∈ pointers) :
    '/' :: cs ++ p ∈ below segment pointers := by
  refine List.mem_flatMap.mpr ⟨cs, ?_, List.mem_map.mpr ⟨p, hp, rfl⟩⟩
  rw [← hcs, String.toList_ofList]
  exact mem_spellings cs

theorem mem_spelledItems (items : List Json) (x : Json) (cs p : List Char) (hp : p ∈ spelled x) :
    ∀ i j, items[i]? = some x → String.ofList (unescapeChars cs) = toString (j + i) →
      '/' :: cs ++ p ∈ spelledItems items j := by
  induction items with
  | nil => exact fun i j h _ => absurd h (by simp only [List.getElem?_nil, reduceCtorEq,
      not_false_eq_true])
  | cons first rest ih =>
      intro i j h hcs
      rw [spelledItems]
      cases i with
      | zero =>
          rw [List.getElem?_cons_zero, Option.some.injEq] at h
          rw [h]
          exact List.mem_append_left _ (mem_below _ _ cs p hcs hp)
      | succ i =>
          rw [List.getElem?_cons_succ] at h
          refine List.mem_append_right _ (ih i (j + 1) h ?_)
          rw [hcs, Nat.add_assoc, Nat.add_comm 1 i]

theorem mem_spelledMembers (members : List (String × Json)) (key : String) (x : Json)
    (cs p : List Char) (hmem : (key, x) ∈ members) (hcs : String.ofList (unescapeChars cs) = key)
    (hp : p ∈ spelled x) : '/' :: cs ++ p ∈ spelledMembers members := by
  induction members with
  | nil => exact absurd hmem List.not_mem_nil
  | cons first rest ih =>
      rw [spelledMembers]
      rcases List.mem_cons.mp hmem with rfl | hrest
      · exact List.mem_append_left _ (mem_below _ _ cs p hcs hp)
      · exact List.mem_append_right _ (ih hrest)

theorem nil_mem_spelled (x : Json) : [] ∈ spelled x := by
  cases x with
  | array items => exact List.mem_cons_self
  | object members => exact List.mem_cons_self
  | _ => exact List.mem_cons_self

/-- Segment by segment, each as it is written. -/
theorem mem_spelled_of_foldlM (path : List (List Char)) :
    ∀ root value : Json,
      (path.map fun cs => String.ofList (unescapeChars cs)).foldlM canonicalStep? root = some value →
        path.flatMap (fun cs => '/' :: cs) ∈ spelled root := by
  induction path with
  | nil => exact fun root _ _ => nil_mem_spelled root
  | cons cs path ih =>
      intro root value h
      rw [List.map_cons, List.foldlM_cons] at h
      rcases Option.bind_eq_some_iff.mp h with ⟨next, hnext, hrest⟩
      -- The path goes on from a member, whatever its spelling, or from the item at a place.
      have hpath := ih next value hrest
      rw [List.flatMap_cons]
      cases root with
      | object members =>
          rw [spelled]
          exact List.mem_cons_of_mem _ (mem_spelledMembers members _ next cs _
            (Ordered.mem_of_get? members _ next hnext) rfl hpath)
      | array items =>
          rcases Option.bind_eq_some_iff.mp hnext with ⟨i, hi, hitem⟩
          rw [spelled]
          refine List.mem_cons_of_mem _ (mem_spelledItems items next cs _ hpath i 0 hitem ?_)
          rw [Nat.zero_add]
          exact eq_toString_of_canonicalIndex? _ i hi
      | _ => exact absurd hnext (by simp only [canonicalStep?, stepBy?, reduceCtorEq,
          not_false_eq_true])

/-- A pointer that leads somewhere consists of slashes and of written segments. -/
theorem exists_path_of_get? (root value : Json) (pointer : String)
    (h : get? root pointer = some value) :
    ∃ path : List (List Char), pointer.toList = path.flatMap (fun cs => '/' :: cs)
      ∧ (path.map fun cs => String.ofList (unescapeChars cs)).foldlM canonicalStep? root
        = some value := by
  have hfold := foldlM_of_get? root value pointer h
  unfold get? at h
  split at h
  · rename_i hempty
    exact ⟨[], hempty, h⟩
  · rename_i rest hpointer
    refine ⟨Text.splitBy (· == '/') rest, hpointer.trans (Text.flatMap_splitBy '/' rest).symm, ?_⟩
    unfold segments Text.splitAll at hfold
    rw [hpointer, ← List.nil_append ('/' :: rest), Text.splitBy_append _ '/' rfl] at hfold
    rw [← hfold]
    congr 1
    simp only [Text.splitBy, List.singleton_append, List.map_cons, List.drop_succ_cons,
      List.drop_zero, List.map_map]
    refine List.map_congr_left fun part _ => ?_
    rw [Function.comp_apply, unescape, String.toList_ofList]
  · exact absurd h (by simp only [reduceCtorEq, not_false_eq_true])

theorem mem_spelled_of_get? (root value : Json) (pointer : String)
    (h : get? root pointer = some value) : pointer.toList ∈ spelled root := by
  obtain ⟨path, hpath, hfold⟩ := exists_path_of_get? root value pointer h
  rw [hpath]
  exact mem_spelled_of_foldlM path root value hfold

end Pointer

namespace Registry

/-- The nodes at all places of a registry, without exclusions. -/
def nodes (r : Registry) : List Node :=
  r.documents.flatMap fun entry =>
    (Pointer.spelled entry.2).filterMap fun p => r.nodeAt? ⟨entry.1, String.ofList p⟩

theorem mem_nodes_of_has (r : Registry) (n : Node) (h : r.Has n) : n.bare ∈ r.nodes := by
  rcases Option.bind_eq_some_iff.mp h with ⟨root, hroot, hvalue⟩
  rcases Option.bind_eq_some_iff.mp hvalue with ⟨value, hget, _⟩
  refine List.mem_flatMap.mpr
    ⟨(n.document, root), r.mem_documents_of_document? n.document root hroot, ?_⟩
  refine List.mem_filterMap.mpr
    ⟨n.pointer.toList, Pointer.mem_spelled_of_get? root value n.pointer hget, ?_⟩
  rw [String.ofList_toList]
  exact h

end Registry

end OpenApi
