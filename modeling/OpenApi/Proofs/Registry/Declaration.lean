import OpenApi.Proofs.Registry.Node
import OpenApi.Proofs.Registry.Scope
import OpenApi.Proofs.Uri.Relative

/-!
# Declarations of a Document

What registering a document records. The declarations inside it are collected by
going through all of it, from each value to the values below, except below the
keywords that hold instance data. The pointer and the base are handed down on the
way: the pointer is pushed a segment, and the base is changed by every `$id`.

A lookup has only the pointer and goes down by its segments. So every collected
declaration is tied to the path that leads to its object (`mem_collect_iff`): the
pointer of the declaration is the one with the segments of the path, and its
address comes from the base along the path. What is collected has no fragments,
so the two bases agree in their documents only.

The objects of a value repeat no key. Otherwise a declaration below the second of
two members with one key would be recorded at the place of the first.

## Main definitions

* `Pointer.ofSegments`: The pointer with given segments.
* `Json.seek?`: The value at the end of a path, with the base around it.
* `Json.identified?`, `Json.named?`: What the object at the end of a path declares.

## Theorems

* `get?_ofSegments`: Lookups go along the path.
* `nodeAt?_of_seek?`: The node at the end of a path.
* `mem_collect_iff`: Which declarations are collected.
* `mem_identifiers_iff`, `mem_anchors_iff`: What is recorded of them.
-/

namespace OpenApi

namespace Pointer

/-- The pointer with some segments. -/
def ofSegments (path : List String) : String := path.foldl push ""

theorem segments_ofSegments (path : List String) : segments (ofSegments path) = path :=
  segments_foldl_push_empty path

/-- Looking up a pointer of segments goes along the path. -/
theorem get?_ofSegments (root : Json) (path : List String) :
    get? root (ofSegments path) = path.foldlM canonicalStep? root :=
  get?_foldl_push root path ""

theorem escapeChars_eq_self (cs : List Char) (h : ∀ c ∈ cs, c ≠ '~' ∧ c ≠ '/') :
    escapeChars cs = cs := by
  induction cs with
  | nil => rfl
  | cons c rest ih =>
      obtain ⟨htilde, hslash⟩ := h c List.mem_cons_self
      unfold escapeChars at ih ⊢
      rw [List.flatMap_cons, ih fun d hd => h d (List.mem_cons_of_mem c hd), escapeChar,
        if_neg htilde, if_neg hslash, List.singleton_append]

/-- The digits of an array place are written as they are. -/
theorem push_toString (pointer : String) (i : Nat) :
    push pointer (toString i) = pointer ++ "/" ++ toString i := by
  have hlist : (toString i).toList = Nat.toDigits 10 i := Nat.toList_repr
  have hplain : ∀ c ∈ (toString i).toList, c ≠ '~' ∧ c ≠ '/' := by
    intro c hc
    rw [hlist] at hc
    have hdigit := Nat.isDigit_of_mem_toDigits (by decide) (by decide) hc
    exact ⟨fun h => absurd (h ▸ hdigit) (by decide), fun h => absurd (h ▸ hdigit) (by decide)⟩
  unfold push escape
  rw [escapeChars_eq_self _ hplain, String.ofList_toList]

end Pointer

/-- An array place is no keyword. -/
theorem toString_not_mem_dataKeywords (i : Nat) : toString i ∉ dataKeywords := by
  have hnone : ∀ key ∈ dataKeywords, Pointer.canonicalIndex? key = none := by decide +kernel
  intro h
  have hi := hnone _ h
  rw [Pointer.canonicalIndex?_toString] at hi
  exact Option.some_ne_none i hi

namespace Json

/-- The value at the end of a path and the base around it, given the base around
    the value. -/
def seek? (value : Json) (base : Uri) : List String → Option (Json × Uri)
  | [] => some (value, base)
  | segment :: rest =>
    (Pointer.canonicalStep? value segment).bind fun next => seek? next (rebase base value) rest

/-- The text under a key. -/
def textAt? (x : Json) (key : String) : Option String := (x.get? key).bind string?

theorem textAt?_eq_some_iff (x : Json) (key text : String) :
    x.textAt? key = some text ↔ x.get? key = some (.string text) := by
  unfold textAt?
  rcases x.get? key with _ | (_ | _ | _ | other | _ | _)
  case some.string =>
    rw [Option.bind_some, string?, Option.some.injEq, Option.some.injEq, string.injEq]
  all_goals simp only [Option.bind_some, Option.bind_none, string?, reduceCtorEq, Option.some.injEq]

/-- The URI that the `$id` at the end of a path resolves to. -/
def identified? (root : Json) (base : Uri) (path : List String) : Option Uri :=
  (root.seek? base path).bind fun found => (found.1.textAt? "$id").bind found.2.resolve?

/-- The URI that the `$anchor` at the end of a path makes up. -/
def named? (root : Json) (base : Uri) (path : List String) : Option Uri :=
  (root.seek? base path).bind fun found =>
    (found.1.textAt? "$anchor").map (rebase found.2 found.1).document.withFragment

theorem seek?_append (path rest : List String) :
    ∀ (x : Json) (base : Uri), x.seek? base (path ++ rest)
      = (x.seek? base path).bind fun found => found.1.seek? found.2 rest := by
  induction path with
  | nil => exact fun x base => rfl
  | cons segment path ih =>
      intro x base
      rw [List.cons_append, seek?, seek?, Option.bind_assoc]
      exact Option.bind_congr fun next _ => ih next (rebase base x)

theorem map_seek? (path : List String) :
    ∀ (x : Json) (base : Uri), (x.seek? base path).map Prod.fst
      = path.foldlM Pointer.canonicalStep? x := by
  induction path with
  | nil => exact fun x base => rfl
  | cons segment rest ih =>
      intro x base
      rw [seek?, List.foldlM_cons, Option.map_bind]
      exact Option.bind_congr fun next _ => ih next (rebase base x)

theorem foldlM_of_seek? (path : List String) (x y : Json) (base around : Uri)
    (h : x.seek? base path = some (y, around)) :
    path.foldlM Pointer.canonicalStep? x = some y := by
  rw [← map_seek? path x base, h]
  rfl

theorem get?_of_seek? (path : List String) (x y : Json) (base around : Uri)
    (h : x.seek? base path = some (y, around)) :
    Pointer.get? x (Pointer.ofSegments path) = some y := by
  rw [Pointer.get?_ofSegments]
  exact foldlM_of_seek? path x y base around h

theorem exists_seek? (path : List String) (x y : Json) (base : Uri)
    (h : path.foldlM Pointer.canonicalStep? x = some y) :
    ∃ around, x.seek? base path = some (y, around) := by
  rw [← map_seek? path x base] at h
  rcases Option.map_eq_some_iff.mp h with ⟨⟨z, around⟩, hz, rfl⟩
  exact ⟨around, hz⟩

/-- Past the value at the end of a path, the base is what a lookup works out. -/
theorem baseAlong_of_seek? (path : List String) :
    ∀ (x y : Json) (base around : Uri), x.seek? base path = some (y, around) →
      baseAlong x (rebase base x) path = rebase around y := by
  induction path with
  | nil =>
      intro x y base around h
      rw [seek?, Option.some.injEq, Prod.mk.injEq] at h
      rw [h.1, h.2]
      rfl
  | cons segment rest ih =>
      intro x y base around h
      rcases Option.bind_eq_some_iff.mp h with ⟨next, hnext, h⟩
      rw [baseAlong, Pointer.step?_of_canonicalStep? x segment next hnext]
      exact ih next y (rebase base x) around h

end Json

theorem rebase_eq (base : Uri) (x : Json) :
    rebase base x = ((x.textAt? "$id").bind base.resolve?).getD base := by
  unfold rebase Json.textAt?
  rcases x.get? "$id" with _ | (_ | _ | _ | id | _ | _)
  all_goals rfl

theorem isSegmented_rebase (base : Uri) (hbase : base.IsSegmented) (x : Json) :
    (rebase base x).IsSegmented := by
  rw [rebase_eq]
  rcases huri : (x.textAt? "$id").bind base.resolve? with _ | uri
  · exact hbase
  · rcases Option.bind_eq_some_iff.mp huri with ⟨id, _, hresolve⟩
    exact Uri.isSegmented_resolve? base hbase id uri hresolve

theorem isSegmented_of_seek? (path : List String) :
    ∀ (x y : Json) (base around : Uri), base.IsSegmented →
      x.seek? base path = some (y, around) → around.IsSegmented := by
  induction path with
  | nil =>
      intro x y base around hbase h
      rw [Json.seek?, Option.some.injEq, Prod.mk.injEq] at h
      rw [← h.2]
      exact hbase
  | cons segment rest ih =>
      intro x y base around hbase h
      rcases Option.bind_eq_some_iff.mp h with ⟨next, _, h⟩
      exact ih next y (rebase base x) around (isSegmented_rebase base hbase x) h

theorem height_lt_of_canonicalStep? (x y : Json) (segment : String)
    (h : Pointer.canonicalStep? x segment = some y) : y.height < x.height := by
  cases x with
  | object members =>
      exact Json.height_member_lt members (segment, y) (Ordered.mem_of_get? members segment y h)
  | array items =>
      rcases Option.bind_eq_some_iff.mp h with ⟨i, _, hitem⟩
      exact Json.height_item_lt items y (List.mem_of_getElem? hitem)
  | _ => exact absurd h.symm (Option.some_ne_none y)

/-- The node at the end of a path. -/
theorem Registry.nodeAt?_of_seek? (r : Registry) (document : Uri) (root x : Json) (around : Uri)
    (path : List String) (hroot : r.document? document = some root)
    (h : root.seek? document path = some (x, around)) :
    r.nodeAt? ⟨document, Pointer.ofSegments path⟩
      = some ⟨x, document, Pointer.ofSegments path, rebase around x, none⟩ := by
  have hvalue := Json.get?_of_seek? path root x document around h
  refine Option.bind_eq_some_iff.mpr ⟨root, hroot, Option.bind_eq_some_iff.mpr ⟨x, hvalue, ?_⟩⟩
  unfold baseAt
  rw [Pointer.segments_ofSegments, Json.baseAlong_of_seek? path root x document around h]
  rfl

/-- A node of the registry is at the end of a path. -/
theorem Registry.exists_seek?_of_has (r : Registry) (n : Node) (root : Json) (hn : r.Has n)
    (hroot : r.document? n.document = some root) :
    ∃ around, root.seek? n.document (Pointer.segments n.pointer) = some (n.value, around)
      ∧ n.base = rebase around n.value := by
  rcases r.exists_root_of_has n hn with ⟨root', hroot', hget, hbase⟩
  obtain rfl : root' = root := Option.some.inj (hroot'.symm.trans hroot)
  have hfold := Pointer.foldlM_of_get? root' n.value n.pointer hget
  rcases Json.exists_seek? _ root' n.value n.document hfold with ⟨around, hseek⟩
  exact ⟨around, hseek, hbase.trans (Json.baseAlong_of_seek? _ root' n.value n.document around hseek)⟩

namespace Declaration

variable (base document : Uri) (pointer : String)

section Own

variable (x : Json)

theorem own_of_not_object (h : ∀ members, x ≠ .object members) :
    own x base document pointer = (base, []) := by
  cases x with
  | object members => exact absurd rfl (h members)
  | _ => rfl

variable (hbase : base.IsSegmented)

include hbase

/-- What an object declares, by its two texts. The collection has the document of
    the base only, and from there the `$id` leads to the same document. -/
theorem own_eq :
    own x base.document document pointer =
      ((rebase base x).document,
        ((x.textAt? "$id").bind base.resolve?).toList.map
            (fun uri => .identifier uri.document ⟨document, pointer⟩)
          ++ (x.textAt? "$anchor").toList.map
            (fun name => .anchor ((rebase base x).document.withFragment name)
              ⟨document, pointer⟩)) := by
  rw [rebase_eq]
  unfold own Json.textAt?
  rcases x.get? "$id" with _ | (_ | _ | _ | id | _ | _)
  case some.string =>
    have hagree := Uri.map_document_resolve? base hbase id
    rw [Option.bind_some, Json.string?, Option.bind_some]
    dsimp only
    rcases hfull : base.resolve? id with _ | full
    · rw [hfull, Option.map_none, Option.map_eq_none_iff] at hagree
      rw [hagree]
      rcases x.get? "$anchor" with _ | (_ | _ | _ | name | _ | _)
      all_goals rfl
    · rw [hfull, Option.map_some] at hagree
      rcases Option.map_eq_some_iff.mp hagree with ⟨stripped, hstripped, heq⟩
      rw [hstripped]
      dsimp only
      rw [heq]
      rcases x.get? "$anchor" with _ | (_ | _ | _ | name | _ | _)
      all_goals rfl
  all_goals
    rcases x.get? "$anchor" with _ | (_ | _ | _ | name | _ | _)
    all_goals rfl

/-- The base of the collection is the document of the base of a lookup. -/
theorem own_base :
    (own x base.document document pointer).1 = (rebase base x).document := by
  rw [own_eq base document pointer x hbase]

theorem mem_own_iff (d : Declaration) :
    d ∈ (own x base.document document pointer).2
      ↔ (∃ uri, (x.textAt? "$id").bind base.resolve? = some uri
            ∧ d = .identifier uri.document ⟨document, pointer⟩)
          ∨ ∃ name, x.textAt? "$anchor" = some name
            ∧ d = .anchor ((rebase base x).document.withFragment name) ⟨document, pointer⟩ := by
  rw [own_eq base document pointer x hbase, List.mem_append, List.mem_map, List.mem_map]
  simp only [Option.mem_toList, eq_comm (b := d)]

end Own

section Collect

variable (d : Declaration)

theorem mem_collectItems_iff (items : List Json) :
    ∀ i, d ∈ collectItems items i base document pointer
      ↔ ∃ j x, items[j]? = some x
          ∧ d ∈ collect x base document (Pointer.push pointer (toString (i + j))) := by
  induction items with
  | nil =>
      intro i
      rw [collectItems]
      refine ⟨fun h => absurd h List.not_mem_nil, ?_⟩
      rintro ⟨j, x, hx, _⟩
      exact absurd hx.symm (Option.some_ne_none x)
  | cons item rest ih =>
      intro i
      rw [collectItems, List.mem_append, ih, ← Pointer.push_toString]
      constructor
      · rintro (h | ⟨j, x, hx, h⟩)
        · exact ⟨0, item, rfl, h⟩
        · exact ⟨j + 1, x, hx, by rwa [Nat.add_assoc, Nat.add_comm 1 j] at h⟩
      · rintro ⟨j, x, hx, h⟩
        cases j with
        | zero =>
            rw [← Option.some.inj hx] at h
            exact Or.inl h
        | succ j =>
            refine Or.inr ⟨j, x, hx, ?_⟩
            rwa [Nat.add_assoc, Nat.add_comm 1 j]

theorem mem_collectMembers_iff (members : List (String × Json)) :
    d ∈ collectMembers members base document pointer
      ↔ ∃ entry ∈ members, entry.1 ∉ dataKeywords
          ∧ d ∈ collect entry.2 base document (Pointer.push pointer entry.1) := by
  induction members with
  | nil =>
      rw [collectMembers]
      refine ⟨fun h => absurd h List.not_mem_nil, ?_⟩
      rintro ⟨entry, hentry, _⟩
      exact absurd hentry List.not_mem_nil
  | cons entry rest ih =>
      rcases entry with ⟨key, value⟩
      rw [collectMembers, List.mem_append, ih, List.exists_mem_cons_iff]
      refine or_congr ?_ Iff.rfl
      by_cases hkey : key ∈ dataKeywords
      · rw [if_pos hkey]
        exact ⟨fun h => absurd h List.not_mem_nil, fun h => absurd hkey h.1⟩
      · rw [if_neg hkey]
        exact ⟨fun h => ⟨hkey, h⟩, fun h => h.2⟩

/-- A declaration is that of the value itself or is collected one step below. -/
theorem mem_collect_step (x : Json) (hx : x.WellFormed) :
    d ∈ collect x base document pointer
      ↔ d ∈ (own x base document pointer).2
          ∨ ∃ segment y, Pointer.canonicalStep? x segment = some y ∧ segment ∉ dataKeywords
            ∧ d ∈ collect y (own x base document pointer).1 document
                (Pointer.push pointer segment) := by
  cases x with
  | object members =>
      -- No key is repeated, so each member is the one its key leads to.
      have hnodup := ((Json.wellFormed_object_iff members).mp hx).1
      rw [collect]
      dsimp only
      rw [List.mem_append, mem_collectMembers_iff]
      refine or_congr Iff.rfl ⟨?_, ?_⟩
      · rintro ⟨⟨key, y⟩, hentry, hkey, h⟩
        exact ⟨key, y, (Ordered.get?_eq_some_iff members hnodup key y).mpr hentry, hkey, h⟩
      · rintro ⟨key, y, hy, hkey, h⟩
        exact ⟨(key, y), (Ordered.get?_eq_some_iff members hnodup key y).mp hy, hkey, h⟩
  | array items =>
      rw [collect, mem_collectItems_iff, own_of_not_object base document pointer (.array items)
        (by simp only [ne_eq, reduceCtorEq, not_false_eq_true, implies_true])]
      constructor
      · rintro ⟨j, y, hy, h⟩
        rw [Nat.zero_add] at h
        exact Or.inr ⟨toString j, y, (Pointer.canonicalStep?_array items j).trans hy,
          toString_not_mem_dataKeywords j, h⟩
      · rintro (h | ⟨segment, y, hy, _, h⟩)
        · exact absurd h List.not_mem_nil
        · -- Only canonical indices lead to items, and none of them is a keyword for data.
          rcases Option.bind_eq_some_iff.mp hy with ⟨j, hj, hitem⟩
          rw [Pointer.eq_toString_of_canonicalIndex? segment j hj] at h
          exact ⟨j, y, hitem, by rwa [Nat.zero_add]⟩
  | _ =>
      rw [own_of_not_object _ _ _ _ (by
        simp only [ne_eq, reduceCtorEq, not_false_eq_true, implies_true])]
      simp only [collect, List.not_mem_nil, false_or, false_iff, not_exists,
        Pointer.canonicalStep?, Pointer.stepBy?, reduceCtorEq, false_and, not_false_eq_true,
        implies_true]

-- The induction is on the height of the value. The base in front of the step is
-- the one that the collection has by then, up to its fragment (`own_base`).
/-- What is collected inside a value are the declarations of the objects at the
    ends of the paths that avoid instance data. -/
theorem mem_collect_iff (height : Nat) :
    ∀ (x : Json), x.height = height → x.WellFormed → ∀ (base : Uri), base.IsSegmented →
      ∀ pointer, d ∈ collect x base.document document pointer
        ↔ ∃ path y around, x.seek? base path = some (y, around)
          ∧ (∀ segment ∈ path, segment ∉ dataKeywords)
          ∧ d ∈ (own y around.document document (path.foldl Pointer.push pointer)).2 := by
  induction height using Nat.strongRecOn with
  | ind height ih =>
      intro x hheight hx base hbase pointer
      have hnext : ∀ segment y, Pointer.canonicalStep? x segment = some y → ∀ pointer,
          d ∈ collect y (rebase base x).document document pointer
            ↔ ∃ path z around, y.seek? (rebase base x) path = some (z, around)
              ∧ (∀ segment ∈ path, segment ∉ dataKeywords)
              ∧ d ∈ (own z around.document document (path.foldl Pointer.push pointer)).2 := by
        intro segment y hy
        have hlower := height_lt_of_canonicalStep? x y segment hy
        have hpart := Pointer.mem_parts_of_canonicalStep? x y segment hy
        exact ih y.height (hheight ▸ hlower) y rfl (Json.wellFormed_of_mem_parts x y hx hpart) _
          (isSegmented_rebase base hbase x)
      rw [mem_collect_step base.document document pointer d x hx,
        own_base base document pointer x hbase]
      constructor
      · rintro (h | ⟨segment, y, hy, hsegment, h⟩)
        · -- Own declarations belong to the empty path.
          exact ⟨[], x, base, rfl, fun _ hs => absurd hs List.not_mem_nil, h⟩
        · rcases (hnext segment y hy _).mp h with ⟨path, z, around, hseek, hpath, h⟩
          refine ⟨segment :: path, z, around, Option.bind_eq_some_iff.mpr ⟨y, hy, hseek⟩, ?_, h⟩
          exact List.forall_mem_cons.mpr ⟨hsegment, hpath⟩
      · rintro ⟨path, z, around, hseek, hpath, h⟩
        cases path with
        | nil =>
            rw [Json.seek?, Option.some.injEq, Prod.mk.injEq] at hseek
            rw [← hseek.1, ← hseek.2] at h
            exact Or.inl h
        | cons segment path =>
            rcases Option.bind_eq_some_iff.mp hseek with ⟨y, hy, hseek⟩
            rcases List.forall_mem_cons.mp hpath with ⟨hsegment, hpath⟩
            exact Or.inr ⟨segment, y, hy, hsegment,
              (hnext segment y hy _).mpr ⟨path, z, around, hseek, hpath, h⟩⟩

end Collect

section Recorded

variable (root : Json) (hroot : root.WellFormed) (hsegmented : document.IsSegmented)
  (hdocument : document.document = document) (uri : Uri) (place : Location)

include hroot hsegmented hdocument

/-- The declarations of a document, path by path. -/
theorem mem_collect_root_iff (d : Declaration) :
    d ∈ collect root document document ""
      ↔ ∃ path, (∀ segment ∈ path, segment ∉ dataKeywords)
        ∧ ((∃ full, root.identified? document path = some full
              ∧ d = .identifier full.document ⟨document, Pointer.ofSegments path⟩)
            ∨ ∃ uri, root.named? document path = some uri
              ∧ d = .anchor uri ⟨document, Pointer.ofSegments path⟩) := by
  have h := mem_collect_iff document d root.height root rfl hroot document hsegmented ""
  rw [hdocument] at h
  refine h.trans (exists_congr fun path => ?_)
  have hinside : ∀ x around, root.seek? document path = some (x, around) → around.IsSegmented :=
    fun x around => isSegmented_of_seek? path root x document around hsegmented
  unfold Json.identified? Json.named?
  constructor
  · rintro ⟨x, around, hseek, hpath, hd⟩
    have hown := mem_own_iff around document (Pointer.ofSegments path) x (hinside x around hseek) d
    rw [hseek, Option.bind_some, Option.bind_some]
    refine ⟨hpath, (hown.mp hd).imp_right ?_⟩
    rintro ⟨name, hname, hd⟩
    exact ⟨_, Option.map_eq_some_iff.mpr ⟨name, hname, rfl⟩, hd⟩
  · rintro ⟨hpath, ⟨full, hfull, hd⟩ | ⟨uri, huri, hd⟩⟩
    · rcases Option.bind_eq_some_iff.mp hfull with ⟨⟨x, around⟩, hseek, hfull⟩
      have hown := mem_own_iff around document (Pointer.ofSegments path) x (hinside x around hseek) d
      exact ⟨x, around, hseek, hpath, hown.mpr (Or.inl ⟨full, hfull, hd⟩)⟩
    · rcases Option.bind_eq_some_iff.mp huri with ⟨⟨x, around⟩, hseek, huri⟩
      rcases Option.map_eq_some_iff.mp huri with ⟨name, hname, rfl⟩
      have hown := mem_own_iff around document (Pointer.ofSegments path) x (hinside x around hseek) d
      exact ⟨x, around, hseek, hpath, hown.mpr (Or.inr ⟨name, hname, hd⟩)⟩

/-- The identifiers of a document, each without the fragment it may come with. -/
theorem mem_identifiers_iff :
    (uri, place) ∈ (collect root document document "").filterMap identifier?
      ↔ ∃ path full, root.identified? document path = some full
        ∧ (∀ segment ∈ path, segment ∉ dataKeywords)
        ∧ uri = full.document ∧ place = ⟨document, Pointer.ofSegments path⟩ := by
  rw [List.mem_filterMap]
  constructor
  · rintro ⟨d, hd, hentry⟩
    rcases (mem_collect_root_iff document root hroot hsegmented hdocument d).mp hd with
      ⟨path, hpath, ⟨full, hfull, rfl⟩ | ⟨_, _, rfl⟩⟩
    · rw [identifier?, Option.some.injEq, Prod.mk.injEq] at hentry
      exact ⟨path, full, hfull, hpath, hentry.1.symm, hentry.2.symm⟩
    · exact absurd hentry.symm (Option.some_ne_none _)
  · rintro ⟨path, full, hfull, hpath, rfl, rfl⟩
    exact ⟨_, (mem_collect_root_iff document root hroot hsegmented hdocument _).mpr
      ⟨path, hpath, Or.inl ⟨full, hfull, rfl⟩⟩, rfl⟩

/-- The anchors of a document. -/
theorem mem_anchors_iff :
    (uri, place) ∈ (collect root document document "").filterMap anchor?
      ↔ ∃ path, root.named? document path = some uri ∧ (∀ segment ∈ path, segment ∉ dataKeywords)
        ∧ place = ⟨document, Pointer.ofSegments path⟩ := by
  rw [List.mem_filterMap]
  constructor
  · rintro ⟨d, hd, hentry⟩
    rcases (mem_collect_root_iff document root hroot hsegmented hdocument d).mp hd with
      ⟨path, hpath, ⟨_, _, rfl⟩ | ⟨named, hnamed, rfl⟩⟩
    · exact absurd hentry.symm (Option.some_ne_none _)
    · rw [anchor?, Option.some.injEq, Prod.mk.injEq] at hentry
      exact ⟨path, hentry.1 ▸ hnamed, hpath, hentry.2.symm⟩
  · rintro ⟨path, hnamed, hpath, rfl⟩
    exact ⟨_, (mem_collect_root_iff document root hroot hsegmented hdocument _).mpr
      ⟨path, hpath, Or.inr ⟨uri, hnamed, rfl⟩⟩, rfl⟩

end Recorded

end Declaration

end OpenApi
