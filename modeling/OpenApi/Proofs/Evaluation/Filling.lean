import OpenApi.Proofs.Evaluation.Members
import OpenApi.Proofs.Json.Identical
import OpenApi.Proofs.Registry.Node
import OpenApi.Schema.Validator

/-!
# Declared Members and Their Defaults

What `properties` makes of the members of an object, said of one name at a time.
A member that is declared is replaced by what its schema returns; one that is
declared but absent is added with its default, if it has one; every other member
stays as it is. The loop over the declared names scrambles the members on its
way, so lookups are what can be followed through it. The order is restored at
the end: the members that were there come first, in the order they had.

Said of the object as a whole, nothing gets lost, doubled or moved. The members
that were there fall into those with a declared schema, which carry what that
schema returned, and the others, which are as they were; and what follows them are
exactly the defaults of absent ones.

A member that is accepted unchanged, or absent without a default, is left alone.
If this is so for every declared name, the whole object is.

## Main definitions

* `Node.Fills`: What becomes of the member under a name.
* `Node.Carries`: What becomes of a member that is there.
* `Node.Defaults`: What an absent member is added with.

## Theorems

* `fills_of_places`, `fills_of_placesAll`: One step of the loop, and the loop.
* `exists_of_applyProperties`: What `properties` returns, one name at a time.
* `exists_append_of_applyProperties`, `evaluateKeyword_properties`: What it returns as a
  whole.
* `applyProperties_eq_self`: When `properties` returns its instance.
-/

namespace OpenApi

namespace Node

variable (n : Node) (r : Registry) (evaluate : Evaluation) (path : String)

/-- What `properties` makes of the member under a name, be it there or not. -/
def Fills (name : String) (before after : Option Json) : Prop :=
  match n.child? ["properties", name], before with
  | none, _ => after = before
  | some schema, some value =>
      ∃ value', after = some value' ∧ evaluate schema (Pointer.push path name) value = .ok value'
  | some schema, none => schema.default? r = .ok after

/-- What `properties` makes of a member of the instance: the value that the declared
    schema returns for it, or the value it has. -/
def Carries (declared : Ordered Json) (before after : String × Json) : Prop :=
  after.1 = before.1 ∧
    if before.1 ∈ Ordered.keys declared then
      ∃ schema, n.child? ["properties", before.1] = some schema
        ∧ evaluate schema (Pointer.push path before.1) before.2 = .ok after.2
    else after.2 = before.2

/-- The schema that is declared for a name leads to one with a default. -/
def Defaults (name : String) (value : Json) : Prop :=
  ∃ schema target, n.child? ["properties", name] = some schema ∧ r.follow schema = .ok target
    ∧ target.get? "default" = some value

theorem default?_eq_ok_iff (schema : Node) (value? : Option Json) :
    schema.default? r = .ok value?
      ↔ ∃ target, r.follow schema = .ok target ∧ target.get? "default" = value? := by
  unfold default?
  rw [bind_eq_ok_iff]
  exact exists_congr fun target => and_congr_right fun _ =>
    ⟨fun h => Except.ok.inj h, fun h => congrArg Except.ok h⟩

/-- What is absent is filled with its default. -/
theorem fills_none_iff (name : String) (value : Json) :
    n.Fills r evaluate path name none (some value) ↔ n.Defaults r name value := by
  unfold Fills Defaults
  cases n.child? ["properties", name] with
  | none => simp only [reduceCtorEq, false_and, exists_false]
  | some schema =>
      simp only [default?_eq_ok_iff, Option.some.injEq, exists_and_left, exists_eq_left']

theorem fills_undeclared (name : String) (value? : Option Json)
    (hchild : n.child? ["properties", name] = none) : n.Fills r evaluate path name value? value? := by
  unfold Fills
  rw [hchild]

/-- A member that is there does not get lost. -/
theorem ne_none_of_fills (name : String) (value : Json) (after : Option Json)
    (h : n.Fills r evaluate path name (some value) after) : after ≠ none := by
  unfold Fills at h
  split at h
  · exact fun hnone => nomatch h.symm.trans hnone
  · obtain ⟨value', hvalue', _⟩ := h
    exact fun hnone => nomatch hvalue'.symm.trans hnone
  · rename_i hvalue
    exact nomatch hvalue

/-- A step of the loop changes one member, and keeps the keys distinct. -/
theorem fills_of_places (name : String) (members members' : Ordered Json)
    (hnodup : (Ordered.keys members).Nodup) (h : n.Places r evaluate path name members members') :
    (Ordered.keys members').Nodup
      ∧ n.Fills r evaluate path name (Ordered.get? members name) (Ordered.get? members' name)
      ∧ ∀ other, other ≠ name → Ordered.get? members' other = Ordered.get? members other := by
  -- Only `present` takes something out, and it puts a value back under the same key.
  cases h with
  | undeclared hchild => exact ⟨hnodup, n.fills_undeclared r evaluate path name _ hchild, fun _ _ => rfl⟩
  | present schema value value' hchild hvalue hevaluate =>
      refine ⟨?_, ?_, fun other hother => ?_⟩
      · have hperm := Ordered.insert_erase_perm members hnodup name value value' hvalue
        rw [(Ordered.keys_perm _ _ hperm).nodup_iff, Ordered.keys_replace]
        exact hnodup
      · unfold Fills
        rw [hchild, hvalue, Ordered.get?_insert, if_pos rfl]
        exact ⟨value', rfl, hevaluate⟩
      · rw [Ordered.get?_insert, if_neg hother]
        exact Ordered.get?_erase_of_ne members hnodup name value hvalue other hother
  | added schema value hchild hvalue hdefault =>
      have habsent := (Ordered.get?_eq_none_iff members name).mp hvalue
      refine ⟨?_, ?_, fun other hother => ?_⟩
      · rw [Ordered.keys_insert, if_neg habsent]
        exact List.nodup_append_comm.mp (List.nodup_cons.mpr ⟨habsent, hnodup⟩)
      · unfold Fills
        rw [hchild, hvalue, Ordered.get?_insert, if_pos rfl]
        exact hdefault
      · rw [Ordered.get?_insert, if_neg hother]
  | absent schema hchild hvalue hdefault =>
      refine ⟨hnodup, ?_, fun _ _ => rfl⟩
      unfold Fills
      rw [hchild, hvalue]
      exact hdefault

/-- A step of the loop over declared names comes to one member only, and keeps the keys
    distinct. -/
theorem others_of_visits (p p' : Progress) (name : String)
    (hnodup : (Ordered.keys p.members).Nodup) (h : n.Visits r evaluate path name p p') :
    (Ordered.keys p'.members).Nodup
      ∧ ∀ other, other ≠ name → Ordered.get? p'.members other = Ordered.get? p.members other := by
  -- A member that is rejected is put back as one that is accepted unchanged.
  have hplaces : ∃ evaluate', n.Places r evaluate' path name p.members p'.members := by
    cases h with
    | accepted _ hplaces => exact ⟨evaluate, hplaces⟩
    | rejected schema value w hchild hvalue _ =>
        exact ⟨fun _ _ x => .ok x, .present schema value value hchild hvalue rfl⟩
  obtain ⟨evaluate', hplaces⟩ := hplaces
  obtain ⟨hnodup', _, hothers⟩ :=
    n.fills_of_places r evaluate' path name p.members p'.members hnodup hplaces
  exact ⟨hnodup', hothers⟩

/-- The loop changes the members it comes to, each of them once. -/
theorem fills_of_placesAll (names : List String) (members members' : Ordered Json)
    (h : n.PlacesAll r evaluate path names members members') :
    names.Nodup → (Ordered.keys members).Nodup →
      (Ordered.keys members').Nodup
        ∧ (∀ name ∈ names,
            n.Fills r evaluate path name (Ordered.get? members name) (Ordered.get? members' name))
        ∧ ∀ name, name ∉ names → Ordered.get? members' name = Ordered.get? members name := by
  induction h with
  | nil members => exact fun _ hnodup => ⟨hnodup, fun _ hname => absurd hname List.not_mem_nil,
      fun _ _ => rfl⟩
  | cons name names members next last hnext _ ih =>
      intro hnames hnodup
      rw [List.nodup_cons] at hnames
      obtain ⟨hnodup', hfills, hothers⟩ :=
        n.fills_of_places r evaluate path name members next hnodup hnext
      obtain ⟨hnodup'', hrest, hleft⟩ := ih hnames.2 hnodup'
      refine ⟨hnodup'', fun key hkey => ?_, fun key hkey => ?_⟩
      · rcases List.mem_cons.mp hkey with rfl | hkey
        · -- The rest of the loop does not come back to this name.
          rw [hleft key hnames.1]
          exact hfills
        · rw [← hothers key fun hc => hnames.1 (hc ▸ hkey)]
          exact hrest key hkey
      · rw [List.mem_cons, not_or] at hkey
        rw [hleft key hkey.2, hothers key hkey.1]

/-- What is not declared has no schema. -/
theorem child?_of_undeclared (declared : Ordered Json)
    (hdeclared : n.get? "properties" = some (.object declared)) (name : String)
    (hname : name ∉ Ordered.keys declared) : n.child? ["properties", name] = none := by
  rcases hchild : n.child? ["properties", name] with _ | m
  · rfl
  · have hvalue := n.step?_of_get? m "properties" name (.object declared) hdeclared hchild
    have habsent := (Ordered.get?_eq_none_iff declared name).mpr hname
    exact nomatch habsent.symm.trans hvalue

/-- What is declared has one. -/
theorem exists_child?_of_declared (declared : Ordered Json)
    (hdeclared : n.get? "properties" = some (.object declared)) (name : String)
    (hname : name ∈ Ordered.keys declared) : ∃ m, n.child? ["properties", name] = some m := by
  rcases hchild : n.child? ["properties", name] with _ | m
  · have hvalue := n.map_value_below "properties" name (.object declared) hdeclared
    rw [hchild] at hvalue
    exact absurd hname ((Ordered.get?_eq_none_iff declared name).mp hvalue.symm)
  · exact ⟨m, rfl⟩

theorem declares_iff (declared : Ordered Json)
    (hdeclared : n.get? "properties" = some (.object declared)) (name : String) :
    n.declares name = true ↔ name ∈ Ordered.keys declared := by
  unfold declares
  rw [hdeclared]
  change (Ordered.get? declared name).isSome = true ↔ _
  rw [Option.isSome_iff_ne_none, Ne, Ordered.get?_eq_none_iff, not_not]

section Stable

variable (members : Ordered Json) (hnodup : (Ordered.keys members).Nodup)

include hnodup

/-- A step that leaves its member as it is gives the same members in some order. -/
theorem exists_places_of_fills (name : String) (current : Ordered Json)
    (hperm : List.Perm current members)
    (h : n.Fills r evaluate path name (Ordered.get? members name) (Ordered.get? members name)) :
    ∃ next, n.Places r evaluate path name current next ∧ List.Perm next members := by
  have hcurrent := (Ordered.keys_perm _ _ hperm).nodup_iff.mpr hnodup
  have hsame := Ordered.get?_perm current members hcurrent hperm name
  rw [← hsame] at h
  unfold Fills at h
  split at h
  · rename_i hchild
    exact ⟨current, .undeclared hchild, hperm⟩
  · -- The member is taken out and put back with the value it had.
    rename_i schema value hchild hvalue
    obtain ⟨value', hvalue', hevaluate⟩ := h
    rw [← Option.some.inj (hvalue.symm.trans hvalue')] at hevaluate
    exact ⟨_, .present schema value value hchild hvalue hevaluate,
      (Ordered.insert_erase_self_perm current hcurrent name value hvalue).trans hperm⟩
  · rename_i schema hchild hvalue
    rw [hvalue] at h
    exact ⟨current, .absent schema hchild hvalue h, hperm⟩

theorem exists_placesAll_of_fills (names : List String)
    (h : ∀ name ∈ names, n.Fills r evaluate path name (Ordered.get? members name)
      (Ordered.get? members name)) :
    ∀ current : Ordered Json, List.Perm current members →
      ∃ last, n.PlacesAll r evaluate path names current last ∧ List.Perm last members := by
  induction names with
  | nil => exact fun current hperm => ⟨current, .nil current, hperm⟩
  | cons name rest ih =>
      intro current hperm
      obtain ⟨next, hnext, hperm'⟩ := n.exists_places_of_fills r evaluate path members hnodup name
        current hperm (h name List.mem_cons_self)
      obtain ⟨last, hlast, hend⟩ := ih (fun other hother => h other (List.mem_cons_of_mem name hother))
        next hperm'
      exact ⟨last, .cons name rest current next last hnext hlast, hend⟩

end Stable

section Declared

variable (declared : Ordered Json) (hdeclared : n.get? "properties" = some (.object declared))
  (hnames : (Ordered.keys declared).Nodup) (members : Ordered Json)
  (hnodup : (Ordered.keys members).Nodup)

include hdeclared hnames hnodup

/-- The members that were there keep their places, and added ones follow. -/
theorem exists_of_applyProperties (y : Json)
    (h : n.applyProperties r evaluate path (.object members) = .ok y) :
    ∃ members', y = .object members' ∧ Ordered.keys members <+: Ordered.keys members'
      ∧ (Ordered.keys members').Nodup
      ∧ ∀ name, n.Fills r evaluate path name (Ordered.get? members name)
          (Ordered.get? members' name) := by
  obtain ⟨last, hplaces, hy⟩ :=
    (n.applyProperties_eq_ok_iff r evaluate path declared hdeclared members y).mp h
  obtain ⟨hlast, hfills, hleft⟩ :=
    n.fills_of_placesAll r evaluate path _ members last hplaces hnames hnodup
  have hall : ∀ name, n.Fills r evaluate path name (Ordered.get? members name)
      (Ordered.get? last name) := by
    intro name
    by_cases hname : name ∈ Ordered.keys declared
    · exact hfills name hname
    · rw [hleft name hname]
      exact n.fills_undeclared r evaluate path name _
        (n.child?_of_undeclared declared hdeclared name hname)
  -- No member is lost, so all keys of the original members can be restored.
  have hsubset : ∀ key ∈ Ordered.keys members, key ∈ Ordered.keys last := by
    intro key hkey
    by_contra habsent
    have hnone := (Ordered.get?_eq_none_iff last key).mpr habsent
    rcases hvalue : Ordered.get? members key with _ | value
    · exact (Ordered.get?_eq_none_iff members key).mp hvalue hkey
    · exact n.ne_none_of_fills r evaluate path key value _ (hvalue ▸ hall key) hnone
  obtain ⟨hperm, hprefix⟩ :=
    Ordered.restore_of_subset (Ordered.keys members) hnodup last hlast hsubset
  have hrestored := (Ordered.keys_perm _ _ hperm).nodup_iff.mpr hlast
  refine ⟨_, hy, hprefix, hrestored, fun name => ?_⟩
  rw [Ordered.get?_perm _ _ hrestored hperm name]
  exact hall name

omit hnames in
/-- An object is returned as it is if each declared member stays as it is. -/
theorem applyProperties_eq_self
    (h : ∀ name ∈ Ordered.keys declared, n.Fills r evaluate path name
      (Ordered.get? members name) (Ordered.get? members name)) :
    n.applyProperties r evaluate path (.object members) = .ok (.object members) := by
  obtain ⟨last, hplaces, hperm⟩ := n.exists_placesAll_of_fills r evaluate path members hnodup
    (Ordered.keys declared) h members (List.Perm.refl members)
  refine (n.applyProperties_eq_ok_iff r evaluate path declared hdeclared members _).mpr
    ⟨last, hplaces, ?_⟩
  obtain ⟨extra, hextra, hrestore⟩ := Ordered.restore_of_perm members [] last
    (by rwa [List.append_nil]) (by rwa [List.append_nil])
  rw [hrestore, hextra.eq_nil, List.append_nil]

omit hnames hnodup in
/-- A default belongs to a declared name. -/
theorem mem_keys_of_defaults (name : String) (value : Json) (h : n.Defaults r name value) :
    name ∈ Ordered.keys declared := by
  obtain ⟨schema, _, hchild, _, _⟩ := h
  by_contra hname
  exact nomatch hchild.symm.trans (n.child?_of_undeclared declared hdeclared name hname)

omit hnames hnodup in
/-- A member that is there carries what its name makes of it. -/
theorem carries_of_fills (before after : String × Json) (hkey : after.1 = before.1)
    (h : n.Fills r evaluate path before.1 (some before.2) (some after.2)) :
    n.Carries evaluate path declared before after := by
  refine ⟨hkey, ?_⟩
  by_cases hname : before.1 ∈ Ordered.keys declared
  · rw [if_pos hname]
    obtain ⟨m, hm⟩ := n.exists_child?_of_declared declared hdeclared before.1 hname
    unfold Fills at h
    rw [hm] at h
    obtain ⟨value, hvalue, hevaluate⟩ := h
    rw [← Option.some.inj hvalue] at hevaluate
    exact ⟨m, hm, hevaluate⟩
  · rw [if_neg hname]
    unfold Fills at h
    rw [n.child?_of_undeclared declared hdeclared before.1 hname] at h
    exact Option.some.inj h

/-- The members fall into those that were there, in their order, and the defaults of
    absent ones. -/
theorem exists_append_of_applyProperties (y : Json)
    (h : n.applyProperties r evaluate path (.object members) = .ok y) :
    ∃ kept added : Ordered Json, y = .object (kept ++ added)
      ∧ (Ordered.keys (kept ++ added)).Nodup
      ∧ List.Forall₂ (n.Carries evaluate path declared) members kept
      ∧ ∀ name value, (name, value) ∈ added
          ↔ name ∈ Ordered.keys declared ∧ name ∉ Ordered.keys members
            ∧ n.Defaults r name value := by
  obtain ⟨all, hy, hprefix, hdistinct, hfills⟩ :=
    n.exists_of_applyProperties r evaluate path declared hdeclared hnames members hnodup y h
  obtain ⟨kept, added, rfl, hkeys⟩ := Ordered.exists_append_of_prefix _ all hprefix
  have hlookup := Ordered.get?_eq_some_iff (kept ++ added) hdistinct
  refine ⟨kept, added, hy, hdistinct, ?_, fun name value => ⟨fun hadded => ?_, ?_⟩⟩
  · refine Ordered.forall₂_of_keys _ members kept hkeys fun before hbefore after hafter hkey => ?_
    refine n.carries_of_fills r evaluate path declared hdeclared before after hkey ?_
    -- Both members are found under the key they share.
    have hafter' := (hlookup after.1 after.2).mpr (List.mem_append_left added hafter)
    rw [← (Ordered.get?_eq_some_iff members hnodup _ _).mpr hbefore, ← hafter', hkey]
    exact hfills before.1
  · have habsent : name ∉ Ordered.keys members := by
      rw [← hkeys]
      intro hkept
      rw [Ordered.keys, List.map_append] at hdistinct
      exact List.disjoint_of_nodup_append hdistinct hkept
        (Ordered.mem_keys_of_mem added name value hadded)
    have hfill := hfills name
    rw [(Ordered.get?_eq_none_iff members name).mpr habsent,
      (hlookup name value).mpr (List.mem_append_right kept hadded), fills_none_iff] at hfill
    exact ⟨n.mem_keys_of_defaults r declared hdeclared name value hfill, habsent, hfill⟩
  · rintro ⟨_, habsent, schema, target, hchild, htarget, hvalue⟩
    have hdefault := (default?_eq_ok_iff r schema (some value)).mpr
      ⟨target, htarget, hvalue⟩
    have hfill := hfills name
    unfold Fills at hfill
    rw [(Ordered.get?_eq_none_iff members name).mpr habsent, hchild] at hfill
    have hget := Except.ok.inj (hfill.symm.trans hdefault)
    rcases List.mem_append.mp ((hlookup name value).mp hget) with hkept | hadded
    · exact absurd (hkeys ▸ Ordered.mem_keys_of_mem kept name value hkept) habsent
    · exact hadded

end Declared

end Node

namespace Validator

/-- `properties` loses, doubles and moves nothing. The members that were there come
    first and in their order, each as its declared schema returns it, or as it was if
    there is none. Behind them come the declared names that were absent and whose
    schema has a default, each of them once. -/
theorem evaluateKeyword_properties (v : Validator) (evaluate : Evaluation) (n : Node)
    (declared : Ordered Json) (hdeclared : n.get? "properties" = some (.object declared))
    (hnames : (Ordered.keys declared).Nodup) (members : Ordered Json)
    (hnodup : (Ordered.keys members).Nodup) (path : String) (y : Json)
    (h : v.evaluateKeyword evaluate .properties n path (.object members) = .ok y) :
    ∃ kept added : Ordered Json, y = .object (kept ++ added)
      ∧ (Ordered.keys (kept ++ added)).Nodup
      ∧ List.Forall₂ (n.Carries evaluate path declared) members kept
      ∧ ∀ name value, (name, value) ∈ added
          ↔ name ∈ Ordered.keys declared ∧ name ∉ Ordered.keys members
            ∧ n.Defaults v.registry name value :=
  n.exists_append_of_applyProperties v.registry evaluate path declared hdeclared hnames members
    hnodup y h

/-- A schema of parcels: they have a count, and a size if they do not say so. -/
def parcelSchema : Json :=
  .object [("properties", .object [("count", .object [("type", .string "integer")]),
    ("size", .object [("default", .ofInt 1)])])]

/-- The schema of parcels on its own. -/
def parcelNode : Node :=
  let address : Uri := ⟨"http", some (.ofHost "parcels"), .segments [""], none, none⟩
  ⟨parcelSchema, address, "", address, none⟩

/-- A parcel whose count is given as a text. -/
def parcel : Ordered Json := [("count", .string "2"), ("name", .null), ("note", .null)]

/-- The count is taken out of a parcel to be converted, which moves the note into its
    place. In the end it is in front again, and the size is behind all others. -/
theorem evaluateKeyword_properties_parcel :
    ∃ kept added : Ordered Json,
      Json.object [("count", .ofInt 2), ("name", .null), ("note", .null), ("size", .ofInt 1)]
          = .object (kept ++ added)
        ∧ (Ordered.keys (kept ++ added)).Nodup
        ∧ List.Forall₂ (parcelNode.Carries
            ((⟨Registry.empty, .openApi, true⟩ : Validator).evaluateIn 1) ""
            [("count", .object [("type", .string "integer")]),
              ("size", .object [("default", .ofInt 1)])]) parcel kept
        ∧ ∀ name value, (name, value) ∈ added
            ↔ name ∈ ["count", "size"] ∧ name ∉ ["count", "name", "note"]
              ∧ parcelNode.Defaults Registry.empty name value :=
  evaluateKeyword_properties ⟨Registry.empty, .openApi, true⟩ _ parcelNode
    [("count", .object [("type", .string "integer")]), ("size", .object [("default", .ofInt 1)])]
    rfl (by decide) parcel (by decide) "" _ (by decide +kernel)

end Validator

end OpenApi
