import OpenApi.Proofs.Evaluation.Settling

/-!
# Stability of Keywords

What becomes of settled keywords when members are added.

A keyword on members settles on what it has returned itself, provided that the
subschemas do: a member it has replaced is one its schema has returned, and a
default that was added is accepted by its schema.

No keyword disturbs another, because no two of them judge the same member: of
the items, those behind a list under `items` are left to `additionalItems`, and
of the members, those that `properties` does not declare are left to
`additionalProperties`. Hence a row of keywords settles as a whole on what it
returns, except for the fragile checks among them.

## Main definitions

* `Validator.Stabilizes`: Whatever is returned, a schema settles on it.
* `Validator.KeepsDefaults`: A schema settles on its default.

## Theorems

* `settlesKeyword_of_evaluateKeyword`: A keyword settles on what it returns.
* `settlesKeyword_after`: No other keyword disturbs it.
* `settlesKeyword_of_foldlM`: After a row of keywords, each of them settles.
-/

namespace OpenApi

namespace Validator

variable (v : Validator)

/-- The schemas of a registry settle on what an evaluation makes of an instance. -/
def Stabilizes (evaluate : Evaluation) : Prop :=
  ∀ n path x y, v.registry.Has n → x.WellFormed → evaluate n path x = .ok y → v.Settles n path y

/-- The schema that is declared for a member settles on its default, if it has
    one. -/
def KeepsDefaults : Prop :=
  ∀ place n declared name schema target value path, v.registry.nodeAt? place = some n →
    n.get? "properties" = some (.object declared) →
      n.child? ["properties", name] = some schema → v.registry.deref schema = .ok target →
        target.get? "default" = some value → v.Settles target path value

theorem settles_default (hkeeps : v.KeepsDefaults) (n : Node) (hn : v.registry.Has n)
    (declared : Ordered Json) (hdeclared : n.get? "properties" = some (.object declared))
    (name : String) (schema : Node) (hchild : n.child? ["properties", name] = some schema)
    (path : String) (value : Json) (h : schema.default? v.registry = .ok (some value)) :
    v.Settles schema path value := by
  obtain ⟨target, htarget, hvalue⟩ := (bind_eq_ok_iff _ _ _).mp h
  have hderef := (v.registry.follow_eq_ok_iff schema target).mp htarget
  exact v.settles_congr path schema target value hderef (hkeeps n.place n.bare declared name schema
    target value path hn hdeclared hchild hderef (Except.ok.inj hvalue))

section Own

variable (hdocuments : ∀ entry ∈ v.registry.documents, entry.2.WellFormed)
  (hkeeps : v.KeepsDefaults) (evaluate : Evaluation) (hstable : v.Stabilizes evaluate)
  (n : Node) (hn : v.registry.Has n) (path : String)

include hstable

theorem settles_judge (schema? : Option Node) (hschema : ∀ m, schema? = some m → v.registry.Has m)
    (segment : String) (x y : Json) (hx : x.WellFormed)
    (h : Node.judge evaluate schema? path segment x = .ok (.ok y)) :
    ∃ depth, Node.judge (v.evaluateIn depth) schema? path segment y = .ok (.ok y) := by
  rcases (Node.judge_eq_ok_iff evaluate path schema? segment x y).mp h with ⟨hnone, _⟩ | ⟨m, hm, hy⟩
  · exact ⟨0, (Node.judge_eq_ok_iff _ path schema? segment y y).mpr (Or.inl ⟨hnone, rfl⟩)⟩
  · obtain ⟨depth, hdepth⟩ := hstable m _ x y (hschema m hm) hx hy
    exact ⟨depth, (Node.judge_eq_ok_iff _ path schema? segment y y).mpr (Or.inr ⟨m, hm, hdepth⟩)⟩

include hn

theorem settles_judgeAdditional (key : String)
    (hkey : Pointer.index? key = Pointer.canonicalIndex? key) (kind : ViolationKind)
    (segment : String) (x y : Json) (hx : x.WellFormed)
    (h : n.judgeAdditional evaluate key kind path segment x = .ok (.ok y)) :
    ∃ depth, n.judgeAdditional (v.evaluateIn depth) key kind path segment y = .ok (.ok y) := by
  rw [Node.judgeAdditional_eq_ok_iff] at h
  obtain ⟨depth, hdepth⟩ := v.settles_judge evaluate hstable path (n.child? [key])
    (fun m hm => v.registry.closed_has.key _ n m key hkey hn hm) segment x y hx h.2
  exact ⟨depth, (n.judgeAdditional_eq_ok_iff _ path key kind segment y y).mpr ⟨h.1, hdepth⟩⟩

theorem settlesKeyword_items (xs : List Json) (hx : (Json.array xs).WellFormed) (y : Json)
    (h : v.evaluateKeyword evaluate .items n path (.array xs) = .ok y) :
    v.SettlesKeyword .items n path y := by
  obtain ⟨ys, hys, rfl⟩ := (n.applyItems_eq_ok_iff evaluate path xs y).mp h
  rw [settlesKeyword_items_iff]
  intro pair hpair
  obtain ⟨x, hitem, hbecomes⟩ := exists_of_forall₂_zipIdx xs ys hys pair.2 pair.1
    (List.mem_zipIdx_iff_getElem?.mp hpair)
  refine v.settles_judge evaluate hstable path _ (fun m hm => ?_) _ x pair.1
    ((Json.wellFormed_array_iff xs).mp hx x (List.mem_of_getElem? hitem)) hbecomes
  exact v.registry.closed_has.applies _ n m _ x hn (.item xs pair.2 x m hitem hm)

theorem settlesKeyword_additionalItems (xs : List Json) (hx : (Json.array xs).WellFormed) (y : Json)
    (h : v.evaluateKeyword evaluate .additionalItems n path (.array xs) = .ok y) :
    v.SettlesKeyword .additionalItems n path y := by
  by_cases htuple : ∃ tuple, n.get? "items" = some (.array tuple)
  · obtain ⟨tuple, htuple⟩ := htuple
    obtain ⟨ys, hys, rfl⟩ := (n.applyAdditionalItems_eq_ok_iff evaluate path tuple xs htuple y).mp h
    rw [v.settlesKeyword_additionalItems_iff n path tuple htuple]
    intro pair hpair
    obtain ⟨x, hitem, hbecomes⟩ := exists_of_forall₂_zipIdx xs ys hys pair.2 pair.1
      (List.mem_zipIdx_iff_getElem?.mp hpair)
    unfold Node.AdditionalItemBecomes at *
    by_cases hi : pair.2 < tuple.length
    · exact ⟨0, if_pos hi⟩
    · simp only [if_neg hi] at hbecomes ⊢
      exact v.settles_judgeAdditional evaluate hstable n hn path "additionalItems" rfl _ _ x pair.1
        ((Json.wellFormed_array_iff xs).mp hx x (List.mem_of_getElem? hitem)) hbecomes
  · exact ⟨0, n.applyAdditionalItems_of_not_array _ path y fun hc => htuple hc.2⟩

theorem settlesKeyword_additionalProperties (members : Ordered Json)
    (hx : (Json.object members).WellFormed) (y : Json)
    (h : v.evaluateKeyword evaluate .additionalProperties n path (.object members) = .ok y) :
    v.SettlesKeyword .additionalProperties n path y := by
  obtain ⟨members', hmembers', rfl⟩ :=
    (n.applyAdditionalProperties_eq_ok_iff evaluate path members y).mp h
  rw [settlesKeyword_additionalProperties_iff]
  intro entry hentry
  obtain ⟨before, hbefore, hkey, hjudge⟩ := exists_of_forall₂ members members' hmembers' entry hentry
  rw [hkey] at hjudge
  unfold Node.EntryBecomes Node.judgeUndeclared
  unfold Node.judgeUndeclared at hjudge
  by_cases hdeclares : n.declares entry.1 = true
  · exact ⟨0, rfl, if_pos hdeclares⟩
  · rw [if_neg hdeclares] at hjudge
    obtain ⟨depth, hdepth⟩ := v.settles_judgeAdditional evaluate hstable n hn path
      "additionalProperties" rfl _ _ before.2 entry.2
      (((Json.wellFormed_object_iff members).mp hx).2 before hbefore) hjudge
    exact ⟨depth, rfl, (if_neg hdeclares).trans hdepth⟩

include hkeeps

/-- What `properties` makes of a member stays as it is in a second round. -/
theorem settles_fills (declared : Ordered Json)
    (hdeclared : n.get? "properties" = some (.object declared)) (name : String)
    (before after : Option Json) (hbefore : ∀ value, before = some value → value.WellFormed)
    (h : n.Fills v.registry evaluate path name before after) :
    ∃ depth, n.Fills v.registry (v.evaluateIn depth) path name after after := by
  rcases hchild : n.child? ["properties", name] with _ | schema
  · exact ⟨0, n.fills_undeclared v.registry _ path name _ hchild⟩
  · unfold Node.Fills at h ⊢
    rw [hchild] at h ⊢
    cases before with
    | some value =>
        obtain ⟨value', rfl, hevaluate⟩ := h
        have hschema : v.registry.Has schema := v.registry.closed_has.child? _ _ n schema hn
          (n.canonical_property schema declared name hdeclared hchild) hchild
        obtain ⟨depth, hdepth⟩ := hstable schema _ value value' hschema (hbefore value rfl) hevaluate
        exact ⟨depth, value', rfl, hdepth⟩
    | none =>
        cases after with
        | some value' =>
            obtain ⟨depth, hdepth⟩ := v.settles_default hkeeps n hn declared hdeclared name
              schema hchild _ value' h
            exact ⟨depth, value', rfl, hdepth⟩
        | none =>
            -- There is no default, so the member is missing the second time as well.
            exact ⟨0, h⟩

include hdocuments

/-- An added default is accepted by its schema, so a second round leaves it. -/
theorem settlesKeyword_properties (members : Ordered Json) (hx : (Json.object members).WellFormed)
    (y : Json) (h : v.evaluateKeyword evaluate .properties n path (.object members) = .ok y) :
    v.SettlesKeyword .properties n path y := by
  by_cases hdeclared : ∃ declared, n.get? "properties" = some (.object declared)
  · obtain ⟨declared, hdeclared⟩ := hdeclared
    have hnames := v.registry.nodup_keys_of_get? hdocuments n (v.registry.holds_of_has n hn)
      "properties" declared hdeclared
    rw [Json.wellFormed_object_iff] at hx
    obtain ⟨members', rfl, _, hnodup, hfills⟩ := n.exists_of_applyProperties v.registry evaluate path
      declared hdeclared hnames members hx.1 y h
    rw [v.settlesKeyword_properties_iff n path declared hdeclared hnames members' hnodup]
    exact fun name _ => v.settles_fills hkeeps evaluate hstable n hn path declared hdeclared name _ _
      (fun value hvalue => hx.2 _ (Ordered.mem_of_get? members name value hvalue)) (hfills name)
  · exact ⟨0, n.applyProperties_of_not_object v.registry _ path y fun hc => hdeclared hc.2⟩

end Own

section Others

variable (evaluate : Evaluation) (n : Node) (path : String)

/-- The items behind a list under `items` have no schema there. -/
theorem itemSchema?_eq_none (tuple : List Json) (htuple : n.get? "items" = some (.array tuple))
    (i : Nat) (hi : ¬ i < tuple.length) : n.itemSchema? i = none := by
  unfold Node.itemSchema?
  rw [htuple]
  dsimp only
  rcases hchild : n.child? ["items", toString i] with _ | m
  · rfl
  · have hvalue := n.step?_of_get? m "items" (toString i) (.array tuple) htuple hchild
    rw [Pointer.step?_eq_canonicalStep? _ _ (Pointer.index?_toString i),
      Pointer.canonicalStep?_array] at hvalue
    exact absurd (List.getElem?_eq_some_iff.mp hvalue).1 hi

/-- `additionalItems` leaves alone what `items` has judged. -/
theorem settlesKeyword_items_after (xs : List Json) (y : Json)
    (hsettles : v.SettlesKeyword .items n path (.array xs))
    (h : v.evaluateKeyword evaluate .additionalItems n path (.array xs) = .ok y) :
    v.SettlesKeyword .items n path y := by
  by_cases htuple : ∃ tuple, n.get? "items" = some (.array tuple)
  · obtain ⟨tuple, htuple⟩ := htuple
    obtain ⟨ys, hys, rfl⟩ := (n.applyAdditionalItems_eq_ok_iff evaluate path tuple xs htuple y).mp h
    rw [settlesKeyword_items_iff] at hsettles ⊢
    intro pair hpair
    obtain ⟨x, hitem, hbecomes⟩ := exists_of_forall₂_zipIdx xs ys hys pair.2 pair.1
      (List.mem_zipIdx_iff_getElem?.mp hpair)
    by_cases hi : pair.2 < tuple.length
    · rw [if_pos hi] at hbecomes
      have hsame : x = pair.1 := Except.ok.inj (Except.ok.inj hbecomes)
      exact hsettles pair (List.mem_zipIdx_iff_getElem?.mpr (hsame ▸ hitem))
    · -- Behind the list `items` has no schema, so it does not look there.
      refine ⟨0, ?_⟩
      unfold Node.ItemBecomes
      rw [itemSchema?_eq_none n tuple htuple pair.2 hi]
      rfl
  · have hsame := n.applyAdditionalItems_of_not_array evaluate path (.array xs)
      fun hc => htuple hc.2
    rwa [← Except.ok.inj (hsame.symm.trans h)]

/-- `items` leaves alone what `additionalItems` has judged. -/
theorem settlesKeyword_additionalItems_after (xs : List Json) (y : Json)
    (hsettles : v.SettlesKeyword .additionalItems n path (.array xs))
    (h : v.evaluateKeyword evaluate .items n path (.array xs) = .ok y) :
    v.SettlesKeyword .additionalItems n path y := by
  obtain ⟨ys, hys, rfl⟩ := (n.applyItems_eq_ok_iff evaluate path xs y).mp h
  by_cases htuple : ∃ tuple, n.get? "items" = some (.array tuple)
  · obtain ⟨tuple, htuple⟩ := htuple
    rw [v.settlesKeyword_additionalItems_iff n path tuple htuple] at hsettles ⊢
    intro pair hpair
    obtain ⟨x, hitem, hbecomes⟩ := exists_of_forall₂_zipIdx xs ys hys pair.2 pair.1
      (List.mem_zipIdx_iff_getElem?.mp hpair)
    by_cases hi : pair.2 < tuple.length
    · exact ⟨0, if_pos hi⟩
    · rw [itemSchema?_eq_none n tuple htuple pair.2 hi] at hbecomes
      have hsame : x = pair.1 := Except.ok.inj (Except.ok.inj hbecomes)
      exact hsettles pair (List.mem_zipIdx_iff_getElem?.mpr (hsame ▸ hitem))
  · exact ⟨0, n.applyAdditionalItems_of_not_array _ path _ fun hc => htuple hc.2⟩

section Objects

variable (hdocuments : ∀ entry ∈ v.registry.documents, entry.2.WellFormed)
  (hn : v.registry.Has n) (members : Ordered Json) (hx : (Json.object members).WellFormed)

include hdocuments hn hx

/-- `additionalProperties` leaves alone what `properties` has judged. -/
theorem settlesKeyword_properties_after (y : Json)
    (hsettles : v.SettlesKeyword .properties n path (.object members))
    (h : v.evaluateKeyword evaluate .additionalProperties n path (.object members) = .ok y) :
    v.SettlesKeyword .properties n path y := by
  obtain ⟨members', hmembers', rfl⟩ :=
    (n.applyAdditionalProperties_eq_ok_iff evaluate path members y).mp h
  have hkeys : Ordered.keys members' = Ordered.keys members :=
    Json.keys_rewritten (R := fun _ _ => True) members members'
      (hmembers'.imp fun a b hab => ⟨hab.1, trivial⟩)
  have hnodup := ((Json.wellFormed_object_iff members).mp hx).1
  refine v.settlesKeyword_properties_congr n path hdocuments (v.registry.holds_of_has n hn) members
    members' hnodup (hkeys ▸ hnodup) (fun name hdeclares => ?_) hsettles
  -- A declared member is not judged a second time.
  refine get?_of_forall₂ members members' hmembers' name fun a b hab => ⟨hab.1, fun ha => ?_⟩
  have hjudge := hab.2
  unfold Node.judgeUndeclared at hjudge
  rw [ha, if_pos hdeclares] at hjudge
  exact Except.ok.inj (Except.ok.inj hjudge)

/-- `properties` leaves alone what `additionalProperties` has judged. -/
theorem settlesKeyword_additionalProperties_after (y : Json)
    (hsettles : v.SettlesKeyword .additionalProperties n path (.object members))
    (h : v.evaluateKeyword evaluate .properties n path (.object members) = .ok y) :
    v.SettlesKeyword .additionalProperties n path y := by
  by_cases hdeclared : ∃ declared, n.get? "properties" = some (.object declared)
  · obtain ⟨declared, hdeclared⟩ := hdeclared
    have hnames := v.registry.nodup_keys_of_get? hdocuments n (v.registry.holds_of_has n hn)
      "properties" declared hdeclared
    rw [Json.wellFormed_object_iff] at hx
    obtain ⟨members', rfl, _, hnodup, hfills⟩ := n.exists_of_applyProperties v.registry evaluate path
      declared hdeclared hnames members hx.1 y h
    rw [settlesKeyword_additionalProperties_iff] at hsettles ⊢
    intro entry hentry
    by_cases hdeclares : n.declares entry.1 = true
    · exact ⟨0, rfl, if_pos hdeclares⟩
    · -- What is not declared was there before, with the same value.
      have hfill := hfills entry.1
      have hchild := n.child?_of_undeclared declared hdeclared entry.1 fun hname =>
        hdeclares ((n.declares_iff declared hdeclared entry.1).mpr hname)
      unfold Node.Fills at hfill
      rw [hchild, (Ordered.get?_eq_some_iff members' hnodup entry.1 entry.2).mpr hentry] at hfill
      exact hsettles entry (Ordered.mem_of_get? members entry.1 entry.2 hfill.symm)
  · have hsame := n.applyProperties_of_not_object v.registry evaluate path (.object members)
      fun hc => hdeclared hc.2
    rwa [← Except.ok.inj (hsame.symm.trans h)]

end Objects

end Others

section Rows

variable (hdialect : v.dialect = .jsonSchema) (hconvert : v.converts = false)
  (hdocuments : ∀ entry ∈ v.registry.documents, entry.2.WellFormed) (hkeeps : v.KeepsDefaults)
  (evaluate : Evaluation) (hstable : v.Stabilizes evaluate) (depth : Nat)
  (hunder : evaluate.Under (v.evaluateIn depth)) (n : Node) (hn : v.registry.Has n) (path : String)

include hconvert hdocuments hunder hn in
/-- A keyword lets its instance grow. -/
theorem grows_of_under (k : Keyword) (x y : Json) (hx : x.WellFormed)
    (h : v.evaluateKeyword evaluate k n path x = .ok y) : y.WellFormed ∧ Json.Extends false x y := by
  have hdeep := ok_of_below _ _ (v.evaluateKeyword_below _ _ hunder k n path x) y h
  have hgrows := v.grows_of_evaluateKeyword hdocuments depth k n (v.registry.holds_of_has n hn) path
    x y hdeep hx
  rwa [hconvert] at hgrows

include hdialect hdocuments hkeeps hstable hn in
/-- A keyword settles on what it returns. -/
theorem settlesKeyword_of_evaluateKeyword (k : Keyword) (hk : k.isInside = true) (x y : Json)
    (hx : x.WellFormed) (h : v.evaluateKeyword evaluate k n path x = .ok y) :
    v.SettlesKeyword k n path y := by
  rcases k.cases_of_isInside hk with hcheck | hitems | hmembers
  · rw [v.eq_of_check hdialect evaluate k hcheck n path x y h] at h
    exact ⟨0, (v.evaluateKeyword_eq_of_check hdialect _ evaluate k hcheck n path y).trans h⟩
  -- A keyword on items or members has judged each of them, or the instance has none.
  · by_cases harray : ∃ xs, x = .array xs
    · obtain ⟨xs, rfl⟩ := harray
      cases k with
      | items => exact v.settlesKeyword_items evaluate hstable n hn path xs hx y h
      | additionalItems => exact v.settlesKeyword_additionalItems evaluate hstable n hn path xs hx y h
      | _ => exact nomatch hitems
    · have hsame := fun evaluate => v.evaluateKeyword_of_not_array evaluate n path k hitems x
        fun xs hxs => harray ⟨xs, hxs⟩
      rw [← Except.ok.inj ((hsame evaluate).symm.trans h)]
      exact ⟨0, hsame _⟩
  · by_cases hobject : ∃ members, x = .object members
    · obtain ⟨members, rfl⟩ := hobject
      cases k with
      | properties =>
          exact v.settlesKeyword_properties hdocuments hkeeps evaluate hstable n hn path members hx y h
      | additionalProperties =>
          exact v.settlesKeyword_additionalProperties evaluate hstable n hn path members hx y h
      | _ => exact nomatch hmembers
    · have hsame := fun evaluate => v.evaluateKeyword_of_not_object evaluate n path k hmembers x
        fun members hxs => hobject ⟨members, hxs⟩
      rw [← Except.ok.inj ((hsame evaluate).symm.trans h)]
      exact ⟨0, hsame _⟩

/-- A keyword on items is not disturbed by one on items or members. -/
theorem settlesKeyword_after_of_judgesItems (k k' : Keyword) (hk : k.judgesItems = true)
    (hk' : k'.judgesItems = true ∨ k'.judgesMembers = true) (hne : k' ≠ k) (x y : Json)
    (hextends : Json.Extends false x y) (hsettles : v.SettlesKeyword k n path x)
    (h : v.evaluateKeyword evaluate k' n path x = .ok y) : v.SettlesKeyword k n path y := by
  by_cases harray : ∃ xs, x = .array xs
  · obtain ⟨xs, rfl⟩ := harray
    -- The other keyword on items judges other ones, and one on members does not look at arrays.
    rcases hk' with hitems | hmembers
    · cases k with
      | items => cases k' with
          | items => exact absurd rfl hne
          | additionalItems => exact v.settlesKeyword_items_after evaluate n path xs y hsettles h
          | _ => exact nomatch hitems
      | additionalItems => cases k' with
          | items => exact v.settlesKeyword_additionalItems_after evaluate n path xs y hsettles h
          | additionalItems => exact absurd rfl hne
          | _ => exact nomatch hitems
      | _ => exact nomatch hk
    · have hsame := v.evaluateKeyword_of_not_object evaluate n path k' hmembers (.array xs) nofun
      rwa [← Except.ok.inj (hsame.symm.trans h)]
  · -- What is no array does not become one.
    refine ⟨0, v.evaluateKeyword_of_not_array _ n path k hk y fun ys hys => ?_⟩
    cases hextends with
    | same => exact harray ⟨ys, hys⟩
    | text text _ hconverts => exact nomatch hconverts
    | items xs _ _ => exact harray ⟨xs, rfl⟩
    | members _ _ _ => exact nomatch hys

include hdocuments hn in
/-- A keyword on members is not disturbed by one on items or members. -/
theorem settlesKeyword_after_of_judgesMembers (k k' : Keyword) (hk : k.judgesMembers = true)
    (hk' : k'.judgesItems = true ∨ k'.judgesMembers = true) (hne : k' ≠ k) (x y : Json)
    (hx : x.WellFormed) (hextends : Json.Extends false x y)
    (hsettles : v.SettlesKeyword k n path x)
    (h : v.evaluateKeyword evaluate k' n path x = .ok y) : v.SettlesKeyword k n path y := by
  by_cases hobject : ∃ members, x = .object members
  · obtain ⟨members, rfl⟩ := hobject
    -- The other keyword on members judges other ones, and one on items does not look at objects.
    rcases hk' with hitems | hmembers
    · have hsame := v.evaluateKeyword_of_not_array evaluate n path k' hitems (.object members) nofun
      rwa [← Except.ok.inj (hsame.symm.trans h)]
    · cases k with
      | properties => cases k' with
          | properties => exact absurd rfl hne
          | additionalProperties =>
              exact v.settlesKeyword_properties_after evaluate n path hdocuments hn members hx y
                hsettles h
          | _ => exact nomatch hmembers
      | additionalProperties => cases k' with
          | properties =>
              exact v.settlesKeyword_additionalProperties_after evaluate n path hdocuments hn members
                hx y hsettles h
          | additionalProperties => exact absurd rfl hne
          | _ => exact nomatch hmembers
      | _ => exact nomatch hk
  · refine ⟨0, v.evaluateKeyword_of_not_object _ n path k hk y fun ys hys => ?_⟩
    cases hextends with
    | same => exact hobject ⟨ys, hys⟩
    | text text _ hconverts => exact nomatch hconverts
    | items _ _ _ => exact nomatch hys
    | members xs _ _ => exact hobject ⟨xs, rfl⟩

include hdialect hconvert hdocuments hunder hn

/-- A keyword that settles on an instance does so on what another keyword makes
    of it, unless it is fragile. -/
theorem settlesKeyword_after (k k' : Keyword) (hk : k.isInside = true) (hk' : k'.isInside = true)
    (hne : k' ≠ k) (hfragile : k.isFragile = false) (x y : Json) (hx : x.WellFormed)
    (hsettles : v.SettlesKeyword k n path x)
    (h : v.evaluateKeyword evaluate k' n path x = .ok y) : v.SettlesKeyword k n path y := by
  obtain ⟨_, hextends⟩ := v.grows_of_under hconvert hdocuments evaluate depth hunder n hn path k' x y
    hx h
  rcases k.cases_of_isInside hk with hcheck | hkind
  · obtain ⟨depth', hdepth⟩ := hsettles
    exact ⟨depth', v.evaluateKeyword_of_extends hdialect _ k hcheck n path hfragile x y hx hextends
      hdepth⟩
  · rcases k'.cases_of_isInside hk' with hcheck' | hkind'
    · rwa [← v.eq_of_check hdialect evaluate k' hcheck' n path x y h]
    · rcases hkind with hitems | hmembers
      · exact v.settlesKeyword_after_of_judgesItems evaluate n path k k' hitems hkind' hne x y hextends
          hsettles h
      · exact v.settlesKeyword_after_of_judgesMembers hdocuments evaluate n hn path k k' hmembers
          hkind' hne x y hx hextends hsettles h

include hkeeps hstable

/-- Of the keywords in a row that are not fragile, each settles on what the row
    returns, and so does one that settled before and is not in the row. -/
theorem settlesKeyword_of_foldlM (keywords : List Keyword)
    (hinside : ∀ k ∈ keywords, k.isInside = true) (k : Keyword) (hk : k.isInside = true)
    (hfragile : k.isFragile = false) :
    ∀ x y, x.WellFormed →
      keywords.foldlM (fun x k => v.evaluateKeyword evaluate k n path x) x = .ok y →
        k ∈ keywords ∨ v.SettlesKeyword k n path x → v.SettlesKeyword k n path y := by
  induction keywords with
  | nil =>
      intro x y _ h hsettles
      rw [← Except.ok.inj h]
      exact hsettles.resolve_left List.not_mem_nil
  | cons first rest ih =>
      intro x y hx h hsettles
      rw [List.foldlM_cons] at h
      obtain ⟨next, hnext, hrest⟩ := (bind_eq_ok_iff _ _ y).mp h
      have hfirst := hinside first List.mem_cons_self
      have hgrown := v.grows_of_under hconvert hdocuments evaluate depth hunder n hn path first x next
        hx hnext
      refine ih (fun k hk => hinside k (List.mem_cons_of_mem first hk)) next y hgrown.1 hrest ?_
      -- The keyword is the one that has just been evaluated, or still to come, or settled before.
      by_cases hsame : first = k
      · rw [← hsame]
        exact Or.inr (v.settlesKeyword_of_evaluateKeyword hdialect hdocuments hkeeps evaluate hstable n
          hn path first hfirst x next hx hnext)
      · rcases hsettles with hmem | hsettles
        · exact Or.inl ((List.mem_cons.mp hmem).resolve_left fun heq => hsame heq.symm)
        · exact Or.inr (v.settlesKeyword_after hdialect hconvert hdocuments evaluate depth hunder n hn
            path k first hk hfirst hsame hfragile x next hx hsettles hnext)

end Rows

end Validator

end OpenApi
