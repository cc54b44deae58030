import OpenApi.Proofs.Evaluation.Conversion
import OpenApi.Proofs.Evaluation.Filling
import OpenApi.Proofs.Evaluation.Reach

/-!
# Growth of Instances

What is left of an instance when defaults are added to it. An array keeps its
number of items, an object keeps the keys it has and may get more, and every
other value stays what it is, unless it is a text that may be converted. Nothing
is ever taken away, and no object gets two members under one key, because a
default is added only where there is no member.

This is a rewriting of instances, so it holds of whole evaluations, whatever the
schemas. Members are added by `properties` alone.

Of an array no more is said than its length, and of an object no more than its
keys: a value inside may have grown as well.

Growing is one of several rewritings that an evaluation keeps to. For any other one
it has to be shown that conversions keep to it and that it may add members in the
way `properties` does.

## Main definitions

* `Json.Extends`: The second value has all items or keys of the first one.
* `Json.Grows`: Moreover, keys stay distinct.
* `Json.Filled`: What becomes of an object when members are added to it.

## Theorems

* `rewriting_grows`: Growing is a rewriting.
* `filled_of_applyProperties`: `properties` adds members and rewrites others.
* `rewrites_of_evaluateIn`, `rewrites_of_evaluateKeyword`,
  `rewrites_of_evaluateKeywords`: Rewritings that may add members.
* `grows_of_evaluateIn`, `grows_of_evaluateKeyword`, `grows_of_evaluateKeywords`: Every
  evaluation lets its instance grow.
-/

namespace OpenApi

namespace Json

/-- The second value is the first one, or an array with as many items, or an
    object with at least its keys. A text may be converted to anything. -/
inductive Extends (converts : Bool) : Json → Json → Prop where
  /-- Nothing changes at the top. -/
  | same (x : Json) : Extends converts x x
  /-- A text is converted. -/
  | text (text : String) (y : Json) : converts = true → Extends converts (.string text) y
  /-- No item is added or removed. -/
  | items (xs ys : List Json) : ys.length = xs.length → Extends converts (.array xs) (.array ys)
  /-- No key is removed. -/
  | members (xs ys : Ordered Json) : Ordered.keys xs ⊆ Ordered.keys ys →
      Extends converts (.object xs) (.object ys)

variable (converts : Bool)

theorem extends_trans (x y z : Json) (hxy : Extends converts x y) (hyz : Extends converts y z) :
    Extends converts x z := by
  cases hxy with
  | same => exact hyz
  | text text _ hconverts => exact .text text z hconverts
  | items xs _ hlength => cases hyz with
      | same => exact .items xs _ hlength
      | items _ zs hlength' => exact .items xs zs (hlength'.trans hlength)
  | members xs _ hkeys => cases hyz with
      | same => exact .members xs _ hkeys
      | members _ zs hkeys' => exact .members xs zs (List.Subset.trans hkeys hkeys')

/-- What becomes of an instance without repeated keys when members are added. -/
def Grows (x y : Json) : Prop := x.WellFormed → y.WellFormed ∧ Extends converts x y

theorem rewriting_grows : Rewriting (Grows converts) where
  refl x hx := ⟨hx, .same x⟩
  trans x y z hxy hyz hx := by
    obtain ⟨hy, hextends⟩ := hxy hx
    obtain ⟨hz, hextends'⟩ := hyz hy
    exact ⟨hz, extends_trans converts x y z hextends hextends'⟩
  array items items' h hitems := by
    rw [wellFormed_array_iff] at hitems ⊢
    refine ⟨fun y hy => ?_, .items items items' h.length_eq.symm⟩
    obtain ⟨x, hx, hgrows⟩ := exists_of_forall₂ items items' h y hy
    exact (hgrows (hitems x hx)).1
  object members members' h hmembers := by
    have hkeys := keys_rewritten members members' h
    rw [wellFormed_object_iff] at hmembers ⊢
    refine ⟨⟨hkeys.symm ▸ hmembers.1, fun entry hentry => ?_⟩,
      .members members members' fun key hkey => hkeys.symm ▸ hkey⟩
    obtain ⟨x, hx, hgrows⟩ := exists_of_rewritten members members' h entry hentry
    exact (hgrows (hmembers.2 _ hx)).1
  wellFormed _ _ h hx := (h hx).1

theorem grows_convert (hconverts : converts = true) (t : SchemaType) (x : Json) :
    Grows converts x (t.convert x) := by
  intro hx
  refine ⟨wellFormed_of_converted x _ (converted_convert t x) hx, ?_⟩
  cases x with
  | string text => exact .text text _ hconverts
  | _ => exact .same _

end Json

namespace Registry

variable (r : Registry) (hdocuments : ∀ entry ∈ r.documents, entry.2.WellFormed)

include hdocuments

theorem wellFormed_of_get? (n : Node) (hn : r.Holds n) (key : String) (value : Json)
    (h : n.get? key = some value) : value.WellFormed := by
  obtain ⟨entry, hentry, hpart⟩ := hn
  have hvalue := Json.wellFormed_of_mem_parts _ _ (hdocuments entry hentry) hpart
  exact Json.wellFormed_of_mem_parts _ _ hvalue (Json.mem_parts_of_get? n.value key value h)

/-- An object under a keyword repeats no name. -/
theorem nodup_keys_of_get? (n : Node) (hn : r.Holds n) (key : String) (members : Ordered Json)
    (h : n.get? key = some (.object members)) : (Ordered.keys members).Nodup :=
  ((Json.wellFormed_object_iff members).mp (r.wellFormed_of_get? hdocuments n hn key _ h)).1

theorem wellFormed_of_default? (n : Node) (hn : r.Holds n) (value : Json)
    (h : n.default? r = .ok (some value)) : value.WellFormed := by
  obtain ⟨target, htarget, hvalue⟩ := (bind_eq_ok_iff _ _ _).mp h
  exact r.wellFormed_of_get? hdocuments target (r.closed_holds.follow r n target hn htarget)
    "default" value (Except.ok.inj hvalue)

end Registry

/-- Members may be added to an object behind those it has, and the values of
    those may be rewritten. -/
inductive Json.Filled (R : Json → Json → Prop) : Json → Json → Prop where
  /-- Nothing is added or rewritten. -/
  | same (x : Json) : Filled R x x
  /-- Members are added behind others. -/
  | members (members members' : Ordered Json) :
      Ordered.keys members <+: Ordered.keys members' →
        (∀ name value value', Ordered.get? members name = some value →
          Ordered.get? members' name = some value' → R value value') →
            Filled R (.object members) (.object members')

theorem Json.grows_of_filled (converts : Bool) (x y : Json)
    (h : x.WellFormed → y.WellFormed ∧ Filled (Grows converts) x y) : Grows converts x y := by
  intro hx
  obtain ⟨hy, hfilled⟩ := h hx
  refine ⟨hy, ?_⟩
  cases hfilled with
  | same => exact .same x
  | members members members' hprefix _ => exact .members members members' hprefix.subset

namespace Node

variable {R : Json → Json → Prop} (hR : Json.Rewriting R) (n : Node) (r : Registry)
  (evaluate : Evaluation) (path : String)

include hR in
/-- A member that was there is the same or rewritten. -/
theorem rewrites_of_fills (declared : Ordered Json)
    (hdeclared : n.get? "properties" = some (.object declared)) (members : Ordered Json)
    (h : ∀ m y, n.Applies r (.object members) m y → evaluate.Keeps True R m y) (name : String)
    (value value' : Json) (hvalue : Ordered.get? members name = some value)
    (hfill : n.Fills r evaluate path name (some value) (some value')) : R value value' := by
  unfold Fills at hfill
  split at hfill
  · rw [Option.some.inj hfill]
    exact hR.refl value
  · rename_i schema before hchild hbefore
    rw [← Option.some.inj hbefore] at hfill
    obtain ⟨after, hafter, hevaluate⟩ := hfill
    have hkeeps := h schema value (.property members name value schema
      (Ordered.mem_of_get? members name value hvalue) ⟨declared, hdeclared⟩ hchild)
      (Pointer.push path name)
    rwa [hevaluate, ← Option.some.inj hafter] at hkeeps
  · rename_i hbefore
    exact nomatch hbefore

/-- A member that was not there is a default, and so it is a part of some document. -/
theorem wellFormed_of_fills (hdocuments : ∀ entry ∈ r.documents, entry.2.WellFormed)
    (hn : r.Holds n) (declared : Ordered Json)
    (hdeclared : n.get? "properties" = some (.object declared)) (name : String) (value : Json)
    (hfill : n.Fills r evaluate path name none (some value)) : value.WellFormed := by
  unfold Fills at hfill
  split at hfill
  · exact nomatch hfill
  · rename_i hvalue
    exact nomatch hvalue
  · rename_i schema hchild _
    exact r.wellFormed_of_default? hdocuments schema (r.closed_holds.child? r _ n schema hn
      (n.canonical_property schema declared name hdeclared hchild) hchild) value hfill

include hR

/-- The members that `properties` replaces are rewritten, and those it adds are
    parts of a document. -/
theorem filled_of_applyProperties (hdocuments : ∀ entry ∈ r.documents, entry.2.WellFormed)
    (hn : r.Holds n) (x : Json) (h : ∀ m y, n.Applies r x m y → evaluate.Keeps True R m y) :
    Promises True (fun y => x.WellFormed → y.WellFormed ∧ Json.Filled R x y)
      (n.applyProperties r evaluate path x) := by
  by_cases hobjects : (∃ members, x = .object members)
      ∧ ∃ declared, n.get? "properties" = some (.object declared)
  · obtain ⟨⟨members, rfl⟩, declared, hdeclared⟩ := hobjects
    refine promises_of_ok _ _ fun y hy hx => ?_
    have hnames := r.nodup_keys_of_get? hdocuments n hn "properties" declared hdeclared
    rw [Json.wellFormed_object_iff] at hx
    obtain ⟨members', rfl, hprefix, hnodup, hfills⟩ := n.exists_of_applyProperties r evaluate path
      declared hdeclared hnames members hx.1 y hy
    have hrewrites : ∀ name value value', Ordered.get? members name = some value →
        Ordered.get? members' name = some value' → R value value' := fun name value value' hvalue
      hvalue' => n.rewrites_of_fills hR r evaluate path declared hdeclared members h name value value'
        hvalue (hvalue ▸ hvalue' ▸ hfills name)
    refine ⟨(Json.wellFormed_object_iff members').mpr ⟨hnodup, fun entry hentry => ?_⟩,
      .members members members' hprefix hrewrites⟩
    have hafter := (Ordered.get?_eq_some_iff members' hnodup entry.1 entry.2).mpr hentry
    rcases hbefore : Ordered.get? members entry.1 with _ | value
    · exact n.wellFormed_of_fills r evaluate path hdocuments hn declared hdeclared entry.1 entry.2
        (hbefore ▸ hafter ▸ hfills entry.1)
    · exact hR.wellFormed value entry.2 (hrewrites entry.1 value entry.2 hbefore hafter)
        (hx.2 _ (Ordered.mem_of_get? members entry.1 value hbefore))
  · rw [n.applyProperties_of_not_object r evaluate path x hobjects]
    exact fun hx => ⟨hx, .same x⟩

end Node

namespace Validator

section Filled

variable {R : Json → Json → Prop} (hR : Json.Rewriting R) (v : Validator)
  (hdocuments : ∀ entry ∈ v.registry.documents, entry.2.WellFormed)
  (hconvert : v.converts = true → ∀ (t : SchemaType) x, R x (t.convert x))
  (hfilled : ∀ x y, (x.WellFormed → y.WellFormed ∧ Json.Filled R x y) → R x y)

include hR hdocuments hconvert hfilled

/-- A rewriting that may add members is what an evaluation keeps to, whatever the
    depth and the path. -/
theorem keeps_evaluateIn_of_filled (depth : Nat) :
    ∀ (n : Node) (x : Json), v.registry.Holds n →
      Evaluation.Keeps (v.evaluateIn depth) True R n x := by
  induction depth with
  | zero => exact fun n x _ path => trivial
  | succ depth ih =>
      intro n x hn path
      have hfollow : ∀ t, v.registry.follow n = .ok t → v.registry.Holds t := fun t ht =>
        v.registry.closed_holds.follow _ n t hn ht
      refine evaluateWith_promises_of_properties hR True v (v.evaluateIn depth) hconvert n path x
        (fun t x' ht _ => ?_) (fun t x' m y₀ y ht _ hm _ => ?_)
      · refine promises_mono True _ _ (hfilled x') _ (t.filled_of_applyProperties hR v.registry
          (v.evaluateIn depth) path hdocuments (hfollow t ht) x' fun m y hm => ?_)
        exact ih m y (v.registry.closed_holds.applies _ t m x' y (hfollow t ht) hm)
      · exact ih m y (v.registry.closed_holds.applies _ t m x' y₀ (hfollow t ht) hm)

theorem rewrites_of_evaluateIn (depth : Nat) (n : Node) (hn : v.registry.Holds n) (path : String)
    (x y : Json) (h : v.evaluateIn depth n path x = .ok y) : R x y := by
  have hkeeps := keeps_evaluateIn_of_filled hR v hdocuments hconvert hfilled depth n x hn path
  rwa [h] at hkeeps

theorem rewrites_of_evaluateKeyword (depth : Nat) (k : Keyword) (n : Node)
    (hn : v.registry.Holds n) (path : String) (x y : Json)
    (h : v.evaluateKeyword (v.evaluateIn depth) k n path x = .ok y) : R x y := by
  have hsub : ∀ m z z', n.Applies v.registry x m z →
      Evaluation.Keeps (v.evaluateIn depth) True R m z' := fun m z z' hm =>
    keeps_evaluateIn_of_filled hR v hdocuments hconvert hfilled depth m z'
      (v.registry.closed_holds.applies _ n m x z hn hm)
  have hkeeps := evaluateKeyword_promises_of_properties hR True v (v.evaluateIn depth) hconvert n k
    path x (promises_mono True _ _ (hfilled x) _ (n.filled_of_applyProperties hR v.registry
      (v.evaluateIn depth) path hdocuments hn x fun m z hm => hsub m z z hm))
    (fun m y₀ z hm _ => hsub m y₀ z hm)
  rwa [h] at hkeeps

theorem rewrites_of_evaluateKeywords (depth : Nat) (keywords : List Keyword) (n : Node)
    (hn : v.registry.Holds n) (path : String) (x y : Json)
    (h : v.evaluateKeywords (v.evaluateIn depth) keywords n path x = .ok y) : R x y := by
  have hsub : ∀ x' m z z', n.Applies v.registry x' m z →
      Evaluation.Keeps (v.evaluateIn depth) True R m z' := fun x' m z z' hm =>
    keeps_evaluateIn_of_filled hR v hdocuments hconvert hfilled depth m z'
      (v.registry.closed_holds.applies _ n m x' z hn hm)
  have hkeeps := evaluateKeywords_promises_of_properties hR True v (v.evaluateIn depth) hconvert n
    keywords path x (fun x' _ => promises_mono True _ _ (hfilled x') _ (n.filled_of_applyProperties
      hR v.registry (v.evaluateIn depth) path hdocuments hn x' fun m z hm => hsub x' m z z hm))
    (fun x' m y₀ z _ hm _ => hsub x' m y₀ z hm)
  rwa [h] at hkeeps

end Filled

variable (v : Validator) (hdocuments : ∀ entry ∈ v.registry.documents, entry.2.WellFormed)

include hdocuments

/-- An evaluation adds members at most. -/
theorem grows_of_evaluateIn (depth : Nat) (n : Node) (hn : v.registry.Holds n) (path : String)
    (x y : Json) (h : v.evaluateIn depth n path x = .ok y) : Json.Grows v.converts x y :=
  rewrites_of_evaluateIn (Json.rewriting_grows v.converts) v hdocuments
    (fun hconverts t x => Json.grows_convert v.converts hconverts t x)
    (Json.grows_of_filled v.converts) depth n hn path x y h

theorem grows_of_evaluateKeyword (depth : Nat) (k : Keyword) (n : Node) (hn : v.registry.Holds n)
    (path : String) (x y : Json) (h : v.evaluateKeyword (v.evaluateIn depth) k n path x = .ok y) :
    Json.Grows v.converts x y :=
  rewrites_of_evaluateKeyword (Json.rewriting_grows v.converts) v hdocuments
    (fun hconverts t x => Json.grows_convert v.converts hconverts t x)
    (Json.grows_of_filled v.converts) depth k n hn path x y h

theorem grows_of_evaluateKeywords (depth : Nat) (keywords : List Keyword) (n : Node)
    (hn : v.registry.Holds n) (path : String) (x y : Json)
    (h : v.evaluateKeywords (v.evaluateIn depth) keywords n path x = .ok y) :
    Json.Grows v.converts x y :=
  rewrites_of_evaluateKeywords (Json.rewriting_grows v.converts) v hdocuments
    (fun hconverts t x => Json.grows_convert v.converts hconverts t x)
    (Json.grows_of_filled v.converts) depth keywords n hn path x y h

end Validator

end OpenApi
