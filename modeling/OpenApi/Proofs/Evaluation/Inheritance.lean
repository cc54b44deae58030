import OpenApi.Proofs.Evaluation.Acceptance
import OpenApi.Proofs.Evaluation.Dialect
import OpenApi.Proofs.Evaluation.Termination
import OpenApi.Proofs.Registry.Distinct

/-!
# Base and Derived Schemas

A base schema with a discriminator, and a schema that is derived from it by an
`allOf` with the base among its branches. An instance that names the derived
schema is evaluated by both, whichever of them the evaluation starts with: the
discriminator of the base leads to the derived schema, and a branch of the
derived one leads to the base.

The circle is cut at the branch that leads back. The discriminator takes it out
of the selected schema, so that the base is evaluated once from either end, and
the branches that do not lead back are evaluated once too. That is known by the
scope of the schema a branch leads to, so it takes scopes that tell schemas apart.

So both schemas accept the same instances: those that all other keywords of the
base and all other branches of the derived schema accept. What another branch
rejects is reported by the base as a violation of the discriminator, with that
of `allOf` as its cause.

## Main definitions

* `Registry.Derives`: A schema is a branch of another one, which is nothing more.
* `Registry.Names`: An instance names a schema by a discriminator.

## Theorems

* `accepts_selected_iff`: What the selected schema accepts.
* `accepts_base_iff`, `accepts_derived_iff`: What both schemas accept.
* `rejects_base`: How the base rejects for another branch.
* `accepts_base_iff_derived`: The schemas agree.
-/

namespace OpenApi

namespace Registry

/-- The one schema is the other one and more: it has an `allOf` with a branch
    that leads to the other, and no other keyword. The other one does not choose
    among branches. -/
structure Derives (r : Registry) (base derived : Node) : Prop where
  /-- The base has no `anyOf` and no `oneOf`. -/
  unchosen : (base.has "anyOf" || base.has "oneOf") = false
  /-- The derived schema has no keyword but `allOf`. -/
  only : ∀ k : Keyword, derived.has k.name = true → k = .allOf
  /-- A branch leads to the base. -/
  branch : ∃ m ∈ derived.branches "allOf", r.deref m = .ok base

/-- The discriminator of the base selects the derived schema for an instance. -/
def Names (r : Registry) (base derived : Node) (path : String) (x : Json) : Prop :=
  ∃ uri m, base.selected path x = .ok uri ∧ r.node? uri = some m ∧ r.deref m = .ok derived

variable (r : Registry) (base derived : Node) (path : String) (x : Json)

section Schemas

variable {r base derived path x}

theorem Names.obtained (hnames : r.Names base derived path x) : r.Obtained derived := by
  obtain ⟨uri, m, _, hfound, htarget⟩ := hnames
  exact .deref m derived (.node uri m hfound) htarget

theorem Names.exclusion (hnames : r.Names base derived path x) : derived.exclusion = none := by
  obtain ⟨uri, m, _, hfound, htarget⟩ := hnames
  obtain ⟨place, _, hplace⟩ := Option.bind_eq_some_iff.mp hfound
  have hbare := (r.place_of_found place m hplace).2
  rw [(r.derefWithin_spec maxHops m derived htarget).2, ← hbare]
  rfl

theorem Names.has (hnames : r.Names base derived path x) : base.has "discriminator" = true := by
  obtain ⟨uri, _, hselected, _⟩ := hnames
  exact base.has_of_selected path x uri hselected

theorem Derives.has (hderives : r.Derives base derived) : derived.has "allOf" = true := by
  obtain ⟨m, hm, _⟩ := hderives.branch
  exact derived.has_of_mem_branches m "allOf" hm

/-- The base is no reference. -/
theorem Derives.deref_base (hderives : r.Derives base derived) : r.deref base = .ok base := by
  obtain ⟨m, _, htarget⟩ := hderives.branch
  exact r.deref_of_deref m base htarget

theorem Derives.exclusion (hderives : r.Derives base derived) : base.exclusion = none := by
  obtain ⟨m, hm, htarget⟩ := hderives.branch
  rw [(r.derefWithin_spec maxHops m base htarget).2]
  exact Node.exclusion_of_branches derived m "allOf" hm

/-- Of all keywords the derived schema has just `allOf`. -/
theorem Derives.filter_keywords (hderives : r.Derives base derived) :
    Keyword.all.filter (fun k => derived.has k.name) = [.allOf] := by
  have hkeyword : ∀ k ∈ Keyword.all, derived.has k.name = (k == .allOf) := by
    intro k _
    by_cases hk : k = .allOf
    · rw [hk]
      exact hderives.has
    · rw [beq_false_of_ne hk, Bool.eq_false_iff]
      exact fun hhas => hk (hderives.only k hhas)
  rw [List.filter_congr hkeyword]
  rfl

variable (hr : r.Built) (havoids : ∀ entry ∈ r.documents, entry.2.Avoids Uri.isAltered)
  (hderives : r.Derives base derived) (hnames : r.Names base derived path x)

include hderives hnames

theorem Derives.obtained : r.Obtained base := by
  obtain ⟨m, hm, htarget⟩ := hderives.branch
  exact .deref m base (.branch derived m "allOf" hnames.obtained hm) htarget

include hr havoids

/-- A schema with the scope of the base is the base. -/
theorem Derives.eq_of_scope (t : Node) (ht : r.Obtained t) (hexclusion : t.exclusion = none)
    (hscope : t.scope = base.scope) : t = base := by
  have hbare := r.bare_eq_of_scope hr havoids t base (r.has_of_obtained t ht)
    (r.has_of_obtained base (hderives.obtained hnames)) hscope
  rwa [t.bare_eq_self hexclusion, base.bare_eq_self hderives.exclusion] at hbare

/-- The schemas are different, and have different scopes. -/
theorem Derives.scope_ne : derived.scope ≠ base.scope := by
  intro hscope
  have hsame := hderives.eq_of_scope hr havoids hnames derived hnames.obtained hnames.exclusion
    hscope
  have hkeyword : Keyword.discriminator = .allOf := by
    refine hderives.only .discriminator ?_
    rw [hsame]
    exact hnames.has
  exact nomatch hkeyword

/-- Of the branches of the selected schema, just those that lead to the base are skipped. -/
theorem Derives.isExcluded_eq (m t : Node) (hm : m ∈ derived.branches "allOf")
    (ht : r.deref m = .ok t) :
    (derived.excluding base.scope).isExcluded r m = .ok (decide (t = base)) := by
  have hexcluded : (derived.excluding base.scope).isExcluded r m
      = (r.follow m >>= fun target => .ok (target.scope == base.scope)) := rfl
  have hbare : t.exclusion = none := by
    rw [(r.derefWithin_spec maxHops m t ht).2]
    exact Node.exclusion_of_branches derived m "allOf" hm
  have hobtained : r.Obtained t := .deref m t (.branch derived m "allOf" hnames.obtained hm) ht
  -- Scopes are compared as texts, which is enough because they tell nodes apart.
  have hscope : t.scope = base.scope ↔ t = base :=
    ⟨hderives.eq_of_scope hr havoids hnames t hobtained hbare, congrArg Node.scope⟩
  rw [hexcluded, (r.follow_eq_ok_iff m t).mpr ht]
  refine congrArg Except.ok ?_
  rw [Bool.eq_iff_iff, beq_iff_eq, decide_eq_true_iff]
  exact hscope

end Schemas

end Registry

namespace Validator

open Registry

variable {r : Registry} {base derived : Node} {path : String} {x : Json}

/-- What the selected schema rejects, it rejects by `allOf`. -/
theorem exists_of_selected_violation (hderives : r.Derives base derived) (m : Node)
    (hm : r.deref m = .ok derived) (depth : Nat) (w : Violation)
    (h : (strict r .openApi).evaluateIn depth (m.excluding base.scope) path x
      = .error (.violation w)) :
    ∃ inner, w = ⟨path, derived.scope, .allOf, [inner]⟩ := by
  have hself : r.deref (m.excluding base.scope) = .ok (derived.excluding base.scope) :=
    r.deref_excluding m derived base.scope hm
  have hobject := derived.exists_object_of_has "allOf" hderives.has
  rcases depth with _ | depth
  · exact nomatch h
  · rw [evaluateIn_succ (strict r .openApi) (m.excluding base.scope)
      (derived.excluding base.scope) hself hobject] at h
    have hkeywords : (strict r .openApi).dialect.keywords.filter
        (fun k => (derived.excluding base.scope).has k.name) = [.allOf] := hderives.filter_keywords
    unfold evaluateKeywords at h
    rw [hkeywords, List.foldlM_cons] at h
    simp only [List.foldlM_nil, bind_pure] at h
    exact (derived.excluding base.scope).exists_of_applyAllOf_violation r _ path x w h

variable (hr : r.Built)
  (hlacks : ∀ entry ∈ r.documents, entry.2.Lacks "default")
  (havoids : ∀ entry ∈ r.documents, entry.2.Avoids Uri.isAltered)
  (hderives : r.Derives base derived) (hnames : r.Names base derived path x) (hx : x.WellFormed)

include hlacks hderives hx

/-- Where references lead to the derived schema, with or without an exclusion,
    acceptance is up to `allOf`. -/
theorem accepts_iff_allOf (n t : Node) (ht : r.deref n = .ok t) (hholds : r.Holds t)
    (hvalue : t.value = derived.value) :
    (strict r .openApi).Accepts n path x ↔ (strict r .openApi).AcceptsKeyword .allOf t path x := by
  have hhas : ∀ key, t.has key = derived.has key := by
    intro key
    unfold Node.has
    rw [hvalue]
  have hobject := t.exists_object_of_has "allOf" ((hhas _).trans hderives.has)
  rw [accepts_iff (strict r .openApi) rfl hlacks n t ht hholds hobject path x hx]
  constructor
  · intro hall
    have hmem : Keyword.allOf ∈ Keyword.all := by decide
    exact hall .allOf hmem ((hhas _).trans hderives.has)
  · intro haccepts k _ hk
    rw [hderives.only k ((hhas _).symm.trans hk)]
    exact haccepts

include hnames

/-- The derived schema accepts exactly if all its branches do. -/
theorem accepts_branches_iff :
    (strict r .openApi).Accepts derived path x
      ↔ ∀ m ∈ derived.branches "allOf", (strict r .openApi).Accepts m path x := by
  have hholds := r.holds_of_has derived (r.has_of_obtained derived hnames.obtained)
  have hself : r.deref derived = .ok derived := by
    obtain ⟨_, m, _, _, htarget⟩ := hnames
    exact r.deref_of_deref m derived htarget
  rw [accepts_iff_allOf hlacks hderives hx derived derived hself hholds rfl,
    acceptsKeyword_allOf_iff (strict r .openApi) rfl hlacks derived hholds path x hx]
  -- Nothing is excluded, so no branch is skipped.
  have hkept : ∀ m, derived.isExcluded r m = .ok false := by
    intro m
    unfold Node.isExcluded
    rw [hnames.exclusion]
  constructor
  · intro h m hm
    rcases h m hm with hskip | ⟨_, haccepts⟩
    · exact nomatch (hkept m).symm.trans hskip
    · exact haccepts
  · exact fun h m hm => Or.inr ⟨hkept m, h m hm⟩

include hr havoids

/-- The selected schema accepts exactly if all branches of the derived schema
    that do not lead back to the base accept. -/
theorem accepts_selected_iff (m : Node) (hm : r.deref m = .ok derived) :
    (strict r .openApi).Accepts (m.excluding base.scope) path x
      ↔ ∀ b ∈ derived.branches "allOf", r.deref b ≠ .ok base →
          (strict r .openApi).Accepts b path x := by
  have hholds : r.Holds (derived.excluding base.scope) :=
    r.holds_of_has derived (r.has_of_obtained derived hnames.obtained)
  have hself : r.deref (m.excluding base.scope) = .ok (derived.excluding base.scope) :=
    r.deref_excluding m derived base.scope hm
  rw [accepts_iff_allOf hlacks hderives hx _ _ hself hholds rfl,
    acceptsKeyword_allOf_iff (strict r .openApi) rfl hlacks _ hholds path x hx]
  change (∀ b ∈ derived.branches "allOf", _) ↔ _
  refine forall₂_congr fun b hb => ?_
  -- A branch that leads nowhere is neither skipped nor does it accept.
  by_cases hback : r.deref b = .ok base
  · -- A branch that leads back is skipped.
    have hskip := hderives.isExcluded_eq hr havoids hnames b base hb hback
    rw [decide_eq_true (rfl : base = base)] at hskip
    exact iff_of_true (Or.inl hskip) fun hother => absurd hback hother
  · have hkept : ∀ t, r.deref b = .ok t →
        (derived.excluding base.scope).isExcluded r b = .ok false := by
      intro t ht
      have hne : t ≠ base := fun hbase => hback (hbase ▸ ht)
      rw [hderives.isExcluded_eq hr havoids hnames b t hb ht, decide_eq_false hne]
    constructor
    · rintro (hskip | ⟨_, haccepts⟩) _
      · obtain ⟨t, ht, _⟩ := (bind_eq_ok_iff (r.follow b) _ true).mp hskip
        exact nomatch hskip.symm.trans (hkept t ((r.follow_eq_ok_iff b t).mp ht))
      · exact haccepts
    · intro h
      have haccepts := h hback
      obtain ⟨t, ht⟩ := exists_deref_of_accepts (strict r .openApi) b path x haccepts
      exact Or.inr ⟨hkept t ht, haccepts⟩

/-- The base accepts exactly if all its other keywords do and so do all branches
    of the derived schema that do not lead back. -/
theorem accepts_base_iff :
    (strict r .openApi).Accepts base path x
      ↔ (∀ k ∈ Keyword.all, k ≠ .discriminator → base.has k.name = true →
            (strict r .openApi).AcceptsKeyword k base path x)
        ∧ ∀ b ∈ derived.branches "allOf", r.deref b ≠ .ok base →
            (strict r .openApi).Accepts b path x := by
  have hholds := r.holds_of_has base (r.has_of_obtained base (hderives.obtained hnames))
  have hself := hderives.deref_base
  have hobject := base.exists_object_of_has "discriminator" hnames.has
  have hscope := hderives.scope_ne hr havoids hnames
  rw [accepts_iff (strict r .openApi) rfl hlacks base base hself hholds hobject path x hx]
  -- The discriminator selects the derived schema, and that one leads back here by one branch.
  have hdiscriminator : (strict r .openApi).AcceptsKeyword .discriminator base path x
      ↔ ∀ b ∈ derived.branches "allOf", r.deref b ≠ .ok base →
          (strict r .openApi).Accepts b path x := by
    obtain ⟨uri, m, hselected, hfound, htarget⟩ := hnames
    rw [acceptsKeyword_discriminator_iff (strict r .openApi) rfl base m derived path x uri
      hderives.unchosen hselected hfound ((r.follow_eq_ok_iff m derived).mpr htarget) hscope]
    exact accepts_selected_iff hr hlacks havoids hderives ⟨uri, m, hselected, hfound, htarget⟩ hx m
      htarget
  rw [← hdiscriminator]
  constructor
  · intro hall
    have hmem : Keyword.discriminator ∈ Keyword.all := by decide
    exact ⟨fun k hk _ => hall k hk, hall .discriminator hmem hnames.has⟩
  · rintro ⟨hothers, haccepts⟩ k hk hhas
    by_cases hdisc : k = .discriminator
    · rw [hdisc]
      exact haccepts
    · exact hothers k hk hdisc hhas

/-- The derived schema accepts exactly what the base accepts. -/
theorem accepts_derived_iff :
    (strict r .openApi).Accepts derived path x ↔ (strict r .openApi).Accepts base path x := by
  rw [accepts_branches_iff hlacks hderives hnames hx]
  constructor
  · intro h
    obtain ⟨m, hm, htarget⟩ := hderives.branch
    exact (accepts_congr (strict r .openApi) m path x base htarget).mp (h m hm)
  · -- The branches that lead back accept what the base accepts, and the others are among
    -- the conditions of the base.
    intro haccepts m hm
    by_cases hback : r.deref m = .ok base
    · exact (accepts_congr (strict r .openApi) m path x base hback).mpr haccepts
    · exact ((accepts_base_iff hr hlacks havoids hderives hnames hx).mp haccepts).2 m hm hback

/-- The keywords that are evaluated before the discriminator. -/
def keywordsBefore : List Keyword := Keyword.all.takeWhile (· != .discriminator)

/-- If the base gets to its discriminator, what another branch of the derived
    schema rejects is reported as a violation of the discriminator. -/
theorem rejects_base (hdecides : (strict r .openApi).Decides base path x)
    (hbefore : ∀ k ∈ keywordsBefore, base.has k.name = true →
      (strict r .openApi).AcceptsKeyword k base path x)
    (b : Node) (hb : b ∈ derived.branches "allOf") (hother : r.deref b ≠ .ok base)
    (w : Violation) (hrejects : (strict r .openApi).Rejects b path x w) :
    ∃ inner, (strict r .openApi).Rejects base path x
      ⟨path, base.scope, .discriminator, [⟨path, derived.scope, .allOf, [inner]⟩]⟩ := by
  have hholds := r.holds_of_has base (r.has_of_obtained base (hderives.obtained hnames))
  have hobject := base.exists_object_of_has "discriminator" hnames.has
  have hscope := hderives.scope_ne hr havoids hnames
  -- A branch that rejects keeps the base from accepting, so the base rejects at some depth.
  have hnot : ¬ (strict r .openApi).Accepts b path x := fun haccepts =>
    not_rejects_of_accepts (strict r .openApi) b path x haccepts w hrejects
  obtain ⟨depth, w', hbase⟩ : ∃ depth w',
      (strict r .openApi).evaluateIn (depth + 1) base path x = .error (.violation w') := by
    rcases hdecides with haccepts | ⟨w', depth, hbase⟩
    · exact absurd (((accepts_base_iff hr hlacks havoids hderives hnames hx).mp haccepts).2 b hb
        hother) hnot
    · rcases depth with _ | depth
      · exact nomatch hbase
      · exact ⟨depth, w', hbase⟩
  have hsplit : (strict r .openApi).dialect.keywords
      = keywordsBefore ++ .discriminator :: [.allOf, .anyOf, .oneOf, .not] := by
    change Keyword.all = _
    decide
  have hstep :=
    evaluateIn_succ (strict r .openApi) base base hderives.deref_base hobject depth path x
  rw [hsplit, evaluateKeywords_append] at hstep
  rcases evaluateKeywords_of_accepts (strict r .openApi) rfl hlacks base hholds x hx path
    keywordsBefore hbefore depth with hshort | hpass
  · -- The evaluation would lack depth before it came to the discriminator.
    rw [hshort] at hstep
    exact nomatch hbase.symm.trans hstep
  · rw [hpass] at hstep
    change _ = evaluateKeywords _ _ _ base path x at hstep
    rw [evaluateKeywords_cons _ _ .discriminator _ base hnames.has] at hstep
    obtain ⟨uri, m, hselected, hfound, htarget⟩ := hnames
    have hfollow := (r.follow_eq_ok_iff m derived).mpr htarget
    rw [evaluateKeyword_discriminator (strict r .openApi) _ rfl base m derived path x uri
      hderives.unchosen hselected hfound hfollow hscope] at hstep
    have hnames : r.Names base derived path x := ⟨uri, m, hselected, hfound, htarget⟩
    -- The selected schema cannot accept, and any failure but a violation would be that of the base.
    rcases hm : (strict r .openApi).evaluateIn depth (m.excluding base.scope) path x with e | value
    · rw [hm] at hstep
      cases e with
      | schema e => exact nomatch hbase.symm.trans hstep
      | depth => exact nomatch hbase.symm.trans hstep
      | violation cause =>
          obtain ⟨inner, rfl⟩ := exists_of_selected_violation hderives m htarget depth cause hm
          exact ⟨inner, depth + 1, hstep⟩
    · have haccepts := (accepts_selected_iff hr hlacks havoids hderives hnames hx m htarget).mp
        ⟨depth, value, hm⟩
      exact absurd (haccepts b hb hother) hnot

/-- For an instance that names the derived schema both schemas accept, or neither
    does, and it is up to the other keywords of the base and the other branches of
    the derived schema which it is. A branch that rejects makes the base reject by
    its discriminator, unless a keyword before that did. -/
theorem accepts_base_iff_derived :
    ((strict r .openApi).Accepts base path x ↔ (strict r .openApi).Accepts derived path x)
      ∧ ((strict r .openApi).Accepts derived path x
        ↔ (∀ k ∈ Keyword.all, k ≠ .discriminator → base.has k.name = true →
              (strict r .openApi).AcceptsKeyword k base path x)
          ∧ ∀ b ∈ derived.branches "allOf", r.deref b ≠ .ok base →
              (strict r .openApi).Accepts b path x)
      ∧ ((strict r .openApi).Decides base path x →
          (∀ k ∈ keywordsBefore, base.has k.name = true →
            (strict r .openApi).AcceptsKeyword k base path x) →
          ∀ b ∈ derived.branches "allOf", r.deref b ≠ .ok base →
            ∀ w, (strict r .openApi).Rejects b path x w →
              ∃ inner, (strict r .openApi).Rejects base path x
                ⟨path, base.scope, .discriminator, [⟨path, derived.scope, .allOf, [inner]⟩]⟩) := by
  have hderived := accepts_derived_iff hr hlacks havoids hderives hnames hx
  refine ⟨hderived.symm, ?_, ?_⟩
  · exact hderived.trans (accepts_base_iff hr hlacks havoids hderives hnames hx)
  · intro hdecides hbefore b hb hother w hrejects
    exact rejects_base hr hlacks havoids hderives hnames hx hdecides hbefore b hb hother w hrejects

omit hr hlacks havoids hderives hnames hx

/-- The address of the schemas of a kennel. -/
def kennelAddress : Uri := ⟨"http", some (.ofHost "kennel"), .segments ["pets"], none, none⟩

/-- Pets have a kind, by name or by what it is called in the kennel. -/
def kennelPetSchema : Json :=
  .object [("required", .array [.string "kind"]),
    ("discriminator", .object [("propertyName", .string "kind"),
      ("mapping", .object [("hound", .string "\x23/components/schemas/Dog")])])]

/-- A reference to pets. -/
def kennelReference : Json := .object [("$ref", .string "\x23/components/schemas/Pet")]

/-- What dogs have beside pets. -/
def barkSchema : Json := .object [("required", .array [.string "bark"])]

/-- Dogs are pets that bark. -/
def kennelDogSchema : Json := .object [("allOf", .array [kennelReference, barkSchema])]

/-- The schemas of the kennel. -/
def kennelDocument : Json :=
  .object [("components", .object [("schemas",
    .object [("Pet", kennelPetSchema), ("Dog", kennelDogSchema)])])]

/-- The registry of the kennel. -/
def kennel : Registry := ⟨[(kennelAddress, kennelDocument)], [], []⟩

/-- A schema of the kennel, or a place in one. -/
def kennelNode (value : Json) (place : String) : Node :=
  ⟨value, kennelAddress, "/components/schemas/" ++ place, kennelAddress, none⟩

/-- The schema of pets. -/
def kennelPet : Node := kennelNode kennelPetSchema "Pet"

/-- The schema of dogs. -/
def kennelDog : Node := kennelNode kennelDogSchema "Dog"

/-- A dog that barks. -/
def barkingDog : Json := .object [("kind", .string "hound"), ("bark", .bool true)]

/-- A dog that does not. -/
def silentDog : Json := .object [("kind", .string "Dog")]

theorem built_kennel : kennel.Built := by
  have hread : Uri.readLenient? "http://kennel/pets" = some kennelAddress := by decide +kernel
  refine .register Registry.empty kennel "http://kennel/pets" kennelDocument kennelAddress .empty ?_
  unfold Registry.register
  rw [hread]
  rfl

theorem derives_kennel : kennel.Derives kennelPet kennelDog where
  unchosen := by decide +kernel
  only := by
    have hall : ∀ k ∈ Keyword.all, kennelDog.has k.name = true → k = .allOf := by decide +kernel
    intro k
    exact hall k (by cases k <;> decide)
  branch := by
    refine ⟨kennelNode kennelReference "Dog/allOf/0", by decide +kernel, ?_⟩
    exact eq_ok_of_toOption _ _ (by decide +kernel)

/-- Both dogs name the schema of dogs. -/
theorem names_kennel (x : Json) (h : x = barkingDog ∨ x = silentDog) :
    kennel.Names kennelPet kennelDog "" x := by
  refine ⟨kennelDog.scopeUri, kennelDog, ?_, by decide +kernel, ?_⟩
  · rcases h with rfl | rfl
    · exact eq_ok_of_toOption _ _ (by decide +kernel)
    · exact eq_ok_of_toOption _ _ (by decide +kernel)
  · exact eq_ok_of_toOption _ _ (by decide +kernel)

/-- Both schemas accept the dog that barks. The other one is rejected as a pet
    because it is no dog. -/
theorem accepts_base_iff_derived_dog :
    ((strict kennel .openApi).Accepts kennelPet "" barkingDog
        ∧ (strict kennel .openApi).Accepts kennelDog "" barkingDog)
      ∧ ∃ inner, (strict kennel .openApi).Rejects kennelPet "" silentDog
          ⟨"", kennelPet.scope, .discriminator, [⟨"", kennelDog.scope, .allOf, [inner]⟩]⟩ := by
  have hlacks : ∀ entry ∈ kennel.documents, entry.2.Lacks "default" := by decide +kernel
  have havoids : ∀ entry ∈ kennel.documents, entry.2.Avoids Uri.isAltered := by decide +kernel
  have hbarking : barkingDog.WellFormed := by decide +kernel
  have hsilent : silentDog.WellFormed := by decide +kernel
  obtain ⟨haccepts, _⟩ := accepts_base_iff_derived built_kennel hlacks havoids derives_kennel
    (names_kennel barkingDog (Or.inl rfl)) hbarking
  obtain ⟨_, _, hrejects⟩ := accepts_base_iff_derived built_kennel hlacks havoids derives_kennel
    (names_kennel silentDog (Or.inr rfl)) hsilent
  have hpet : (strict kennel .openApi).Accepts kennelPet "" barkingDog :=
    ⟨5, barkingDog, eq_ok_of_toOption _ _ (by decide +kernel)⟩
  have hdecides : ∃ w, (strict kennel .openApi).evaluateIn 5 kennelPet "" silentDog
      = .error (.violation w) := by decide +kernel
  have hbark : ∃ w, (strict kennel .openApi).evaluateIn 1 (kennelNode barkSchema "Dog/allOf/1") ""
      silentDog = .error (.violation w) := by decide +kernel
  have hbefore : ∀ k ∈ keywordsBefore, kennelPet.has k.name = true →
      ((strict kennel .openApi).evaluateKeyword ((strict kennel .openApi).evaluateIn 0) k
        kennelPet "" silentDog).toOption = some silentDog := by decide +kernel
  obtain ⟨w', hw'⟩ := hdecides
  obtain ⟨w, hw⟩ := hbark
  refine ⟨⟨hpet, haccepts.mp hpet⟩, ?_⟩
  refine hrejects (Or.inr ⟨w', 5, hw'⟩) (fun k hk hhas => ?_)
    (kennelNode barkSchema "Dog/allOf/1") (by decide +kernel) ?_ w ⟨1, hw⟩
  · exact ⟨0, silentDog, eq_ok_of_toOption _ _ (hbefore k hk hhas)⟩
  · intro hback
    have hself : (kennel.deref (kennelNode barkSchema "Dog/allOf/1")).toOption
        ≠ some kennelPet := by decide +kernel
    exact hself (by rw [hback]; rfl)

end Validator

end OpenApi
