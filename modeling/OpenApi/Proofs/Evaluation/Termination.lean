import OpenApi.Proofs.Evaluation.Conversion
import OpenApi.Proofs.Evaluation.Depth
import OpenApi.Proofs.Evaluation.Divergence
import OpenApi.Proofs.Evaluation.Graph
import OpenApi.Proofs.Json.Identical

/-!
# Evaluations End

An evaluation goes down in its instance or stays at it. Down it can only go as
deep as the instance is high. While it stays, it walks along the edges of the
graph of that instance; if they lead to no cycle, the walk is no longer than the
rank of the node it starts from. So height first and rank second is a measure
that every step lowers, and some depth is enough. Whatever is deeper than that
gives the same outcome.

The instance is not the same all the way, as texts are converted. The steps stay
nevertheless: only a text selects a schema, and conversions make no texts. So the
measure speaks about the part of the original instance that the current one comes
from, and the schemas that an evaluation gets to are those that the original
instance reaches.

Whether there is a cycle depends on the exclusions. A schema that selects a
schema derived from it is excluded from the `allOf` of the latter, so the
inheritance of one step makes no cycle. With an inheritance of two steps the way
back to the base leads through a schema in between, which excludes nothing, and
the evaluation goes round for every depth. It is only the schemas reached from
the first one that count, and the parts of the instance they are reached with.

## Theorems

* `applies_of_converted`: What conversions lead to was led to before.
* `keeps_of_measure`: A depth above the measure is enough.
* `evaluateIn_terminates`: Where nothing that is reached comes back, some depth is
  enough.
-/

namespace OpenApi

namespace Node

variable (r : Registry) (n m : Node)

/-- When something is selected. Neither the path nor an exclusion matters. -/
theorem selected_eq_ok_iff (path : String) (z : Json) (uri : Uri) :
    n.selected path z = .ok uri ↔ ∃ property text target,
      ((n.get? "discriminator").bind fun d => d.get? "propertyName") = some (.string property) ∧
        z.get? property = some (.string text) ∧ n.mapped text = .ok target ∧
          n.base.resolve? (referenceOf target) = some uri := by
  unfold selected
  constructor
  -- Each of the three lookups on the way has to succeed, or there is a failure.
  · intro h
    split at h
    · rename_i property hproperty
      split at h
      · rename_i text htext
        rcases hmapped : n.mapped text with e | target
        · rw [hmapped] at h
          exact absurd h (by simp only [bind, Except.bind, reduceCtorEq, not_false_eq_true])
        · rw [hmapped] at h
          rcases huri : n.base.resolve? (referenceOf target) with _ | uri'
          · simp only [bind, Except.bind, huri, Failure.ofSchema, reduceCtorEq] at h
          · simp only [bind, Except.bind, huri, Except.ok.injEq] at h
            exact ⟨property, text, target, hproperty, htext, hmapped, h ▸ huri⟩
      · exact absurd h (by simp only [Failure.ofCauses, reduceCtorEq, not_false_eq_true])
    · exact absurd h (by simp only [Failure.ofSchema, reduceCtorEq, not_false_eq_true])
  · rintro ⟨property, text, target, hproperty, htext, hmapped, huri⟩
    rw [hproperty]
    dsimp only
    rw [htext]
    dsimp only
    rw [hmapped]
    simp only [bind, Except.bind, huri]

/-- A schema that is selected after conversions was selected before. -/
theorem selected_of_converted (path : String) (z y : Json) (hzy : Json.Converted z y) (uri : Uri)
    (h : n.selected path y = .ok uri) : n.selected path z = .ok uri := by
  rcases (n.selected_eq_ok_iff path y uri).mp h with ⟨property, text, target, hproperty, htext, hrest⟩
  exact (n.selected_eq_ok_iff path z uri).mpr
    ⟨property, text, target, hproperty, Json.get?_of_converted z y hzy property text htext, hrest⟩

theorem selected_bare (path path' : String) (z : Json) (uri : Uri)
    (h : n.selected path z = .ok uri) : n.bare.selected path' z = .ok uri :=
  (n.bare.selected_eq_ok_iff path' z uri).mpr ((n.selected_eq_ok_iff path z uri).mp h)

theorem has_of_selected (path : String) (z : Json) (uri : Uri) (h : n.selected path z = .ok uri) :
    n.bare.has "discriminator" = true := by
  rcases (n.selected_eq_ok_iff path z uri).mp h with ⟨_, _, _, hproperty, _⟩
  rcases Option.bind_eq_some_iff.mp hproperty with ⟨d, hd, _⟩
  exact Option.isSome_iff_exists.mpr ⟨d, hd⟩

/-- What a schema applies after conversions it applied before, to what the part of the
    instance was then. -/
theorem applies_of_converted (z y w : Json) (hzy : Json.Converted z y) (h : n.Applies r y m w) :
    ∃ z', n.Applies r z m z' ∧ Json.Converted z' w := by
  cases h with
  | item items' i _ _ hitem hschema =>
      obtain ⟨items, rfl, hitems⟩ := Json.array_of_converted z items' hzy
      obtain ⟨z', hz', hconverted⟩ := exists_getElem?_of_forall₂ items items' hitems i w hitem
      exact ⟨z', .item items i z' m hz' hschema, hconverted⟩
  | additionalItem items' schemas i _ _ hschemas hbehind hitem hm =>
      obtain ⟨items, rfl, hitems⟩ := Json.array_of_converted z items' hzy
      obtain ⟨z', hz', hconverted⟩ := exists_getElem?_of_forall₂ items items' hitems i w hitem
      exact ⟨z', .additionalItem items schemas i z' m hschemas hbehind hz' hm, hconverted⟩
  | property members' name _ _ hmember hdeclared hm =>
      obtain ⟨members, rfl, hmembers⟩ := Json.object_of_converted z members' hzy
      obtain ⟨⟨key, z'⟩, hz', rfl, hconverted⟩ :=
        exists_of_forall₂ members members' hmembers (name, w) hmember
      exact ⟨z', .property members key z' m hz' hdeclared hm, hconverted⟩
  | additionalProperty members' name _ _ hmember hother hm =>
      obtain ⟨members, rfl, hmembers⟩ := Json.object_of_converted z members' hzy
      obtain ⟨⟨key, z'⟩, hz', rfl, hconverted⟩ :=
        exists_of_forall₂ members members' hmembers (name, w) hmember
      exact ⟨z', .additionalProperty members key z' m hz' hother hm, hconverted⟩
  | member _ _ hbranch hexcluded => exact ⟨z, .member z m hbranch hexcluded, hzy⟩
  | choice key _ _ hkey hbranch => exact ⟨z, .choice key z m hkey hbranch, hzy⟩
  | negation _ _ hm => exact ⟨z, .negation z m hm, hzy⟩
  | selection _ target hselects =>
      -- The text that has selected is one that nothing was converted to.
      obtain ⟨hany, hone, path, uri, t, hselected, hrest⟩ := hselects
      exact ⟨z, .selection z target
        ⟨hany, hone, path, uri, t, selected_of_converted n path z y hzy uri hselected, hrest⟩, hzy⟩

/-- A schema that has just `allOf` and a discriminator applies its branches and what it
    selects. -/
theorem applies_of_inherits (x y : Json)
    (hother : ∀ key ∈ ["items", "properties", "additionalProperties", "anyOf", "oneOf", "not"],
      n.get? key = none)
    (h : n.Applies r x m y) :
    y = x ∧ (m ∈ n.branches "allOf" ∧ n.isExcluded r m = .ok false
      ∨ ∃ t, n.Selects r x t ∧ m = t.excluding n.scope) := by
  have hchild : ∀ key, Pointer.index? key = none → n.get? key = none → n.child? [key] = none :=
    fun key hindex hnone => Option.map_eq_none_iff.mp ((n.map_value_key key hindex).trans hnone)
  have hitems := hother "items" (by decide)
  cases h with
  | item items i _ _ _ hm =>
      unfold itemSchema? at hm
      rw [hitems] at hm
      exact nomatch hm.symm.trans (hchild "items" (by decide) hitems)
  | additionalItem _ _ _ _ _ hschemas _ _ _ => exact nomatch hschemas.symm.trans hitems
  | property _ _ _ _ _ hdeclared _ =>
      obtain ⟨_, hdeclared⟩ := hdeclared
      exact nomatch hdeclared.symm.trans (hother "properties" (by decide))
  | additionalProperty _ _ _ _ _ _ hm =>
      exact nomatch hm.symm.trans (hchild _ (by decide) (hother "additionalProperties" (by decide)))
  | member _ _ hbranch hexcluded => exact ⟨rfl, Or.inl ⟨hbranch, hexcluded⟩⟩
  | choice key _ _ hkey hbranch =>
      have hnone : n.get? key = none := by
        rcases hkey with rfl | rfl
        · exact hother "anyOf" (by decide)
        · exact hother "oneOf" (by decide)
      obtain ⟨_, hsome⟩ := Option.isSome_iff_exists.mp (n.has_of_mem_branches m key hbranch)
      exact nomatch hsome.symm.trans hnone
  | negation _ _ hm => exact nomatch hm.symm.trans (hchild _ (by decide) (hother "not" (by decide)))
  | selection _ t hselects => exact ⟨rfl, Or.inr ⟨t, hselects, rfl⟩⟩

end Node

namespace Validator

section Measure

variable (v : Validator) (hlacks : ∀ entry ∈ v.registry.documents, entry.2.Lacks "default")
  (n₀ : Node) (hn₀ : v.registry.Vertex n₀) (x : Json)
  (hacyclic : ∀ n z, v.registry.Reaches n₀ x n z → n.Acyclic v.registry z)

include hlacks hn₀ hacyclic

/-- The measure of a node that is reached with a part `z` of the instance is its rank,
    below a multiple of the height of `z` that no rank reaches. -/
theorem keeps_of_measure (depth : Nat) :
    ∀ (n : Node) (z y : Json), v.registry.Reaches n₀ x n z → Json.Converted z y →
      y.WellFormed → z.height * (v.registry.size + 1) + n.rank v.registry z < depth →
        Evaluation.Keeps (v.evaluateIn depth) False Json.Converted n y := by
  induction depth with
  | zero => exact fun n z y _ _ _ hdepth => absurd hdepth (Nat.not_lt_zero _)
  | succ depth ih =>
      intro n z y hn hzy hy hdepth path
      have hvertex := v.registry.vertex_of_reaches x n₀ n z hn₀ hn
      refine evaluateWith_promises Json.rewriting_converted False v (v.evaluateIn depth)
        (fun _ => Json.converted_convert) n (fun t ht => ?_) path y hy
        (fun t y' m w₀ w ht hy' hm hw => ?_)
      · exact v.registry.addsNothing_of_lacks hlacks t (v.registry.closed_holds.follow _ n t
          (v.registry.holds_of_has n hvertex.1) ht)
      · have hw₀ : w₀.WellFormed := Json.wellFormed_of_mem_parts y' w₀
          (Json.wellFormed_of_converted y y' hy' hy) (Node.mem_parts_of_applies _ t m y' w₀ hm)
        have hwell : w.WellFormed := Json.wellFormed_of_converted w₀ w hw hw₀
        obtain ⟨z', hm', hz'⟩ := Node.applies_of_converted v.registry t m z y' w₀
          (Json.converted_trans z y y' hzy hy') hm
        have hreaches : v.registry.Reaches n₀ x m z' := .step n t m z z' hn ht hm'
        refine ih m z' w hreaches (Json.converted_trans z' w₀ w hz' hw) hwell ?_
        rcases Node.applies_cases v.registry t m z z' hm' with hlower | ⟨rfl, _⟩
        · -- The instance gets lower, whatever the rank is there.
          have hle := v.registry.rank_le z' m (v.registry.vertex_of_reaches x n₀ m z' hn₀ hreaches)
          have hmul := Nat.mul_le_mul_right (v.registry.size + 1) (Nat.succ_le_of_lt hlower)
          rw [Nat.succ_mul] at hmul
          omega
        · -- The instance stays, and the rank goes down.
          have hlt := v.registry.rank_lt z' n m hvertex (hacyclic n z' hn) ⟨t, ht, hm'⟩
          omega

end Measure

/-- Where no schema is written with itself, and no selection that the evaluation can get
    to comes back, some depth is enough, and evaluating deeper makes no difference. -/
theorem evaluateIn_terminates (v : Validator)
    (hlacks : ∀ entry ∈ v.registry.documents, entry.2.Lacks "default")
    (hfounded : v.registry.Founded) (x : Json) (hx : x.WellFormed) (n : Node)
    (hn : v.registry.Vertex n)
    (hback : ∀ m z, v.registry.Reaches n x m z → ¬ m.ComesBack v.registry z) :
    ∃ depth, ∀ path, v.evaluateIn depth n path x ≠ .error .depth
      ∧ ∀ depth' ≥ depth, v.evaluateIn depth' n path x = v.evaluateIn depth n path x := by
  have hacyclic : ∀ m z, v.registry.Reaches n x m z → m.Acyclic v.registry z := by
    intro m z hm
    have hvertex := v.registry.vertex_of_reaches x n m z hn hm
    exact (v.registry.acyclic_iff z hfounded m hvertex).mpr fun k hk =>
      hback k z (v.registry.reaches_of_reflTransGen x n m k z hm hk)
  refine ⟨x.height * (v.registry.size + 1) + n.rank v.registry x + 1, fun path => ?_⟩
  have hkeeps := keeps_of_measure v hlacks n hn x hacyclic _ n x x .start (.same x) hx
    (Nat.lt_succ_self _) path
  have hdepth := ne_depth_of_promises _ _ hkeeps
  exact ⟨hdepth, fun depth' hle => v.evaluateIn_eq_of_le _ depth' hle n path x hdepth⟩

/-- The address of the schemas of a pet shop. -/
def shopAddress : Uri := ⟨"http", some (.ofHost "shop"), .segments ["pets"], none, none⟩

/-- A schema that its instances select a derived one in place of. -/
def baseSchema : Json :=
  .object [("discriminator", .object [("propertyName", .string "kind")])]

/-- A reference to a schema of the shop. -/
def shopReference (name : String) : Json :=
  .object [("$ref", .string ("\x23/components/schemas/" ++ name))]

/-- A schema derived from another one. -/
def derivedSchema (base : String) : Json := .object [("allOf", .array [shopReference base])]

/-- Puppies are dogs and dogs are pets. -/
def shopDocument : Json :=
  .object [("components", .object [("schemas", .object [("Pet", baseSchema),
    ("Dog", derivedSchema "Pet"), ("Puppy", derivedSchema "Dog")])])]

/-- The validator of the shop. -/
def shop : Validator := ⟨⟨[(shopAddress, shopDocument)], [], []⟩, .openApi, false⟩

/-- A schema of the shop, or a place in one. -/
def shopNode (value : Json) (place : String) : Node :=
  ⟨value, shopAddress, "/components/schemas/" ++ place, shopAddress, none⟩

/-- The schema of pets. -/
def shopPet : Node := shopNode baseSchema "Pet"

/-- The schema of dogs, selected for a pet. -/
def shopDog : Node := (shopNode (derivedSchema "Pet") "Dog").excluding shopPet.scope

/-- The schema of puppies, selected for a pet. -/
def shopPuppy : Node := (shopNode (derivedSchema "Dog") "Puppy").excluding shopPet.scope

/-- The place of a schema among the others. -/
def shopRank (n : Node) : Nat :=
  ["/components/schemas/Pet", "/components/schemas/Dog/allOf/0", "/components/schemas/Dog",
    "/components/schemas/Puppy/allOf/0", "/components/schemas/Puppy"].idxOf n.pointer

/-- A pet of some kind. -/
def petOf (kind : String) : Json := .object [("kind", .string kind)]

/-- A dog that has a puppy for a friend. -/
def dogAndPuppy : Json := .object [("kind", .string "Dog"), ("friend", petOf "Puppy")]

theorem lacks_shop : ∀ entry ∈ shop.registry.documents, entry.2.Lacks "default" := by
  decide

theorem vertex_shop : shop.registry.Vertex shopPet :=
  ⟨(rfl : shop.registry.nodeAt? _ = some _), Or.inl rfl⟩

/-- A pet selects the schema of dogs if it is one, and its schema applies no other. -/
theorem applies_pet (m : Node) (z : Json) (h : shopPet.Applies shop.registry dogAndPuppy m z) :
    m = shopDog ∧ z = dogAndPuppy := by
  obtain ⟨hz, ⟨hbranch, _⟩ | ⟨t, hselects, rfl⟩⟩ :=
    Node.applies_of_inherits _ _ _ _ _ (by decide) h
  · exact absurd hbranch List.not_mem_nil
  · obtain ⟨_, _, path, uri, _, huri, ht, _⟩ := hselects
    have hselected : (shopPet.selected "" dogAndPuppy).toOption
        = some (shopAddress.withFragment "/components/schemas/Dog") := by decide +kernel
    have hdog : shop.registry.node? (shopAddress.withFragment "/components/schemas/Dog")
        = some shopDog.bare := by decide +kernel
    have huri' : shopPet.selected "" dogAndPuppy = .ok uri := shopPet.selected_bare path "" _ uri huri
    rw [huri'] at hselected
    rw [Option.some.inj hselected, hdog] at ht
    rw [← Option.some.inj ht]
    exact ⟨rfl, hz⟩

/-- The schema of dogs applies nothing, as pets are excluded from it. -/
theorem not_applies_dog (m : Node) (x z : Json) : ¬ shopDog.Applies shop.registry x m z := by
  intro h
  obtain ⟨_, ⟨hbranch, hexcluded⟩ | ⟨t, hselects, _⟩⟩ :=
    Node.applies_of_inherits _ _ _ _ _ (by decide) h
  · have hbranches : shopDog.branches "allOf"
        = [shopNode (shopReference "Pet") "Dog/allOf/0"] := rfl
    have hpet : (shopDog.isExcluded shop.registry
        (shopNode (shopReference "Pet") "Dog/allOf/0")).toOption = some true := by decide +kernel
    rw [hbranches, List.mem_singleton] at hbranch
    rw [← hbranch, hexcluded] at hpet
    exact absurd hpet (by decide)
  · obtain ⟨_, _, path, uri, _, huri, _⟩ := hselects
    exact absurd (Node.has_of_selected _ path _ uri huri) (by decide)

theorem follow_shop : shop.registry.follow shopPet = .ok shopPet
    ∧ shop.registry.follow shopDog = .ok shopDog :=
  ⟨eq_ok_of_toOption _ _ (by decide +kernel), eq_ok_of_toOption _ _ (by decide +kernel)⟩

/-- From the schema of pets a dog comes to that of dogs, and its friend comes to none. -/
theorem reaches_dog (n : Node) (z : Json)
    (h : shop.registry.Reaches shopPet dogAndPuppy n z) :
    (n = shopPet ∨ n = shopDog) ∧ z = dogAndPuppy := by
  induction h with
  | start => exact ⟨Or.inl rfl, rfl⟩
  | step m t k y z _ hfollow happlies ih =>
      obtain ⟨rfl | rfl, rfl⟩ := ih
      · rw [follow_shop.1] at hfollow
        rw [← Except.ok.inj hfollow] at happlies
        obtain ⟨rfl, rfl⟩ := applies_pet k z happlies
        exact ⟨Or.inr rfl, rfl⟩
      · rw [follow_shop.2] at hfollow
        rw [← Except.ok.inj hfollow] at happlies
        exact absurd happlies (not_applies_dog k _ z)

/-- No dog is a pet again. -/
theorem not_comesBack_dog (n : Node) (z : Json)
    (h : shop.registry.Reaches shopPet dogAndPuppy n z) : ¬ n.ComesBack shop.registry z := by
  have hleads : ∀ k x, ¬ shopDog.Leads shop.registry x k := by
    rintro k x ⟨t, hfollow, happlies⟩
    rw [follow_shop.2] at hfollow
    rw [← Except.ok.inj hfollow] at happlies
    exact not_applies_dog k x x happlies
  rintro ⟨t, m, hfollow, hselects, hback⟩
  obtain ⟨rfl | rfl, rfl⟩ := reaches_dog n z h
  · rw [follow_shop.1] at hfollow
    rw [← Except.ok.inj hfollow] at hselects hback
    rw [(applies_pet _ _ (.selection _ m hselects)).1] at hback
    rcases Relation.ReflTransGen.cases_head hback with heq | ⟨k, hedge, _⟩
    · exact nomatch congrArg Node.exclusion heq
    · exact hleads k _ hedge
  · exact hleads _ _ ⟨t, hfollow, .selection _ m hselects⟩

/-- Whatever leads to pets demands the schema that they select for a puppy. -/
theorem demands_puppy_of_follow (n : Node) (hn : shop.registry.follow n = .ok shopPet) :
    n.Demands shop "" (petOf "Puppy") shopPuppy := by
  have hselected : (shopPet.selected "" (petOf "Puppy")).toOption
      = some (shopAddress.withFragment "/components/schemas/Puppy") := by decide +kernel
  have hm : shop.registry.node? (shopAddress.withFragment "/components/schemas/Puppy")
      = some shopPuppy.bare := by decide +kernel
  have htarget : (shop.registry.follow shopPuppy.bare).toOption = some shopPuppy.bare := by
    decide +kernel
  exact Node.demands_selection shop "" (petOf "Puppy") n shopPet shopPuppy.bare shopPuppy.bare _ []
    _ rfl hn rfl (by decide +kernel) (by decide +kernel) (eq_ok_of_toOption _ _ hselected) hm
    (eq_ok_of_toOption _ _ htarget) (by decide +kernel)

/-- A puppy is first a dog, which excludes nothing, and so a pet again. -/
theorem demands_puppy :
    Relation.TransGen (Node.Demands shop "" (petOf "Puppy")) shopPuppy shopPuppy := by
  have htoDog : (shop.registry.follow shopPuppy).toOption = some shopPuppy := by decide +kernel
  have htoPet : (shop.registry.follow (shopNode (shopReference "Dog") "Puppy/allOf/0")).toOption
      = some shopDog.bare := by decide +kernel
  have hpet : (shop.registry.follow (shopNode (shopReference "Pet") "Dog/allOf/0")).toOption
      = some shopPet := by decide +kernel
  have hexcluded : (shopPuppy.isExcluded shop.registry
      (shopNode (shopReference "Dog") "Puppy/allOf/0")).toOption = some false := by decide +kernel
  have hpuppy : shopPuppy.Demands shop "" (petOf "Puppy")
      (shopNode (shopReference "Dog") "Puppy/allOf/0") :=
    Node.demands_member shop "" _ shopPuppy shopPuppy _ _ [] [] (eq_ok_of_toOption _ _ htoDog) rfl
      (by decide +kernel) (by decide +kernel) (eq_ok_of_toOption _ _ hexcluded)
  have hdog : (shopNode (shopReference "Dog") "Puppy/allOf/0").Demands shop "" (petOf "Puppy")
      (shopNode (shopReference "Pet") "Dog/allOf/0") :=
    Node.demands_member shop "" _ _ shopDog.bare _ _ [] [] (eq_ok_of_toOption _ _ htoPet) rfl
      (by decide +kernel) (by decide +kernel) rfl
  exact .tail (.tail (.single hpuppy) hdog)
    (demands_puppy_of_follow _ (eq_ok_of_toOption _ _ hpet))

/-- Derived schemas come after what they are derived from. -/
theorem founded_shop : shop.registry.Founded :=
  Registry.founded_of_lt _ shopRank (by decide +kernel)

/-- One step of inheritance: some depth is enough for a dog, although none would be for
    its friend, which the schema of pets says nothing about. -/
theorem evaluateIn_terminates_dog :
    ∃ depth, ∀ path, shop.evaluateIn depth shopPet path dogAndPuppy ≠ .error .depth
      ∧ ∀ depth' ≥ depth, shop.evaluateIn depth' shopPet path dogAndPuppy
        = shop.evaluateIn depth shopPet path dogAndPuppy :=
  evaluateIn_terminates shop lacks_shop founded_shop dogAndPuppy (by decide) shopPet
    vertex_shop not_comesBack_dog

/-- Two steps of inheritance: no depth is enough for a puppy. -/
theorem evaluateIn_puppy :
    (∀ entry ∈ shop.registry.documents, entry.2.Lacks "default") ∧ shop.registry.Founded
      ∧ shop.registry.Vertex shopPet ∧ (petOf "Puppy").WellFormed
      ∧ ∀ depth, shop.evaluateIn depth shopPet "" (petOf "Puppy") = .error .depth :=
  ⟨lacks_shop, founded_shop, vertex_shop, by decide,
    fun depth => shop.evaluateIn_of_cycle "" _ shopPuppy demands_puppy depth shopPet
      (.single (demands_puppy_of_follow shopPet follow_shop.1))⟩

end Validator

end OpenApi
