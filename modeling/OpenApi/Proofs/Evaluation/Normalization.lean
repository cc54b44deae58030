import OpenApi.Proofs.Evaluation.Dialect
import OpenApi.Proofs.Evaluation.Steadiness

/-!
# Normal Forms of Instances

An evaluation returns its instance with defaults added. One would expect that
nothing is left to be added then, and that the same schema returns what it has
returned once more. If texts are not converted and the default of each declared
member is accepted by its schema, this is so for every steady evaluation, and so
for every one that meets no fragile checks and no combinators.

It is not so for every schema, because keywords are not evaluated again when a
later one has added a default. `disturbed` has a schema for each of the ways in
which the second outcome can be another one.

## Main definitions

* `Validator.SettlesOnDefaults`: Every schema accepts its own default.
* `disturbed`: Schemas whose evaluations are not steady.

## Theorems

* `evaluateIn_normal`: What a steady evaluation returns is returned once more.
* `evaluateIn_normal_of_isCalm`: So is what an evaluation by way of calm schemas returns.
* `not_evaluateIn_normal`: Without steadiness it may not be.
-/

namespace OpenApi

namespace Validator

variable (v : Validator)

/-- What a schema has returned in a steady evaluation, it returns once more as it
    is. -/
theorem evaluateIn_normal (r : Registry)
    (hdocuments : ∀ entry ∈ r.documents, entry.2.WellFormed)
    (hkeeps : (strict r .jsonSchema).KeepsDefaults) (depth : Nat) (n : Node) (hn : r.Has n)
    (path : String) (x y : Json) (hx : x.WellFormed)
    (hsteady : (strict r .jsonSchema).evaluateSteadily depth n path x ≠ .error .depth)
    (h : (strict r .jsonSchema).evaluateIn depth n path x = .ok y) :
    ∃ depth', (strict r .jsonSchema).evaluateIn depth' n path y = .ok y := by
  have hsame := eq_of_below _ _ ((strict r .jsonSchema).evaluateSteadily_below rfl depth n path x)
    hsteady
  exact (strict r .jsonSchema).stabilizes_evaluateSteadily rfl rfl hdocuments hkeeps depth n path x y
    hn hx (hsame.trans h)

/-- What a schema has returned in an evaluation that met calm schemas only, it returns
    once more as it is. -/
theorem evaluateIn_normal_of_isCalm (r : Registry)
    (hdocuments : ∀ entry ∈ r.documents, entry.2.WellFormed)
    (hkeeps : (strict r .jsonSchema).KeepsDefaults) (depth : Nat) (n : Node) (hn : r.Has n)
    (path : String) (x y : Json) (hx : x.WellFormed)
    (hcalm : (strict r .jsonSchema).evaluateAmong Node.isCalm depth n path x ≠ .error .depth)
    (h : (strict r .jsonSchema).evaluateIn depth n path x = .ok y) :
    ∃ depth', (strict r .jsonSchema).evaluateIn depth' n path y = .ok y := by
  have hin := eq_of_below _ _
    ((strict r .jsonSchema).evaluateAmong_below Node.isCalm depth n path x) hcalm
  have hsteady := eq_of_below _ _
    ((strict r .jsonSchema).evaluateAmong_below_steadily rfl depth n path x) hcalm
  exact (strict r .jsonSchema).stabilizes_evaluateSteadily rfl rfl hdocuments hkeeps depth n path x y
    hn hx (hsteady.symm.trans (hin.trans h))

/-- A part of a document that has a default has nothing else. -/
def isBare (part : Json) : Bool :=
  match part.get? "default" with
  | none => true
  | some value => decide (part = .object [("default", value)])

/-- A schema that is nothing but a default accepts every instance. -/
theorem settles_of_bare (n : Node) (value : Json) (hvalue : n.value = .object [("default", value)])
    (path : String) (x : Json) : v.Settles n path x := by
  have hget : ∀ key, key ≠ "default" → n.get? key = none := by
    intro key hkey
    unfold Node.get?
    rw [hvalue, Json.get?, Ordered.get?_eq_none_iff]
    exact fun hmem => hkey (List.mem_singleton.mp hmem)
  have hderef : v.registry.deref n = .ok n := by
    unfold Registry.deref Registry.maxHops Registry.derefWithin
    rw [hget "$ref" (by decide)]
  refine ⟨1, ?_⟩
  rw [v.evaluateIn_succ n n hderef ⟨_, hvalue⟩]
  refine foldlM_eq_self _ x _ fun k hk => ?_
  have hhas : (n.get? k.name).isSome = true := (List.mem_filter.mp hk).2
  rw [hget k.name (by cases k <;> decide)] at hhas
  exact absurd hhas Bool.false_ne_true

/-- Every schema settles on the default it has, if it has one. -/
def SettlesOnDefaults : Prop :=
  ∀ n value path, v.registry.Holds n → n.get? "default" = some value → v.Settles n path value

theorem keepsDefaults_of_settlesOnDefaults (h : v.SettlesOnDefaults) : v.KeepsDefaults := by
  intro place n declared name schema target value path hn hdeclared hchild htarget hvalue
  have hschema : v.registry.Holds schema := v.registry.closed_holds.child? _ _ n schema
    (v.registry.holds_of_found place n hn) (n.canonical_property schema declared name hdeclared hchild)
    hchild
  exact h target value path (v.registry.closed_holds.follow _ schema target hschema
    ((v.registry.follow_eq_ok_iff schema target).mpr htarget)) hvalue

/-- Where defaults stand alone, they are accepted. -/
theorem settlesOnDefaults_of_isBare
    (h : ∀ entry ∈ v.registry.documents, ∀ part ∈ entry.2.parts, isBare part = true) :
    v.SettlesOnDefaults := by
  rintro n value path ⟨entry, hentry, hpart⟩ hvalue
  have hbare := h entry hentry n.value hpart
  unfold isBare at hbare
  rw [show n.value.get? "default" = some value from hvalue] at hbare
  exact v.settles_of_bare n value (of_decide_eq_true hbare) path value

/-- The address of the document with the schema of a basket. -/
def basketAddress : Uri := ⟨"http", some (.ofHost "shop"), .segments ["basket"], none, none⟩

/-- The evaluation of the schema of a basket. -/
def basketsOf (schema : Json) : Validator := strict ⟨[(basketAddress, schema)], [], []⟩ .jsonSchema

/-- The node of the schema of a basket. -/
def basketNode (schema : Json) : Node := ⟨schema, basketAddress, "", rebase basketAddress schema, none⟩

theorem has_basketNode (schema : Json) : (basketsOf schema).registry.Has (basketNode schema) := rfl

/-- A default on its own. -/
def withDefault (name : String) (value : Json) : String × Json :=
  ("properties", .object [(name, .object [("default", value)])])

/-- The schema of a basket. Its lines have a default of their own, a currency and a
    note come from branches, and a carrier from the choice of one. -/
def basketSchema : Json :=
  .object [("maxProperties", .ofInt 4),
    ("properties", .object [("lines", .object [("items", .object [withDefault "count" (.ofInt 1)])]),
      ("currency", .object [("type", .string "string")])]),
    ("additionalProperties", .object [("type", .string "string")]),
    ("allOf", .array [.object [withDefault "currency" (.string "EUR")],
      .object [("required", .array [.string "lines"]), withDefault "note" (.string "")]]),
    ("oneOf", .array [.object [("required", .array [.string "pickup"])],
      .object [withDefault "carrier" (.string "post")]]),
    ("not", .object [("required", .array [.string "closed"])])]

/-- A basket with one line, about which nothing is said. -/
def basket : Json := .object [("lines", .array [.object []])]

/-- The basket with all that is missing. -/
def fullBasket : Json :=
  .object [("lines", .array [.object [("count", .ofInt 1)]]), ("currency", .string "EUR"),
    ("note", .string ""), ("carrier", .string "post")]

/-- Four defaults are added the first time, and none the second time. -/
theorem evaluateIn_normal_basket :
    (basketsOf basketSchema).evaluateIn 5 (basketNode basketSchema) "" basket = .ok fullBasket
      ∧ ∃ depth, (basketsOf basketSchema).evaluateIn depth (basketNode basketSchema) "" fullBasket
          = .ok fullBasket := by
  have hvalue : (basketsOf basketSchema).evaluateIn 5 (basketNode basketSchema) "" basket
      = .ok fullBasket := eq_ok_of_toOption _ _ (by decide +kernel)
  have hdefaults : (basketsOf basketSchema).SettlesOnDefaults :=
    settlesOnDefaults_of_isBare _ (by decide +kernel)
  exact ⟨hvalue, evaluateIn_normal _ (by decide +kernel)
    ((basketsOf basketSchema).keepsDefaults_of_settlesOnDefaults hdefaults) 5 _
    (has_basketNode basketSchema) "" basket fullBasket (by decide +kernel) (by decide +kernel) hvalue⟩

/-- Schemas, instances and what is made of them, which is not accepted as it is. -/
def disturbed : List (Json × Json × Json) :=
  let one := Json.ofInt 1
  let a := Json.object [("a", one)]
  let adds := withDefault "a" one
  [
    -- A check comes before the default.
    (.object [("maxProperties", one), adds], .object [("b", .ofInt 2)],
      .object [("b", .ofInt 2), ("a", one)]),
    (.object [("enum", .array [.object []]), adds], .object [], a),
    (.object [("const", .object []), adds], .object [], a),
    (.object [("uniqueItems", .bool true),
      ("allOf", .array [.object [("items", .object [adds])]])], .array [.object [], a], .array [a, a]),
    -- Another branch accepts what the default has been added to.
    (.object [("anyOf", .array [.object [("required", .array [.string "a"]), withDefault "b" one],
      .object [adds]])], .object [], a),
    (.object [("oneOf", .array [.object [("required", .array [.string "a"])], .object [adds]])],
      .object [], a),
    -- A default comes into a place that has been judged before.
    (.object [("properties", .object [("a", .object [withDefault "b" one])]),
      ("allOf", .array [.object [withDefault "a" (.object [])]])], .object [],
      .object [("a", .object [])]),
    (.object [("additionalProperties", .bool false), ("allOf", .array [.object [adds]])],
      .object [], a),
    (.object [("allOf", .array [.object [("not", .object [("required", .array [.string "a"])])],
      .object [adds]])], .object [], a)]

/-- A schema that accepts its defaults makes the second of two instances of the first
    one, and does not return that as it is, however deep subschemas are evaluated. -/
def Disturbed (c : Json × Json × Json) : Prop :=
  c.1.WellFormed ∧ c.2.1.WellFormed ∧ (basketsOf c.1).SettlesOnDefaults
    ∧ (basketsOf c.1).registry.Has (basketNode c.1)
    ∧ (basketsOf c.1).evaluateIn 4 (basketNode c.1) "" c.2.1 = .ok c.2.2
    ∧ ∀ depth, (basketsOf c.1).evaluateIn depth (basketNode c.1) "" c.2.2 ≠ .ok c.2.2

/-- Not every schema returns once more what it has returned, though each accepts its
    defaults. -/
theorem not_evaluateIn_normal : List.Forall Disturbed disturbed := by
  have hwell : ∀ c ∈ disturbed, c.1.WellFormed ∧ c.2.1.WellFormed
      ∧ ∀ part ∈ c.1.parts, isBare part = true := by decide +kernel
  have hfirst : ∀ c ∈ disturbed, ((basketsOf c.1).evaluateIn 4 (basketNode c.1) "" c.2.1).toOption
      = some c.2.2 := by decide +kernel
  have hsecond : ∀ c ∈ disturbed,
      (basketsOf c.1).evaluateIn 4 (basketNode c.1) "" c.2.2 ≠ .error .depth
        ∧ ((basketsOf c.1).evaluateIn 4 (basketNode c.1) "" c.2.2).toOption ≠ some c.2.2 := by
    decide +kernel
  rw [List.forall_iff_forall_mem]
  intro c hc
  obtain ⟨hschema, hinstance, hbare⟩ := hwell c hc
  obtain ⟨hends, hother⟩ := hsecond c hc
  refine ⟨hschema, hinstance, settlesOnDefaults_of_isBare _ fun entry hentry => ?_,
    has_basketNode c.1, eq_ok_of_toOption _ _ (hfirst c hc), fun depth hdepth => ?_⟩
  · rw [List.mem_singleton.mp hentry]
    exact hbare
  · -- The outcome at the one depth is the outcome at every depth.
    have hsame := (basketsOf c.1).outcome_unique (basketNode c.1) "" c.2.2 depth 4
      (by rw [hdepth]; exact nofun) hends
    rw [hdepth] at hsame
    exact hother (by rw [← hsame]; rfl)

end Validator

end OpenApi
