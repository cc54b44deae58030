import OpenApi.Proofs.Evaluation.Rewriting
import OpenApi.Schema.Validator

/-!
# What Keywords Promise

One lemma for each keyword: what its outcome promises if the evaluations of
subschemas keep their promises. `Node.Applies` lists those evaluations, that is,
which schema a keyword may apply to which instance, and `evaluateWith_promises`
puts the lemmas together for a whole schema.

The keywords that apply no subschema return their instance or fail, whatever
the depth. The others are followed through their loops. `properties` is the one
that needs an invariant: while it takes members out and puts them back, the
members are a permutation of the original ones with rewritten values, and the
order is restored at the end. That rests on no member being added, so the
schemas of declared members must have no default.

The instance changes on its way through the keywords of a schema, so the
conditions speak about every instance the original may have been rewritten to.

## Main definitions

* `Node.Checks`: How keywords without subschemas end.
* `Node.Selects`: The discriminator of a node leads to another schema.
* `Node.Applies`: The evaluation of a schema may apply a subschema.
* `Node.AddsNothing`: No declared member has a default.

## Theorems

* `checks_accept` and its companions: Keywords without subschemas.
* `promises_applyItems` and its companions: Keywords with subschemas.
* `evaluateKeyword_promises`: Any keyword.
* `evaluateWith_promises`: A schema.
* `evaluateWith_promises_of_properties`: A schema whose `properties` may add
  members.
-/

namespace OpenApi

namespace Node

/-- The discriminator of a node has the instance evaluated by another schema. -/
def Selects (n : Node) (r : Registry) (x : Json) (m : Node) : Prop :=
  n.has "anyOf" = false ∧ n.has "oneOf" = false ∧
    ∃ path uri target, n.selected path x = .ok uri ∧ r.node? uri = some m ∧
      r.follow m = .ok target ∧ target.scope ≠ n.scope

/-- Evaluating a schema on an instance may apply the schema at another node to
    an instance. -/
inductive Applies (r : Registry) (n : Node) : Json → Node → Json → Prop where
  /-- `items` applies to the items of an array. -/
  | item (items : List Json) (i : Nat) (x : Json) (m : Node) :
      items[i]? = some x → n.itemSchema? i = some m → Applies r n (.array items) m x
  /-- `additionalItems` applies to the items behind those that a list under `items`
      has schemas for. -/
  | additionalItem (items schemas : List Json) (i : Nat) (x : Json) (m : Node) :
      n.get? "items" = some (.array schemas) → schemas.length ≤ i → items[i]? = some x →
        n.child? ["additionalItems"] = some m → Applies r n (.array items) m x
  /-- `properties` applies to the members of an object. -/
  | property (members : Ordered Json) (name : String) (x : Json) (m : Node) :
      (name, x) ∈ members → (∃ declared, n.get? "properties" = some (.object declared)) →
        n.child? ["properties", name] = some m → Applies r n (.object members) m x
  /-- `additionalProperties` applies to the members of an object that are not
      declared. -/
  | additionalProperty (members : Ordered Json) (name : String) (x : Json) (m : Node) :
      (name, x) ∈ members → n.declares name = false →
        n.child? ["additionalProperties"] = some m → Applies r n (.object members) m x
  /-- `allOf` applies its branches, except the excluded ones. -/
  | member (x : Json) (m : Node) :
      m ∈ n.branches "allOf" → n.isExcluded r m = .ok false → Applies r n x m x
  /-- `anyOf` and `oneOf` apply their branches. -/
  | choice (key : String) (x : Json) (m : Node) :
      key = "anyOf" ∨ key = "oneOf" → m ∈ n.branches key → Applies r n x m x
  /-- `not` applies its schema. -/
  | negation (x : Json) (m : Node) : n.child? ["not"] = some m → Applies r n x m x
  /-- `discriminator` applies the schema it selects, without the way back. -/
  | selection (x : Json) (m : Node) : n.Selects r x m → Applies r n x (m.excluding n.scope) x

/-- The schemas of declared members lead to no default. -/
def AddsNothing (n : Node) (r : Registry) : Prop :=
  ∀ declared name schema target, n.get? "properties" = some (.object declared) →
    n.child? ["properties", name] = some schema → r.follow schema = .ok target →
      target.get? "default" = none

section Checks

variable (n : Node) (path : String) (x : Json)

/-- How a check of an instance ends. It returns the instance, or finds the schema
    unusable, or rejects with a violation of its own, in which missing members
    are told as causes. -/
inductive Checks : Except Failure Json → Prop where
  /-- The instance is accepted. -/
  | accepted : Checks (.ok x)
  /-- The keyword has a value of the wrong kind. -/
  | unusable (e : SchemaError) : Checks (.error (.schema e))
  /-- The instance is rejected as a whole. -/
  | rejected (kind : ViolationKind) : kind ≠ .discriminator →
      Checks (.error (.ofViolation path n.scope kind))
  /-- The instance lacks members. -/
  | missing (names : List String) : Checks (.error (.ofCauses path n.scope .required
      (names.map fun name => ⟨Pointer.push path name, n.scope, .required, []⟩)))

theorem checks_accept (kind : ViolationKind) (hkind : kind ≠ .discriminator) (satisfied : Bool) :
    n.Checks path x (n.accept path kind x satisfied) := by
  unfold accept
  cases satisfied with
  | true => exact .accepted
  | false => exact .rejected kind hkind

theorem checks_checkNumber (key : String) (kind : ViolationKind) (hkind : kind ≠ .discriminator)
    (satisfied : Binary64 → Binary64 → Bool) :
    n.Checks path x (n.checkNumber key path kind x satisfied) := by
  unfold checkNumber
  split
  · exact n.checks_accept path x kind hkind _
  · exact .accepted

theorem checks_checkMeasure (key : String) (kind : ViolationKind) (hkind : kind ≠ .discriminator)
    (size? : Option Nat) (satisfied : Nat → Nat → Bool) :
    n.Checks path x (n.checkMeasure key path kind x size? satisfied) := by
  unfold checkMeasure
  split
  · exact n.checks_accept path x kind hkind _
  · exact .accepted

theorem checks_checkType : n.Checks path x (n.checkType path x) := by
  unfold checkType
  split
  · exact .unusable _
  · split
    · exact .unusable _
    · exact n.checks_accept path x .type nofun _

theorem checks_checkEnum : n.Checks path x (n.checkEnum path x) := by
  unfold checkEnum
  split
  · exact n.checks_accept path x .enum nofun _
  · exact .accepted

theorem checks_checkConst : n.Checks path x (n.checkConst path x) := by
  unfold checkConst
  split
  · exact n.checks_accept path x .const nofun _
  · exact .accepted

theorem checks_checkMaximum : n.Checks path x (n.checkMaximum path x) := by
  unfold checkMaximum
  split
  · exact n.checks_checkNumber path x _ .exclusiveMaximum nofun _
  · exact n.checks_checkNumber path x _ .maximum nofun _

theorem checks_checkMinimum : n.Checks path x (n.checkMinimum path x) := by
  unfold checkMinimum
  split
  · exact n.checks_checkNumber path x _ .exclusiveMinimum nofun _
  · exact n.checks_checkNumber path x _ .minimum nofun _

theorem checks_checkPattern : n.Checks path x (n.checkPattern path x) := by
  unfold checkPattern
  split
  · split
    · exact .unusable _
    · exact n.checks_accept path x .pattern nofun _
  · exact .accepted

theorem checks_checkUniqueItems : n.Checks path x (n.checkUniqueItems path x) := by
  unfold checkUniqueItems
  split
  · split
    · exact n.checks_accept path _ .uniqueItems nofun _
    · exact .accepted
  · exact .accepted

theorem checks_checkRequired : n.Checks path x (n.checkRequired path x) := by
  unfold checkRequired
  split
  · dsimp only
    split
    · exact .accepted
    · exact .missing _
  · exact .accepted

theorem checks_checkFormat : n.Checks path x (n.checkFormat x) := by
  unfold checkFormat
  split
  · exact .accepted
  · exact .unusable _
  · exact .accepted

theorem promises_of_checks (deep : Prop) (r : Except Failure Json) (h : n.Checks path x r) :
    Promises deep (fun y => x = y) r := by
  cases h with
  | accepted => exact rfl
  | unusable e => exact trivial
  | rejected kind _ => exact trivial
  | missing names => exact trivial

theorem promises_checkType (deep : Prop) : Promises deep (fun y => x = y) (n.checkType path x) :=
  n.promises_of_checks path x deep _ (n.checks_checkType path x)

/-- The one check that may change its instance: a text may be converted. -/
theorem promises_checkSingleType (deep : Prop) {R : Json → Json → Prop} (hrefl : ∀ x, R x x)
    (converts : Bool) (hconvert : converts = true → ∀ (t : SchemaType) y, R y (t.convert y)) :
    Promises deep (R x) (n.checkSingleType converts path x) := by
  unfold checkSingleType
  split
  · split
    · exact hrefl x
    · split
      · rename_i t _
        have hstep := hconvert rfl t x
        exact promises_mono deep _ _ (fun y hy => hy ▸ hstep) _ (n.promises_checkType path _ deep)
      · exact promises_mono deep _ _ (fun y hy => hy ▸ hrefl x) _
          (n.promises_checkType path x deep)
  · exact trivial

end Checks

section Subschemas

variable {R : Json → Json → Prop} (hR : Json.Rewriting R) (deep : Prop) (n : Node)
  (evaluate : Evaluation) (path : String)

include hR

theorem promises_judge (schema? : Option Node) (segment : String) (x : Json)
    (h : ∀ m, schema? = some m → evaluate.Keeps deep R m x) :
    Promises deep (Verdict.Good (R x)) (judge evaluate schema? path segment x) := by
  cases schema? with
  | none => exact hR.refl x
  | some m => exact promises_verdict deep _ _ (h m rfl _)

theorem promises_judgeAdditional (key : String) (kind : ViolationKind) (segment : String) (x : Json)
    (h : ∀ m, n.child? [key] = some m → evaluate.Keeps deep R m x) :
    Promises deep (Verdict.Good (R x)) (n.judgeAdditional evaluate key kind path segment x) := by
  unfold judgeAdditional
  split
  · exact trivial
  · exact promises_judge hR deep evaluate path _ segment x h

/-- A loop over the items of an array, each of them judged at its place. -/
theorem promises_array (kind : ViolationKind) (items : List Json)
    (step : Json × Nat → Except Failure (Verdict Json))
    (h : ∀ pair ∈ items.zipIdx, Promises deep (Verdict.Good (R pair.1)) (step pair)) :
    Promises deep (R (.array items)) (do
      let verdicts ← items.zipIdx.mapM step
      let items ← n.gather path kind verdicts
      .ok (.array items)) := by
  refine promises_bind deep _ _ _ _ (promises_mapM deep _ step items.zipIdx h)
    (fun verdicts hverdicts => ?_)
  refine promises_bind deep _ _ _ _ (promises_gather deep _ n path kind _ verdicts hverdicts)
    (fun items' hitems' => ?_)
  refine hR.array items items' ?_
  rw [← List.forall₂_map_left_iff (f := Prod.fst), List.zipIdx_map_fst] at hitems'
  exact hitems'

theorem promises_applyItems (r : Registry) (x : Json)
    (h : ∀ m y, n.Applies r x m y → evaluate.Keeps deep R m y) :
    Promises deep (R x) (n.applyItems evaluate path x) := by
  unfold applyItems
  split
  · rename_i items
    refine promises_array hR deep n path .items items _ (fun pair hpair => ?_)
    refine promises_judge hR deep evaluate path _ _ pair.1 (fun m hm => ?_)
    exact h m pair.1 (.item items pair.2 pair.1 m (List.mem_zipIdx_iff_getElem?.mp hpair) hm)
  · exact hR.refl x

theorem promises_applyAdditionalItems (r : Registry) (x : Json)
    (h : ∀ m y, n.Applies r x m y → evaluate.Keeps deep R m y) :
    Promises deep (R x) (n.applyAdditionalItems evaluate path x) := by
  unfold applyAdditionalItems
  split
  · rename_i tuple items htuple
    refine promises_array hR deep n path .additionalItems items _ (fun pair hpair => ?_)
    by_cases hi : pair.2 < tuple.length
    · simp only [if_pos hi]
      exact hR.refl pair.1
    · simp only [if_neg hi]
      refine promises_judgeAdditional hR deep n evaluate path _ _ _ pair.1 (fun m hm => ?_)
      exact h m pair.1 (.additionalItem items tuple pair.2 pair.1 m htuple (Nat.not_lt.mp hi)
        (List.mem_zipIdx_iff_getElem?.mp hpair) hm)
  · exact hR.refl _

theorem promises_applyAdditionalProperties (r : Registry) (x : Json)
    (h : ∀ m y, n.Applies r x m y → evaluate.Keeps deep R m y) :
    Promises deep (R x) (n.applyAdditionalProperties evaluate path x) := by
  unfold applyAdditionalProperties
  split
  · rename_i members
    refine promises_bind deep _ _ _ _ (promises_mapM deep
      (fun a => Verdict.Good fun b => a.1 = b.1 ∧ R a.2 b.2) _ members (fun entry hentry => ?_))
      (fun verdicts hverdicts => ?_)
    · rcases entry with ⟨name, value⟩
      -- The key is put back beside whatever value the verdict has.
      have hpair : ∀ outcome : Verdict Json, Verdict.Good (R value) outcome →
          Promises deep (Verdict.Good fun b : String × Json => name = b.1 ∧ R value b.2)
            (.ok (outcome.map fun value => (name, value))) := by
        intro outcome houtcome
        cases outcome with
        | ok value' => exact ⟨rfl, houtcome⟩
        | error v => exact trivial
      dsimp only
      split
      · exact hpair (.ok value) (hR.refl value)
      · rename_i hother
        refine promises_bind deep _ _ _ _ ?_ hpair
        refine promises_judgeAdditional hR deep n evaluate path _ _ _ value (fun m hm => ?_)
        exact h m value (.additionalProperty members name value m hentry
          (eq_false_of_ne_true hother) hm)
    · refine promises_bind deep _ _ _ _
        (promises_gather deep _ n path .additionalProperties _ verdicts hverdicts)
        (fun members' hmembers' => ?_)
      exact hR.object members members' hmembers'
  · exact hR.refl _

/-- While `properties` runs, the members are the original ones with rewritten
    values, in some order. -/
def Tracks (R : Json → Json → Prop) (members : Ordered Json) (p : Progress) : Prop :=
  ∃ current, Json.Rewritten R members current ∧ List.Perm p.members current

theorem tracks_insert (members : Ordered Json) (hnodup : (Ordered.keys members).Nodup)
    (p : Progress) (hp : Tracks R members p) (name : String) (value value' : Json)
    (hget : Ordered.get? p.members name = some value) (hvalue : R value value')
    (causes : List Violation) :
    Tracks R members ⟨Ordered.insert (Ordered.erase p.members name) name value', causes⟩ := by
  rcases hp with ⟨current, hcurrent, hperm⟩
  have hkeys : (Ordered.keys current).Nodup := by
    rwa [Json.keys_rewritten members current hcurrent]
  have hmembers : (Ordered.keys p.members).Nodup :=
    (Ordered.keys_perm _ _ hperm).nodup_iff.mpr hkeys
  have hmem : (name, value) ∈ current :=
    hperm.mem_iff.mp (Ordered.mem_of_get? p.members name value hget)
  refine ⟨Ordered.replace current name value', ?_, ?_⟩
  · refine Json.rewritten_replace hR members current name value' hcurrent (fun entry hentry he => ?_)
    -- Keys are distinct, so the entry under this key is the one that was found.
    have h1 := (Ordered.get?_eq_some_iff current hkeys name value).mpr hmem
    have h2 := (Ordered.get?_eq_some_iff current hkeys entry.1 entry.2).mpr hentry
    rw [he, h1, Option.some.injEq] at h2
    rw [← h2]
    exact hvalue
  · exact (Ordered.insert_erase_perm p.members hmembers name value value' hget).trans
      (hperm.map _)

theorem promises_applyProperty (r : Registry) (hadd : n.AddsNothing r) (members : Ordered Json)
    (hnodup : (Ordered.keys members).Nodup)
    (declared : Ordered Json) (hdeclared : n.get? "properties" = some (.object declared))
    (h : ∀ m y₀ y, n.Applies r (.object members) m y₀ → R y₀ y → evaluate.Keeps deep R m y)
    (p : Progress) (hp : Tracks R members p) (name : String) :
    Promises deep (Tracks R members) (n.applyProperty r evaluate path p name) := by
  unfold applyProperty
  rcases hchild : n.child? ["properties", name] with _ | schema
  · exact hp
  · rcases hget : Ordered.get? p.members name with _ | value
    · -- An absent member stays absent, its schema having no default.
      refine promises_bind deep (fun d => d = none) _ _ _ ?_ (fun d hd => ?_)
      · unfold default?
        refine promises_bind deep _ _ _ _ (promises_follow deep r schema) (fun target htarget => ?_)
        exact hadd declared name schema target hdeclared hchild htarget
      · rw [hd]
        exact hp
    · -- A present member is a rewriting of one that the instance had.
      have hmem := Ordered.mem_of_get? p.members name value hget
      rcases hp with ⟨current, hcurrent, hperm⟩
      rcases Json.exists_of_rewritten members current hcurrent (name, value)
        (hperm.mem_iff.mp hmem) with ⟨y₀, hy₀, hR₀⟩
      refine promises_bind deep (Verdict.Good (R value)) _ _ _ ?_ (fun outcome houtcome => ?_)
      · refine promises_judge hR deep evaluate path (some schema) name value (fun m hm => ?_)
        rw [Option.some.injEq] at hm
        rw [← hm]
        exact h schema y₀ value (.property members name y₀ schema hy₀ ⟨declared, hdeclared⟩ hchild) hR₀
      · have htracks : Tracks R members p := ⟨current, hcurrent, hperm⟩
        cases outcome with
        | ok value' => exact tracks_insert hR members hnodup p htracks name value value' hget houtcome _
        | error v =>
            exact tracks_insert hR members hnodup p htracks name value value hget (hR.refl value) _

theorem promises_applyProperties (r : Registry) (hadd : n.AddsNothing r) (x : Json)
    (hx : x.keys.Nodup)
    (h : ∀ m y₀ y, n.Applies r x m y₀ → R y₀ y → evaluate.Keeps deep R m y) :
    Promises deep (R x) (n.applyProperties r evaluate path x) := by
  unfold applyProperties
  split
  · rename_i members declared hdeclared
    refine promises_bind deep (Tracks R members) _ _ _ ?_ (fun p hp => ?_)
    · refine promises_foldlM deep _ _ _ _ ⟨members, ?_, List.Perm.refl _⟩ (fun p name _ hp => ?_)
      · exact List.forall₂_same.mpr fun entry _ => ⟨rfl, hR.refl entry.2⟩
      · exact promises_applyProperty hR deep n evaluate path r hadd members hx declared hdeclared
          h p hp name
    · rcases hp with ⟨current, hcurrent, hperm⟩
      split
      · rw [Json.rewritten_restore members current p.members hx hcurrent hperm]
        exact hR.object members current hcurrent
      · exact trivial
  · exact hR.refl _

end Subschemas

-- What the combinators return is the instance or a result of a branch, and the
-- branches see the instance itself.
section Branches

variable (deep : Prop) (good : Json → Prop) (n : Node) (evaluate : Evaluation) (path : String)

theorem promises_isExcluded (r : Registry) (m : Node) :
    Promises deep (fun b => n.isExcluded r m = .ok b) (n.isExcluded r m) := by
  refine promises_self deep _ ?_
  unfold isExcluded
  split
  · simp only [ne_eq, reduceCtorEq, not_false_eq_true]
  · refine ne_depth_of_promises (fun _ => True) _ ?_
    exact promises_bind False _ _ _ _ (promises_follow False r m) (fun target _ => trivial)

theorem promises_applyMember (r : Registry) (x : Json) (m : Node) (hx : good x)
    (h : n.isExcluded r m = .ok false → Promises deep good (evaluate m path x)) :
    Promises deep good (n.applyMember r evaluate path x m) := by
  unfold applyMember
  refine promises_bind deep _ _ _ _ (promises_isExcluded deep n r m) (fun excluded hexcluded => ?_)
  cases excluded with
  | true => exact hx
  | false =>
      refine promises_bind deep _ _ _ _ (promises_verdict deep _ _ (h hexcluded))
        (fun outcome houtcome => ?_)
      cases outcome with
      | ok value => exact houtcome
      | error v => exact trivial

theorem promises_firstAccepted (x : Json) (branches : List Node)
    (h : ∀ m ∈ branches, Promises deep good (evaluate m path x)) :
    Promises deep (fun outcome => ∀ y, outcome = .ok y → good y)
      (firstAccepted evaluate path x branches) := by
  induction branches with
  | nil => exact fun y hy => by simp only [reduceCtorEq] at hy
  | cons m rest ih =>
      unfold firstAccepted
      refine promises_bind deep _ _ _ _
        (promises_verdict deep _ _ (h m List.mem_cons_self)) (fun outcome houtcome => ?_)
      -- The first branch that accepts has the say, and its value is good.
      cases outcome with
      | ok value =>
          intro y hy
          rw [Except.ok.injEq] at hy
          rw [← hy]
          exact houtcome
      | error v =>
          refine promises_bind deep _ _ _ _ (ih fun m hm => h m (List.mem_cons_of_mem _ hm))
            (fun others hothers y hy => ?_)
          cases others with
          | ok value =>
              rw [Except.mapError, Except.ok.injEq] at hy
              rw [← hy]
              exact hothers value rfl
          | error vs => simp only [Except.mapError, reduceCtorEq] at hy

theorem promises_anyOf (x : Json)
    (h : ∀ m ∈ n.branches "anyOf", Promises deep good (evaluate m path x)) :
    Promises deep good (n.applyAnyOf evaluate path x) := by
  unfold applyAnyOf
  refine promises_bind deep _ _ _ _ (promises_firstAccepted deep good evaluate path x _ h)
    (fun outcome houtcome => ?_)
  cases outcome with
  | ok value => exact houtcome value rfl
  | error causes => exact trivial

theorem promises_oneOf (x : Json)
    (h : ∀ m ∈ n.branches "oneOf", Promises deep good (evaluate m path x)) :
    Promises deep good (n.applyOneOf evaluate path x) := by
  unfold applyOneOf
  refine promises_bind deep _ _ _ _ (promises_mapM deep (fun _ => Verdict.Good good) _ _
    (fun m hm => promises_verdict deep _ _ (h m hm))) (fun verdicts hverdicts => ?_)
  split
  · rename_i value hvalues
    have hmem : value ∈ verdicts.filterMap Verdict.value? := by
      rw [hvalues]
      exact List.mem_singleton_self value
    exact value_of_verdict good _ verdicts hverdicts value hmem
  · exact trivial
  · exact trivial

theorem promises_not (x : Json) (hx : good x)
    (h : ∀ m, n.child? ["not"] = some m → Promises deep good (evaluate m path x)) :
    Promises deep good (n.applyNot evaluate path x) := by
  unfold applyNot
  split
  · exact hx
  · rename_i m hm
    refine promises_bind deep _ _ _ _ (promises_verdict deep _ _ (h m hm)) (fun outcome _ => ?_)
    cases outcome with
    | ok value => exact trivial
    | error v => exact hx

end Branches

-- All that matters is that the instance may come back as it is and be handed on.
section Combinators

variable {R : Json → Json → Prop} (hrefl : ∀ x, R x x) (deep : Prop) (n : Node)
  (evaluate : Evaluation) (path : String)

include hrefl

theorem promises_applyAllOf (htrans : ∀ x y z, R x y → R y z → R x z) (r : Registry) (x : Json)
    (h : ∀ m y₀ y, n.Applies r x m y₀ → R y₀ y → evaluate.Keeps deep R m y) :
    Promises deep (R x) (n.applyAllOf r evaluate path x) := by
  unfold applyAllOf
  refine promises_foldlM deep (R x) _ _ _ (hrefl x) (fun y m hm hy => ?_)
  refine promises_applyMember deep (R x) n evaluate path r y m hy (fun hexcluded => ?_)
  exact promises_mono deep _ _ (fun value hvalue => htrans x y value hy hvalue) _
    (h m x y (.member x m hm hexcluded) hy path)

theorem promises_applyAnyOf (r : Registry) (x : Json)
    (h : ∀ m y₀ y, n.Applies r x m y₀ → R y₀ y → evaluate.Keeps deep R m y) :
    Promises deep (R x) (n.applyAnyOf evaluate path x) :=
  promises_anyOf deep (R x) n evaluate path x fun m hm =>
    h m x x (.choice "anyOf" x m (Or.inl rfl) hm) (hrefl x) path

theorem promises_applyOneOf (r : Registry) (x : Json)
    (h : ∀ m y₀ y, n.Applies r x m y₀ → R y₀ y → evaluate.Keeps deep R m y) :
    Promises deep (R x) (n.applyOneOf evaluate path x) :=
  promises_oneOf deep (R x) n evaluate path x fun m hm =>
    h m x x (.choice "oneOf" x m (Or.inr rfl) hm) (hrefl x) path

theorem promises_applyNot (r : Registry) (x : Json)
    (h : ∀ m y₀ y, n.Applies r x m y₀ → R y₀ y → evaluate.Keeps deep R m y) :
    Promises deep (R x) (n.applyNot evaluate path x) :=
  promises_not deep (R x) n evaluate path x (hrefl x) fun m hm =>
    h m x x (.negation x m hm) (hrefl x) path

omit hrefl in
theorem selected_ne_depth (x : Json) : n.selected path x ≠ .error .depth := by
  have hmapped : ∀ text, n.mapped text ≠ .error .depth := by
    intro text
    unfold mapped
    dsimp only
    split <;> simp only [Failure.ofSchema, ne_eq, Except.error.injEq, reduceCtorEq,
      not_false_eq_true]
  refine ne_depth_of_promises (fun _ => True) _ ?_
  unfold selected
  split
  · split
    · refine promises_bind False _ _ _ _ (promises_self False _ (hmapped _)) (fun target _ => ?_)
      dsimp only
      split
      · exact trivial
      · exact trivial
    · exact trivial
  · exact trivial

theorem promises_applyDiscriminator (r : Registry) (x : Json)
    (h : ∀ m y₀ y, n.Applies r x m y₀ → R y₀ y → evaluate.Keeps deep R m y) :
    Promises deep (R x) (n.applyDiscriminator r evaluate path x) := by
  unfold applyDiscriminator
  refine promises_bind deep _ _ _ _ (promises_self deep _ (selected_ne_depth n path x))
    (fun uri huri => ?_)
  split
  · exact hrefl x
  · rename_i hchoice
    rw [Bool.or_eq_true, not_or, Bool.not_eq_true, Bool.not_eq_true] at hchoice
    split
    · exact trivial
    · rename_i m hm
      refine promises_bind deep _ _ _ _ (promises_follow deep r m) (fun target htarget => ?_)
      split
      · exact hrefl x
      · rename_i hscope
        -- What the checks on the way have found is that the schema is selected.
        have hselects : n.Selects r x m :=
          ⟨hchoice.1, hchoice.2, path, uri, target, huri, hm, htarget, hscope⟩
        have hkeeps := h _ x x (.selection x m hselects) (hrefl x)
        refine promises_bind deep _ _ _ _ (promises_verdict deep _ _ (hkeeps path))
          (fun outcome houtcome => ?_)
        cases outcome with
        | ok value => exact houtcome
        | error v => exact trivial

omit hrefl in
theorem promises_chooseBranch (r : Registry) (scope : String) (x : Json) (branches : List Node)
    (h : ∀ m ∈ branches, evaluate.Keeps deep R m x) :
    ∀ known : Choice, (∀ y, known.first? = some y → R x y) →
      Promises deep (fun outcome => (∀ y, outcome = .ok y → R x y) ∧
          ∀ known, outcome = .error known → ∀ y, known.first? = some y → R x y)
        (chooseBranch r evaluate scope path x branches known) := by
  induction branches with
  | nil =>
      intro known hknown
      refine ⟨fun y hy => by simp only [reduceCtorEq] at hy, fun known' hk => ?_⟩
      rw [Except.error.injEq] at hk
      rw [← hk]
      exact hknown
  | cons m rest ih =>
      intro known hknown
      have hrest : ∀ m ∈ rest, evaluate.Keeps deep R m x := fun m hm =>
        h m (List.mem_cons_of_mem _ hm)
      unfold chooseBranch
      refine promises_bind deep _ _ _ _ (promises_follow deep r m) (fun target _ => ?_)
      refine promises_bind deep _ _ _ _
        (promises_verdict deep _ _ (h m List.mem_cons_self path)) (fun outcome houtcome => ?_)
      cases outcome with
      | ok value =>
          dsimp only
          split
          · refine ⟨fun y hy => ?_, fun known' hk => by simp only [reduceCtorEq] at hk⟩
            rw [Except.ok.injEq] at hy
            rw [← hy]
            exact houtcome
          · refine ih hrest _ (fun y hy => ?_)
            -- The first accepting branch keeps its result.
            rcases hfirst : known.first? with _ | first
            · rw [hfirst, Option.getD_none, Option.some.injEq] at hy
              rw [← hy]
              exact houtcome
            · rw [hfirst, Option.getD_some, Option.some.injEq] at hy
              rw [← hy]
              exact hknown first hfirst
      | error v => exact ih hrest _ hknown

theorem promises_applySelectedOneOf (r : Registry) (x : Json)
    (h : ∀ m y₀ y, n.Applies r x m y₀ → R y₀ y → evaluate.Keeps deep R m y) :
    Promises deep (R x) (n.applySelectedOneOf r evaluate path x) := by
  have hbranch : ∀ m ∈ n.branches "oneOf", evaluate.Keeps deep R m x := fun m hm =>
    h m x x (.choice "oneOf" x m (Or.inr rfl) hm) (hrefl x)
  unfold applySelectedOneOf
  refine promises_bind deep _ _ _ _ (promises_self deep _ (selected_ne_depth n path x))
    (fun uri _ => ?_)
  refine promises_bind deep _ _ _ _ (promises_chooseBranch deep evaluate path r _ x _ hbranch
    ⟨none, []⟩ (fun y hy => by simp only [reduceCtorEq] at hy)) (fun outcome houtcome => ?_)
  cases outcome with
  | ok value => exact houtcome.1 value rfl
  | error known =>
      dsimp only
      split
      · rename_i value hvalue
        exact houtcome.2 known rfl value hvalue
      · exact trivial

end Combinators

end Node

/-- The keywords that look at the instance as a whole and convert nothing. -/
def Keyword.isAssertion : Keyword → Bool
  | .type | .items | .additionalItems | .properties | .additionalProperties => false
  | .discriminator | .allOf | .anyOf | .oneOf | .not => false
  | _ => true

namespace Validator

/-- Assertions are checks, however subschemas are evaluated. -/
theorem checks_of_isAssertion (v : Validator) (evaluate : Evaluation) (k : Keyword)
    (hk : k.isAssertion = true) (n : Node) (path : String) (x : Json) :
    n.Checks path x (v.evaluateKeyword evaluate k n path x) := by
  cases k with
  | enum => exact n.checks_checkEnum path x
  | const => exact n.checks_checkConst path x
  | multipleOf => exact n.checks_checkNumber path x _ .multipleOf nofun _
  | maximum => exact n.checks_checkMaximum path x
  | exclusiveMaximum => exact n.checks_checkNumber path x _ .exclusiveMaximum nofun _
  | minimum => exact n.checks_checkMinimum path x
  | exclusiveMinimum => exact n.checks_checkNumber path x _ .exclusiveMinimum nofun _
  | maxLength => exact n.checks_checkMeasure path x _ .maxLength nofun _ _
  | minLength => exact n.checks_checkMeasure path x _ .minLength nofun _ _
  | pattern => exact n.checks_checkPattern path x
  | format =>
      unfold evaluateKeyword
      cases v.dialect with
      | jsonSchema => exact .accepted
      | openApi => exact n.checks_checkFormat path x
  | maxItems => exact n.checks_checkMeasure path x _ .maxItems nofun _ _
  | minItems => exact n.checks_checkMeasure path x _ .minItems nofun _ _
  | uniqueItems => exact n.checks_checkUniqueItems path x
  | maxProperties => exact n.checks_checkMeasure path x _ .maxProperties nofun _ _
  | minProperties => exact n.checks_checkMeasure path x _ .minProperties nofun _ _
  | required => exact n.checks_checkRequired path x
  | _ => exact absurd hk Bool.false_ne_true

/-- Assertions return their instance or fail. -/
theorem promises_of_isAssertion (deep : Prop) (v : Validator) (evaluate : Evaluation)
    (k : Keyword) (hk : k.isAssertion = true) (n : Node) (path : String) (x : Json) :
    Promises deep (fun y => x = y) (v.evaluateKeyword evaluate k n path x) :=
  n.promises_of_checks path x deep _ (v.checks_of_isAssertion evaluate k hk n path x)

variable {R : Json → Json → Prop} (hR : Json.Rewriting R) (deep : Prop) (v : Validator)
  (evaluate : Evaluation)

include hR

/-- Whatever `properties` makes of the instance, the other keywords rewrite it. -/
theorem evaluateKeyword_promises_of_properties
    (hconvert : v.converts = true → ∀ (t : SchemaType) y, R y (t.convert y))
    (n : Node) (k : Keyword) (path : String) (x : Json)
    (hproperties : Promises deep (R x) (n.applyProperties v.registry evaluate path x))
    (h : ∀ m y₀ y, n.Applies v.registry x m y₀ → R y₀ y → evaluate.Keeps deep R m y) :
    Promises deep (R x) (v.evaluateKeyword evaluate k n path x) := by
  have hkeep : ∀ r, Promises deep (fun y => x = y) r → Promises deep (R x) r := by
    intro r hr
    exact promises_mono deep _ _ (fun y hy => hy ▸ hR.refl x) r hr
  have hself : ∀ m y, n.Applies v.registry x m y → evaluate.Keeps deep R m y :=
    fun m y hm => h m y y hm (hR.refl y)
  -- Assertions return their instance, which is a rewriting of itself.
  by_cases hassertion : k.isAssertion = true
  · exact hkeep _ (promises_of_isAssertion deep v evaluate k hassertion n path x)
  · unfold evaluateKeyword
    cases k with
    | type =>
        cases v.dialect with
        | jsonSchema => exact hkeep _ (n.promises_checkType path x deep)
        | openApi => exact n.promises_checkSingleType path x deep hR.refl v.converts hconvert
    | items => exact Node.promises_applyItems hR deep n evaluate path v.registry x hself
    | additionalItems =>
        exact Node.promises_applyAdditionalItems hR deep n evaluate path v.registry x hself
    | properties => exact hproperties
    | additionalProperties =>
        exact Node.promises_applyAdditionalProperties hR deep n evaluate path v.registry x hself
    | discriminator =>
        cases v.dialect with
        | jsonSchema => exact hR.refl x
        | openApi => exact Node.promises_applyDiscriminator hR.refl deep n evaluate path _ x h
    | allOf => exact Node.promises_applyAllOf hR.refl deep n evaluate path hR.trans v.registry x h
    | anyOf => exact Node.promises_applyAnyOf hR.refl deep n evaluate path v.registry x h
    | oneOf =>
        have hone := Node.promises_applyOneOf hR.refl deep n evaluate path v.registry x h
        cases v.dialect with
        | jsonSchema => exact hone
        | openApi =>
            dsimp only
            split
            · exact Node.promises_applySelectedOneOf hR.refl deep n evaluate path v.registry x h
            · exact hone
    | not => exact Node.promises_applyNot hR.refl deep n evaluate path v.registry x h
    | _ => exact absurd rfl hassertion

theorem evaluateKeyword_promises
    (hconvert : v.converts = true → ∀ (t : SchemaType) y, R y (t.convert y))
    (n : Node) (hadd : n.AddsNothing v.registry) (k : Keyword) (path : String) (x : Json)
    (hx : x.WellFormed)
    (h : ∀ m y₀ y, n.Applies v.registry x m y₀ → R y₀ y → evaluate.Keeps deep R m y) :
    Promises deep (R x) (v.evaluateKeyword evaluate k n path x) :=
  evaluateKeyword_promises_of_properties hR deep v evaluate hconvert n k path x
    (Node.promises_applyProperties hR deep n evaluate path v.registry hadd x
      (hx x (Json.mem_parts_self x)) h) h

/-- The keywords hand the instance from one to the next, so each of them may
    see any instance that the original can have been rewritten to. -/
theorem evaluateKeywords_promises_of_properties
    (hconvert : v.converts = true → ∀ (t : SchemaType) y, R y (t.convert y))
    (n : Node) (keywords : List Keyword) (path : String) (x : Json)
    (hproperties : ∀ x', R x x' →
      Promises deep (R x') (n.applyProperties v.registry evaluate path x'))
    (h : ∀ x' m y₀ y, R x x' → n.Applies v.registry x' m y₀ → R y₀ y →
      evaluate.Keeps deep R m y) :
    Promises deep (R x) (v.evaluateKeywords evaluate keywords n path x) := by
  unfold evaluateKeywords
  refine promises_foldlM deep (R x) _ _ _ (hR.refl x) (fun x' k _ hx' => ?_)
  refine promises_mono deep _ _ (fun y hy => hR.trans x x' y hx' hy) _ ?_
  exact evaluateKeyword_promises_of_properties hR deep v evaluate hconvert n k path x'
    (hproperties x' hx') (fun m y₀ y hm hy => h x' m y₀ y hx' hm hy)

theorem evaluateWith_promises_of_properties
    (hconvert : v.converts = true → ∀ (t : SchemaType) y, R y (t.convert y))
    (n : Node) (path : String) (x : Json)
    (hproperties : ∀ t x', v.registry.follow n = .ok t → R x x' →
      Promises deep (R x') (t.applyProperties v.registry evaluate path x'))
    (h : ∀ t x' m y₀ y, v.registry.follow n = .ok t → R x x' → t.Applies v.registry x' m y₀ →
      R y₀ y → evaluate.Keeps deep R m y) :
    Promises deep (R x) (v.evaluateWith evaluate n path x) := by
  unfold evaluateWith
  refine promises_bind deep _ _ _ _ (promises_follow deep v.registry n) (fun t ht => ?_)
  split
  · exact evaluateKeywords_promises_of_properties hR deep v evaluate hconvert t _ path x
      (fun x' hx' => hproperties t x' ht hx') (fun x' m y₀ y hx' hm hy => h t x' m y₀ y ht hx' hm hy)
  · exact trivial
  · exact hR.refl x

theorem evaluateWith_promises
    (hconvert : v.converts = true → ∀ (t : SchemaType) y, R y (t.convert y))
    (n : Node) (hadd : ∀ t, v.registry.follow n = .ok t → t.AddsNothing v.registry)
    (path : String) (x : Json) (hx : x.WellFormed)
    (h : ∀ t x' m y₀ y, v.registry.follow n = .ok t → R x x' → t.Applies v.registry x' m y₀ →
      R y₀ y → evaluate.Keeps deep R m y) :
    Promises deep (R x) (v.evaluateWith evaluate n path x) := by
  refine evaluateWith_promises_of_properties hR deep v evaluate hconvert n path x
    (fun t x' ht hx' => ?_) h
  exact Node.promises_applyProperties hR deep t evaluate path v.registry (hadd t ht) x'
    (hR.wellFormed x x' hx' hx x' (Json.mem_parts_self x')) (fun m y₀ y => h t x' m y₀ y ht hx')

omit hR

/-- A schema that is an object is evaluated by its keywords. -/
theorem evaluateWith_object (n t : Node) (members : Ordered Json) (path : String) (x : Json)
    (ht : v.registry.follow n = .ok t) (hobject : t.value = .object members) :
    v.evaluateWith evaluate n path x
      = v.evaluateKeywords evaluate v.dialect.keywords t path x := by
  rw [evaluateWith, ht, ok_bind, hobject]

/-- Keywords in two rows are evaluated one row after the other. -/
theorem evaluateKeywords_append (keywords keywords' : List Keyword) (n : Node) (path : String)
    (x : Json) :
    v.evaluateKeywords evaluate (keywords ++ keywords') n path x
      = v.evaluateKeywords evaluate keywords n path x
        >>= fun y => v.evaluateKeywords evaluate keywords' n path y := by
  unfold evaluateKeywords
  rw [List.filter_append, List.foldlM_append]

/-- The first keyword comes first if the schema has it. -/
theorem evaluateKeywords_cons (k : Keyword) (keywords : List Keyword) (n : Node)
    (hhas : n.has k.name = true) (path : String) (x : Json) :
    v.evaluateKeywords evaluate (k :: keywords) n path x
      = v.evaluateKeyword evaluate k n path x
        >>= fun y => v.evaluateKeywords evaluate keywords n path y := by
  have hfirst : (k :: keywords).filter (fun k => n.has k.name)
      = k :: keywords.filter fun k => n.has k.name := List.filter_cons_of_pos hhas
  unfold evaluateKeywords
  rw [hfirst, List.foldlM_cons]

/-- A discriminator that leads to another schema has the instance evaluated by
    that, with the way back taken out. -/
theorem evaluateKeyword_discriminator (hdialect : v.dialect = .openApi) (n m target : Node)
    (path : String) (x : Json) (uri : Uri) (hchoice : (n.has "anyOf" || n.has "oneOf") = false)
    (hselected : n.selected path x = .ok uri) (hm : v.registry.node? uri = some m)
    (htarget : v.registry.follow m = .ok target) (hother : target.scope ≠ n.scope) :
    v.evaluateKeyword evaluate .discriminator n path x
      = verdict (evaluate (m.excluding n.scope) path x) >>= fun outcome =>
          match outcome with
          | .ok value => .ok value
          | .error w => .error (.ofCauses path n.scope .discriminator [w]) := by
  have hkeyword : v.evaluateKeyword evaluate .discriminator n path x
      = n.applyDiscriminator v.registry evaluate path x := by
    unfold evaluateKeyword
    rw [hdialect]
  rw [hkeyword]
  unfold Node.applyDiscriminator
  rw [hselected]
  change (if n.has "anyOf" || n.has "oneOf" then Except.ok x else _) = _
  rw [hchoice, if_neg Bool.false_ne_true, hm]
  change (v.registry.follow m >>= fun target => _) = _
  rw [htarget]
  change (if target.scope = n.scope then Except.ok x else _) = _
  exact if_neg hother

end Validator

end OpenApi
