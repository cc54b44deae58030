import OpenApi.Proofs.Evaluation.Acceptance
import OpenApi.Proofs.Evaluation.Dialect
import OpenApi.Proofs.Evaluation.Members
import OpenApi.Proofs.Evaluation.Typing

/-!
# Conversions Where None Is Needed

With conversions a schema accepts more instances. It need not accept those it
accepted without, though: a branch of `oneOf` may come to accept as well, and so
may the schema under `not`. Where a schema has neither these nor `anyOf`, it
accepts only if every schema it applies does, and then nothing is lost.

A conversion that changes a text makes something of another type out of it. The
type that asked for the conversion would have rejected the text as it stood, so
an evaluation without conversions that accepts has met no text that would have
been converted. Both evaluations then take the same steps and return the same
instance, defaults included.

The other direction of the comparison fails, and so does the comparison of
rejections. So one evaluation is said to be within another one where only its
acceptances carry over, which is less than `Evaluation.Under` says.

## Main definitions

* `Evaluation.Within`: The second evaluation accepts what the first one does.
* `Node.isPositive`: A schema accepts only if all schemas it applies do.
* `Validator.lenient`: Evaluation with conversions.

## Theorems

* `within_applyItems` and its companions: Keywords that apply subschemas.
* `checkSingleType_of_strict`: No accepted text is converted.
* `evaluateAmong_within`: Evaluations among positive schemas.
* `evaluateIn_lenient`: What is accepted without conversions is accepted with
  them, and comes back the same.
-/

namespace OpenApi

/-- The second evaluation accepts whatever the first one accepts, with the same
    result. -/
def Evaluation.Within (evaluate evaluate' : Evaluation) : Prop :=
  ∀ n path x y, evaluate n path x = .ok y → evaluate' n path x = .ok y

/-- Whether a schema accepts only if all schemas it applies do: it neither
    chooses among schemas nor negates one. -/
def Node.isPositive (n : Node) : Bool := !n.has "anyOf" && !n.has "oneOf" && !n.has "not"

/-- A loop that ends well does so with other steps, if these do whatever the
    first ones do on their way to the end. -/
theorem foldlM_ok_of_ok {α β ε : Type} (step step' : β → α → Except ε β) (items : List α)
    (h : ∀ item ∈ items, ∀ state next, step state item = .ok next →
      step' state item = .ok next) :
    ∀ state last, items.foldlM step state = .ok last → items.foldlM step' state = .ok last := by
  induction items with
  | nil => exact fun state last hlast => hlast
  | cons item rest ih =>
      intro state last hlast
      rw [List.foldlM_cons] at hlast ⊢
      obtain ⟨next, hnext, hrest⟩ := (bind_eq_ok_iff _ _ last).mp hlast
      refine (bind_eq_ok_iff _ _ last).mpr ⟨next, h item List.mem_cons_self state next hnext, ?_⟩
      exact ih (fun item' hitem' => h item' (List.mem_cons_of_mem item hitem')) next last hrest

namespace Node

variable (n : Node) (r : Registry) (evaluate evaluate' : Evaluation)
  (h : evaluate.Within evaluate') (path : String)

include h

theorem within_judge (schema? : Option Node) (segment : String) (x y : Json)
    (hy : judge evaluate schema? path segment x = .ok (.ok y)) :
    judge evaluate' schema? path segment x = .ok (.ok y) := by
  rw [judge_eq_ok_iff] at hy ⊢
  rcases hy with hsame | ⟨m, hm, hy⟩
  · exact Or.inl hsame
  · exact Or.inr ⟨m, hm, h m _ x y hy⟩

theorem within_judgeAdditional (key : String) (kind : ViolationKind) (segment : String)
    (x y : Json)
    (hy : n.judgeAdditional evaluate key kind path segment x = .ok (.ok y)) :
    n.judgeAdditional evaluate' key kind path segment x = .ok (.ok y) := by
  rw [judgeAdditional_eq_ok_iff] at hy ⊢
  exact ⟨hy.1, within_judge evaluate evaluate' h path _ segment x y hy.2⟩

theorem within_applyItems (x y : Json) (hy : n.applyItems evaluate path x = .ok y) :
    n.applyItems evaluate' path x = .ok y := by
  cases x with
  | array items =>
      rw [applyItems_eq_ok_iff] at hy ⊢
      obtain ⟨items', hitems', rfl⟩ := hy
      refine ⟨items', hitems'.imp fun pair item' hitem' => ?_, rfl⟩
      exact within_judge evaluate evaluate' h path _ _ pair.1 item' hitem'
  | _ => exact hy

theorem within_applyAdditionalItems (x y : Json)
    (hy : n.applyAdditionalItems evaluate path x = .ok y) :
    n.applyAdditionalItems evaluate' path x = .ok y := by
  by_cases harrays : (∃ items, x = .array items) ∧ ∃ tuple, n.get? "items" = some (.array tuple)
  · obtain ⟨⟨items, rfl⟩, tuple, htuple⟩ := harrays
    rw [n.applyAdditionalItems_eq_ok_iff _ path tuple items htuple] at hy ⊢
    obtain ⟨items', hitems', rfl⟩ := hy
    refine ⟨items', hitems'.imp fun pair item' hitem' => ?_, rfl⟩
    by_cases hi : pair.2 < tuple.length
    · rwa [if_pos hi] at hitem' ⊢
    · rw [if_neg hi] at hitem' ⊢
      exact within_judgeAdditional n evaluate evaluate' h path _ _ _ pair.1 item' hitem'
  · rw [n.applyAdditionalItems_of_not_array _ path x harrays] at hy ⊢
    exact hy

theorem within_judgeUndeclared (name : String) (x y : Json)
    (hy : n.judgeUndeclared evaluate path name x = .ok (.ok y)) :
    n.judgeUndeclared evaluate' path name x = .ok (.ok y) := by
  unfold judgeUndeclared at hy ⊢
  split
  · rename_i hdeclared
    rwa [if_pos hdeclared] at hy
  · rename_i hdeclared
    rw [if_neg hdeclared] at hy
    exact within_judgeAdditional n evaluate evaluate' h path _ _ name x y hy

theorem within_applyAdditionalProperties (x y : Json)
    (hy : n.applyAdditionalProperties evaluate path x = .ok y) :
    n.applyAdditionalProperties evaluate' path x = .ok y := by
  cases x with
  | object members =>
      rw [applyAdditionalProperties_eq_ok_iff] at hy ⊢
      obtain ⟨members', hmembers', rfl⟩ := hy
      refine ⟨members', hmembers'.imp fun a b hab => ⟨hab.1, ?_⟩, rfl⟩
      exact within_judgeUndeclared n evaluate evaluate' h path a.1 a.2 b.2 hab.2
  | _ => exact hy

theorem within_placesAll (names : List String) (members members' : Ordered Json)
    (hplaces : n.PlacesAll r evaluate path names members members') :
    n.PlacesAll r evaluate' path names members members' := by
  induction hplaces with
  | nil members => exact .nil members
  | cons name names members next last hnext _ ih =>
      refine .cons name names members next last ?_ ih
      cases hnext with
      | undeclared hchild => exact .undeclared hchild
      | present schema value value' hchild hvalue hevaluate =>
          exact .present schema value value' hchild hvalue (h schema _ value value' hevaluate)
      | added schema value hchild hvalue hdefault => exact .added schema value hchild hvalue hdefault
      | absent schema hchild hvalue hdefault => exact .absent schema hchild hvalue hdefault

theorem within_applyProperties (x y : Json) (hy : n.applyProperties r evaluate path x = .ok y) :
    n.applyProperties r evaluate' path x = .ok y := by
  by_cases hobjects : (∃ members, x = .object members)
      ∧ ∃ declared, n.get? "properties" = some (.object declared)
  · obtain ⟨⟨members, rfl⟩, declared, hdeclared⟩ := hobjects
    rw [n.applyProperties_eq_ok_iff r _ path declared hdeclared] at hy ⊢
    obtain ⟨members', hplaces, rfl⟩ := hy
    exact ⟨members', within_placesAll n r evaluate evaluate' h path _ _ _ hplaces, rfl⟩
  · rw [n.applyProperties_of_not_object r _ path x hobjects] at hy ⊢
    exact hy

theorem within_applyAllOf (x y : Json) (hy : n.applyAllOf r evaluate path x = .ok y) :
    n.applyAllOf r evaluate' path x = .ok y := by
  refine foldlM_ok_of_ok _ _ _ (fun m _ z next hnext => ?_) x y hy
  rw [applyMember_eq_ok_iff] at hnext ⊢
  rcases hnext with hskip | ⟨hkept, hnext⟩
  · exact Or.inl hskip
  · exact Or.inr ⟨hkept, h m path z next hnext⟩

theorem within_applyDiscriminator (x y : Json)
    (hy : n.applyDiscriminator r evaluate path x = .ok y) :
    n.applyDiscriminator r evaluate' path x = .ok y := by
  unfold applyDiscriminator at hy ⊢
  obtain ⟨uri, hselected, hy⟩ := (bind_eq_ok_iff _ _ y).mp hy
  refine (bind_eq_ok_iff _ _ y).mpr ⟨uri, hselected, ?_⟩
  by_cases hchoice : (n.has "anyOf" || n.has "oneOf") = true
  · rwa [if_pos hchoice] at hy ⊢
  · rw [if_neg hchoice] at hy ⊢
    rcases hfound : r.node? uri with _ | m
    · rw [hfound] at hy
      cases hy
    · rw [hfound] at hy
      obtain ⟨target, htarget, hy⟩ := (bind_eq_ok_iff _ _ y).mp hy
      refine (bind_eq_ok_iff _ _ y).mpr ⟨target, htarget, ?_⟩
      by_cases hself : target.scope = n.scope
      · rwa [if_pos hself] at hy ⊢
      · rw [if_neg hself] at hy ⊢
        obtain ⟨outcome, houtcome, hy⟩ := (bind_eq_ok_iff _ _ y).mp hy
        -- A violation of the selected schema would be one of the discriminator.
        cases outcome with
        | error w => cases hy
        | ok value =>
            have hvalue := h _ path x value ((verdict_eq_ok_iff _ value).mp houtcome)
            exact (bind_eq_ok_iff _ _ y).mpr ⟨.ok value, (verdict_eq_ok_iff _ value).mpr hvalue, hy⟩

omit h

/-- Conversion to a type that an instance has leaves the instance as it is. -/
theorem convert_of_admits (t : SchemaType) (x : Json) (hx : t.admits x = true) :
    t.convert x = x := by
  cases x with
  | string text => cases t with
      | string => rfl
      | _ => exact absurd hx Bool.false_ne_true
  | _ => rfl

theorem name_of_ofName? (name : String) (t : SchemaType) (ht : SchemaType.ofName? name = some t) :
    name = t.name := by
  unfold SchemaType.ofName? at ht
  have hfound := List.find?_some ht
  exact (beq_iff_eq.mp hfound).symm

/-- What a type accepts as it stands is not converted by it. -/
theorem checkSingleType_of_strict (x y : Json) (hy : n.checkSingleType false path x = .ok y) :
    n.checkSingleType true path x = .ok y := by
  unfold checkSingleType at hy ⊢
  split
  · rename_i name hname
    rw [hname] at hy
    dsimp only at hy
    split
    · rename_i hnull
      rwa [if_pos hnull] at hy
    · rename_i hnull
      rw [if_neg hnull] at hy
      rcases htype : SchemaType.ofName? name with _ | t
      · exact hy
      · -- An instance that already has the type is left alone by the conversion to it.
        have hadmits : t.admits x = true :=
          (n.checkType_eq_ok path t (name_of_ofName? name t htype ▸ hname) x y hy).2
        dsimp only
        rw [convert_of_admits t x hadmits]
        exact hy
  · rename_i hnone
    split at hy
    · rename_i name hname
      exact absurd hname (hnone name)
    · exact hy

end Node

namespace Validator

/-- The rules of a dialect over a registry, with conversions. -/
def lenient (r : Registry) (d : Dialect) : Validator := ⟨r, d, true⟩

variable (r : Registry) (d : Dialect)

section Keywords

variable (evaluate evaluate' : Evaluation) (h : evaluate.Within evaluate')

include h

theorem evaluateKeyword_within (k : Keyword) (hk : k ≠ .anyOf ∧ k ≠ .oneOf ∧ k ≠ .not) (n : Node)
    (path : String) (x y : Json)
    (hy : (strict r d).evaluateKeyword evaluate k n path x = .ok y) :
    (lenient r d).evaluateKeyword evaluate' k n path x = .ok y := by
  -- Of the keywords that evaluate no subschema, only `type` knows of conversions.
  cases k with
  | type => cases d with
      | jsonSchema => exact hy
      | openApi => exact n.checkSingleType_of_strict path x y hy
  | format => cases d with
      | jsonSchema => exact hy
      | openApi => exact hy
  | items => exact n.within_applyItems evaluate evaluate' h path x y hy
  | additionalItems => exact n.within_applyAdditionalItems evaluate evaluate' h path x y hy
  | properties => exact n.within_applyProperties r evaluate evaluate' h path x y hy
  | additionalProperties =>
      exact n.within_applyAdditionalProperties evaluate evaluate' h path x y hy
  | discriminator => cases d with
      | jsonSchema => exact hy
      | openApi => exact n.within_applyDiscriminator r evaluate evaluate' h path x y hy
  | allOf => exact n.within_applyAllOf r evaluate evaluate' h path x y hy
  | anyOf => exact absurd rfl hk.1
  | oneOf => exact absurd rfl hk.2.1
  | not => exact absurd rfl hk.2.2
  | _ => exact hy

/-- Of the keywords that a positive schema has, each accepts what it accepted. -/
theorem evaluateKeywords_within (keywords : List Keyword) (n : Node) (hn : n.isPositive = true)
    (path : String) (x y : Json)
    (hy : (strict r d).evaluateKeywords evaluate keywords n path x = .ok y) :
    (lenient r d).evaluateKeywords evaluate' keywords n path x = .ok y := by
  simp only [Node.isPositive, Bool.and_eq_true, Bool.not_eq_true'] at hn
  obtain ⟨⟨hany, hone⟩, hnot⟩ := hn
  refine foldlM_ok_of_ok _ _ _ (fun k hk z next hnext => ?_) x y hy
  have hhas : n.has k.name = true := (List.mem_filter.mp hk).2
  refine evaluateKeyword_within r d evaluate evaluate' h k ⟨?_, ?_, ?_⟩ n path z next hnext
  · rintro rfl
    exact absurd (hany.symm.trans hhas) Bool.false_ne_true
  · rintro rfl
    exact absurd (hone.symm.trans hhas) Bool.false_ne_true
  · rintro rfl
    exact absurd (hnot.symm.trans hhas) Bool.false_ne_true

end Keywords

/-- An evaluation without conversions that meets positive schemas alone is within
    the evaluation with conversions. -/
theorem evaluateAmong_within (depth : Nat) :
    Evaluation.Within ((strict r d).evaluateAmong Node.isPositive depth)
      ((lenient r d).evaluateIn depth) := by
  induction depth with
  | zero =>
      intro n path x y hy
      cases hy
  | succ depth ih =>
      intro n path x y hy
      unfold evaluateAmong at hy
      unfold evaluateIn
      obtain ⟨target, htarget, hy⟩ := (bind_eq_ok_iff _ _ y).mp hy
      by_cases hpositive : target.isPositive = true
      · rw [if_pos hpositive] at hy
        unfold evaluateWith at hy ⊢
        obtain ⟨target', htarget', hy⟩ := (bind_eq_ok_iff _ _ y).mp hy
        -- The schema that was found to be positive is the one that is evaluated.
        have hsame : target' = target := Except.ok.inj (htarget'.symm.trans htarget)
        refine (bind_eq_ok_iff _ _ y).mpr ⟨target', htarget', ?_⟩
        cases hvalue : target'.value with
        | object members =>
            rw [hvalue] at hy
            exact evaluateKeywords_within r d _ _ ih d.keywords target' (hsame ▸ hpositive) path
              x y hy
        | bool accepts =>
            rw [hvalue] at hy
            cases accepts with
            | true => exact hy
            | false => exact hy
        | _ =>
            rw [hvalue] at hy
            exact hy
      · rw [if_neg hpositive] at hy
        cases hy

/-- What an evaluation without conversions accepts, having met no schema that
    chooses or negates, is accepted with conversions too, and nothing about it is
    converted. -/
theorem evaluateIn_lenient (depth : Nat) (n : Node) (path : String) (x y : Json)
    (hmet : (strict r .openApi).evaluateAmong Node.isPositive depth n path x ≠ .error .depth)
    (h : (strict r .openApi).evaluateIn depth n path x = .ok y) :
    (lenient r .openApi).evaluateIn depth n path x = .ok y := by
  have hsame := eq_of_below _ _ ((strict r .openApi).evaluateAmong_below _ depth n path x) hmet
  exact evaluateAmong_within r .openApi depth n path x y (hsame.trans h)

/-- The address of the document with the schema of an order. -/
def orderAddress : Uri := ⟨"http", some (.ofHost "shop"), .segments ["order"], none, none⟩

/-- The schema of an order: texts that spell numbers, and a member with a default. -/
def orderSchema : Json :=
  .object [("type", .string "object"),
    ("properties", .object [("code", .object [("type", .string "string")]),
      ("parts", .object [("items", .object [("$ref", .string "\x23/properties/code")])]),
      ("count", .object [("type", .string "integer"), ("default", .ofInt 1)])]),
    ("allOf", .array [.object [("required", .array [.string "code"])]])]

/-- The node of the schema of an order. -/
def orderNode : Node := ⟨orderSchema, orderAddress, "", orderAddress, none⟩

/-- The evaluation of an order without conversions. -/
def orders : Validator := strict ⟨[(orderAddress, orderSchema)], [], []⟩ .openApi

/-- An order whose texts all spell numbers. -/
def order : Json := .object [("parts", .array [.string "12"]), ("code", .string "7")]

/-- Texts that are meant as texts are left alone, and the default is added. -/
theorem evaluateIn_lenient_order :
    (lenient ⟨[(orderAddress, orderSchema)], [], []⟩ .openApi).evaluateIn 4 orderNode "" order
      = .ok (.object [("parts", .array [.string "12"]), ("code", .string "7"),
        ("count", .ofInt 1)]) := by
  have hmet : orders.evaluateAmong Node.isPositive 4 orderNode "" order ≠ .error .depth := by
    decide +kernel
  have hvalue : orders.evaluateIn 4 orderNode "" order
      = .ok (.object [("parts", .array [.string "12"]), ("code", .string "7"),
        ("count", .ofInt 1)]) := eq_ok_of_toOption _ _ (by decide +kernel)
  exact evaluateIn_lenient _ 4 orderNode "" order _ hmet hvalue

end Validator

end OpenApi
