import OpenApi.Proofs.Evaluation.Endurance

/-!
# Steady Evaluations

Keywords are evaluated in a fixed order, and a later one may put a default where
an earlier one has looked already. There are three ways in which this can keep a
schema from returning once more what it has returned.

* A fragile check in front of the default does not hold of what comes out.
* Another branch of `anyOf` or `oneOf` accepts what comes out, or the `not` of a
  branch no longer rejects it.
* A combinator changes an item or adds a member, and a subschema in front of it
  that judges this place does not return what is there now.

An evaluation is steady if none of this happens at any schema on its way. Only
what a later part has changed has to be looked at for that. All the rest settles
by itself: keywords that judge items and members return what they have replaced,
checks that are not fragile survive additions, and a branch of `allOf` settles on
what the rest of the branches have made of its own result.

The steady evaluation is written next to the evaluation itself and differs from
it in one way. Where a part of a schema gets in the way of another it gives up, as
if the depth had run out, so it has fewer outcomes and no others. What it is sure
not to give up are evaluations that meet calm schemas only, which have nothing that
could get in the way.

## Main definitions

* `Node.isCalm`: A schema without fragile checks and combinators.
* `Validator.isSteady`: No part of a schema gets in the way of another.
* `Validator.evaluateSteadily`: The steady evaluation.
* `Validator.SteadyRun`: What it goes through at a schema.

## Theorems

* `evaluateSteadily_below`: It lacks outcomes, and has no others.
* `settles_of_membersSteady`: Branches of `allOf` settle on what comes out in the end.
* `settlesKeyword_of_steadyRun`: So does every keyword of the schema.
* `stabilizes_evaluateSteadily`: A schema settles on what its steady evaluation
  returns.
* `evaluateAmong_below_steadily`: By way of calm schemas every evaluation is steady.
-/

namespace OpenApi

/-- The keywords that can keep an evaluation from being steady. -/
def Keyword.disturbing : List Keyword :=
  [.enum, .const, .uniqueItems, .maxProperties, .allOf, .anyOf, .oneOf]

namespace Node

/-- Whether a schema has no keywords that can disturb. -/
def isCalm (n : Node) : Bool := Keyword.disturbing.all fun k => !n.has k.name

variable (n : Node) (hcalm : n.isCalm = true)

include hcalm

theorem not_has_of_isCalm (k : Keyword) (hk : k ∈ Keyword.disturbing) : n.has k.name = false :=
  (Bool.not_eq_true' _).mp (List.all_eq_true.mp hcalm k hk)

theorem get?_of_isCalm (k : Keyword) (hk : k ∈ Keyword.disturbing) : n.get? k.name = none :=
  Option.not_isSome_iff_eq_none.mp fun hsome =>
    Bool.false_ne_true ((n.not_has_of_isCalm hcalm k hk).symm.trans hsome)

theorem stands_of_isCalm (path : String) (x : Json) : n.stands path x = true := by
  have henum : n.checkEnum path x = .ok x := by
    unfold checkEnum
    rw [show n.get? "enum" = none from n.get?_of_isCalm hcalm .enum (by decide)]
  have hconst : n.checkConst path x = .ok x := by
    unfold checkConst
    rw [show n.get? "const" = none from n.get?_of_isCalm hcalm .const (by decide)]
  have hunique : n.checkUniqueItems path x = .ok x := by
    unfold checkUniqueItems isTrue
    rw [show n.get? "uniqueItems" = none from n.get?_of_isCalm hcalm .uniqueItems (by decide)]
    split
    · rfl
    · rfl
  have hmax : n.checkMaxProperties path x = .ok x := by
    unfold checkMaxProperties checkMeasure
    rw [show n.get? "maxProperties" = none from n.get?_of_isCalm hcalm .maxProperties (by decide)]
    split
    · rename_i hlimit
      exact nomatch hlimit
    · rfl
  unfold stands
  rw [henum, hconst, hunique, hmax]
  rfl

end Node

namespace Validator

variable (v : Validator)

/-- A subschema makes the second of three instances of the first one, and endures
    what makes the third one of that. -/
def comesTo (evaluate : Evaluation) (depth : Nat) (path : String) (x z y : Json) (m : Node) : Bool :=
  decide (evaluate m path x = .ok z) && (decide (z = y) || v.endures path depth m z y)

/-- A branch has been chosen, or would be if the third instance were given. -/
def isChoice (evaluate : Evaluation) (depth : Nat) (path : String) (x z y : Json) (m : Node) : Bool :=
  v.comesTo evaluate depth path x z y m || decide (v.evaluateIn depth m path y = .ok y)

/-- Each branch of `allOf` endures what comes after it, as long as the instance is
    not yet what it will be in the end. -/
def membersSteady (evaluate : Evaluation) (depth : Nat) (n : Node) (path : String) (y : Json) :
    List Node → Json → Bool
  | [], _ => true
  | m :: rest, x =>
    decide (x = y) ||
      match n.isExcluded v.registry m, evaluate m path x with
      | .ok true, _ => membersSteady evaluate depth n path y rest x
      | .ok false, .ok z => v.comesTo evaluate depth path x z y m
          && membersSteady evaluate depth n path y rest z
      | _, _ => false

/-- No part of a schema gets in the way of another. In front of the combinators the
    instance is `w`, after `allOf` it is `u`, after `anyOf` it is `s`, and after
    `oneOf` it is `y`. -/
def isSteady (evaluate : Evaluation) (depth : Nat) (n : Node) (path : String) (w u s y : Json) :
    Bool :=
  n.stands path y && n.keepsChanges path (v.evaluateIn depth) w y
    && v.membersSteady evaluate depth n path y (n.branches "allOf") w
    && (!n.has "anyOf" || decide (u = y ∧ s = y)
      || firstGood (v.isChoice evaluate depth path u s y) (v.rejectsIn depth path y)
        (n.branches "anyOf"))
    && (decide (s = y)
      || onlyGood (v.isChoice evaluate depth path s y y) (v.rejectsIn depth path y)
        (n.branches "oneOf"))

/-- Evaluates a schema, and gives up as if the depth had run out where a part of a
    schema gets in the way of another. -/
def evaluateSteadily (v : Validator) : Nat → Evaluation
  | 0, _, _, _ => .error .depth
  | depth + 1, n, path, x => do
    let t ← v.registry.follow n
    match t.value with
    | .object _ => do
      let w ← v.evaluateKeywords (v.evaluateSteadily depth) Keyword.inside t path x
      let u ← v.evaluateKeywords (v.evaluateIn depth) [.allOf] t path w
      let s ← v.evaluateKeywords (v.evaluateIn depth) [.anyOf] t path u
      let y ← v.evaluateKeywords (v.evaluateIn depth) [.oneOf] t path s
      let z ← v.evaluateKeywords (v.evaluateIn depth) [.not] t path y
      if v.isSteady (v.evaluateSteadily depth) depth t path w u s y && decide (z = y) then .ok z
      else .error .depth
    | .bool false => .error (.ofViolation path t.scope .not)
    | _ => .ok x

/-- The steady evaluation only lacks outcomes. -/
theorem evaluateSteadily_below (hdialect : v.dialect = .jsonSchema) (depth : Nat) :
    Evaluation.Under (v.evaluateSteadily depth) (v.evaluateIn depth) := by
  induction depth with
  | zero => exact fun n path x => Or.inl rfl
  | succ depth ih =>
      intro n path x
      unfold evaluateSteadily evaluateIn evaluateWith
      refine below_bind _ _ _ _ (below_refl _) fun t => ?_
      -- The row of keywords is cut into the five parts that are watched, and compared part by part.
      cases t.value with
      | object members =>
          dsimp only
          rw [hdialect, keywords_jsonSchema, evaluateKeywords_append]
          refine below_bind _ _ _ _ (v.evaluateKeywords_below _ _ ih _ t path x) fun w => ?_
          rw [evaluateKeywords_append]
          refine below_bind _ _ _ _ (below_refl _) fun u => ?_
          rw [evaluateKeywords_append]
          refine below_bind _ _ _ _ (below_refl _) fun s => ?_
          rw [evaluateKeywords_append]
          refine below_bind _ _ _ _ (below_refl _) fun y => ?_
          rcases v.evaluateKeywords (v.evaluateIn depth) [.not] t path y with e | z
          · exact below_refl _
          -- At the end it either agrees or gives up.
          · change Below (if _ then _ else _) _
            split
            · exact below_refl _
            · exact Or.inl rfl
      | bool accepts => cases accepts with
          | true => exact below_refl _
          | false => exact below_refl _
      | _ => exact below_refl _

/-- What the steady evaluation of a schema that is an object goes through, keyword by
    keyword, and what it has found out on its way. -/
structure SteadyRun (depth : Nat) (t : Node) (path : String) (x w u s y : Json) : Prop where
  /-- What the keywords in front of the combinators return. -/
  inside : v.evaluateKeywords (v.evaluateSteadily depth) Keyword.inside t path x = .ok w
  /-- What `allOf` returns. -/
  allOf : v.evaluateKeywords (v.evaluateIn depth) [.allOf] t path w = .ok u
  /-- What `anyOf` returns. -/
  anyOf : v.evaluateKeywords (v.evaluateIn depth) [.anyOf] t path u = .ok s
  /-- What `oneOf` returns. -/
  oneOf : v.evaluateKeywords (v.evaluateIn depth) [.oneOf] t path s = .ok y
  /-- What must not hold does not. -/
  not : v.evaluateKeywords (v.evaluateIn depth) [.not] t path y = .ok y
  /-- The fragile checks accept in the end. -/
  stands : t.stands path y = true
  /-- What the combinators have changed is kept. -/
  keeps : t.keepsChanges path (v.evaluateIn depth) w y = true
  /-- Branches of `allOf` endure what comes after them. -/
  members : v.membersSteady (v.evaluateSteadily depth) depth t path y (t.branches "allOf") w = true
  /-- `anyOf` could choose in the end, if it matters. -/
  first : (t.has "anyOf" = false ∨ (u = y ∧ s = y))
    ∨ firstGood (v.isChoice (v.evaluateSteadily depth) depth path u s y) (v.rejectsIn depth path y)
      (t.branches "anyOf") = true
  /-- `oneOf` could choose in the end, if it matters. -/
  only : s = y
    ∨ onlyGood (v.isChoice (v.evaluateSteadily depth) depth path s y y) (v.rejectsIn depth path y)
      (t.branches "oneOf") = true

theorem exists_steadyRun (n t : Node) (hfollow : v.registry.follow n = .ok t)
    (hobject : ∃ members, t.value = .object members) (depth : Nat) (path : String) (x y : Json)
    (h : v.evaluateSteadily (depth + 1) n path x = .ok y) :
    ∃ w u s, v.SteadyRun depth t path x w u s y := by
  obtain ⟨members, hvalue⟩ := hobject
  rw [evaluateSteadily, hfollow, ok_bind, hvalue] at h
  obtain ⟨w, hw, h⟩ := (bind_eq_ok_iff _ _ y).mp h
  obtain ⟨u, hu, h⟩ := (bind_eq_ok_iff _ _ y).mp h
  obtain ⟨s, hs, h⟩ := (bind_eq_ok_iff _ _ y).mp h
  obtain ⟨y', hy', h⟩ := (bind_eq_ok_iff _ _ y).mp h
  obtain ⟨z, hz, h⟩ := (bind_eq_ok_iff _ _ y).mp h
  split at h
  -- `not` has returned its instance, so what came in front of it is what comes out.
  · rename_i hchecked
    obtain ⟨hsteady, hsame⟩ := (Bool.and_eq_true _ _).mp hchecked
    rw [of_decide_eq_true hsame] at hz h
    rw [Except.ok.inj h] at hy' hz hsteady
    simp only [isSteady, Bool.and_eq_true, Bool.or_eq_true, Bool.not_eq_true',
      decide_eq_true_eq] at hsteady
    obtain ⟨⟨⟨⟨hstands, hkeeps⟩, hmembers⟩, hfirst⟩, honly⟩ := hsteady
    exact ⟨w, u, s, hw, hu, hs, hy', hz, hstands, hkeeps, hmembers, hfirst, honly⟩
  · exact nomatch h

section Settling

variable (hdialect : v.dialect = .jsonSchema) (hconvert : v.converts = false)
  (hdocuments : ∀ entry ∈ v.registry.documents, entry.2.WellFormed) (path : String)

include hdialect hconvert hdocuments

section Branches

variable (evaluate : Evaluation) (hstable : v.Stabilizes evaluate) (depth : Nat)

include hstable

/-- A branch settles on what it has returned, and so on what becomes of that without
    its noticing. -/
theorem settles_of_comesTo (m : Node) (hm : v.registry.Has m) (x z y : Json) (hx : x.WellFormed)
    (hz : z.WellFormed) (hlater : Json.Becomes z y)
    (h : v.comesTo evaluate depth path x z y m = true) : v.Settles m path y := by
  unfold comesTo at h
  rw [Bool.and_eq_true, Bool.or_eq_true, decide_eq_true_eq, decide_eq_true_eq] at h
  have hsettles := hstable m path x z hm hx h.1
  rcases h.2 with rfl | hendures
  · exact hsettles
  · exact v.settles_of_endures hdialect hconvert hdocuments path z y hz hlater.wellFormed
      hlater.grown depth m (v.registry.holds_of_has m hm) hendures hsettles

/-- A branch settles if it has been chosen, or would be now. -/
theorem settles_of_isChoice (m : Node) (hm : v.registry.Has m) (x z y : Json) (hx : x.WellFormed)
    (hz : z.WellFormed) (hlater : Json.Becomes z y)
    (h : v.isChoice evaluate depth path x z y m = true) : v.Settles m path y := by
  rcases (Bool.or_eq_true _ _).mp h with hcomes | hnow
  · exact v.settles_of_comesTo hdialect hconvert hdocuments path evaluate hstable depth m hm x z y hx
      hz hlater hcomes
  · exact ⟨depth, of_decide_eq_true hnow⟩

/-- After steady branches of `allOf`, each of them settles on what is made of the
    instance in the end. -/
theorem settles_of_membersSteady (hunder : evaluate.Under (v.evaluateIn depth)) (n : Node)
    (branches : List Node) (hbranches : ∀ m ∈ branches, v.registry.Has m) (u y : Json)
    (hlater : Json.Becomes u y) :
    ∀ x, x.WellFormed →
      branches.foldlM (n.applyMember v.registry (v.evaluateIn depth) path) x = .ok u →
        v.membersSteady evaluate depth n path y branches x = true →
          Json.Becomes x y ∧ ∀ m ∈ branches, n.isExcluded v.registry m = .ok true
            ∨ (n.isExcluded v.registry m = .ok false ∧ v.Settles m path y) := by
  induction branches with
  | nil =>
      intro x hx h _
      rw [Except.ok.inj h]
      exact ⟨hlater, fun m hm => absurd hm List.not_mem_nil⟩
  | cons first rest ih =>
      intro x hx h hsteady
      have hholds : ∀ m ∈ first :: rest, v.registry.Holds m := fun m hm =>
        v.registry.holds_of_has m (hbranches m hm)
      -- Until the instance is what comes out in the end, each branch has been watched.
      by_cases hsame : x = y
      · -- From there on nothing is added, so every branch that is left returns the instance.
        rw [hsame] at h hx ⊢
        refine ⟨Json.becomes_refl y hx, fun m hm => ?_⟩
        rcases v.applyMember_eq_self_or_lt hdocuments hconvert n path depth (first :: rest) hholds y u
          hx h with ⟨_, hall⟩ | hlt
        · exact v.settles_of_applyMember path n m depth y (hall m hm)
        · rcases hlater.larger with rfl | hlt'
          · exact absurd hlt (Nat.lt_irrefl _)
          · exact absurd hlt' (Nat.lt_asymm hlt)
      · rw [List.foldlM_cons] at h
        obtain ⟨next, hnext, htail⟩ := (bind_eq_ok_iff _ _ u).mp h
        have hrest := ih fun m hm => hbranches m (List.mem_cons_of_mem first hm)
        unfold membersSteady at hsteady
        rw [Bool.or_eq_true, decide_eq_true_eq] at hsteady
        replace hsteady := hsteady.resolve_left hsame
        rcases (n.applyMember_eq_ok_iff v.registry _ path x first next).mp hnext with
          ⟨hskip, rfl⟩ | ⟨hkeep, hfirst⟩
        · rw [hskip] at hsteady
          obtain ⟨hbecomes, hall⟩ := hrest next hx htail hsteady
          exact ⟨hbecomes, List.forall_mem_cons.mpr ⟨Or.inl hskip, hall⟩⟩
        · rw [hkeep] at hsteady
          rcases hevaluate : evaluate first path x with e | z
          · rw [hevaluate] at hsteady
            exact nomatch hsteady
          · -- The steady evaluation of the first branch gave what the other one gave.
            have hz := ok_of_below _ _ (hunder first path x) z hevaluate
            have heq : z = next := Except.ok.inj (hz.symm.trans hfirst)
            rw [hevaluate, heq] at hsteady
            obtain ⟨hcomes, htailsteady⟩ := (Bool.and_eq_true _ _).mp hsteady
            have hbecomes := v.becomes_of_evaluateIn hdocuments hconvert first
              (hholds first List.mem_cons_self) path depth x next hx hfirst
            obtain ⟨hbecomes', hall⟩ := hrest next hbecomes.wellFormed htail htailsteady
            have hsettles := v.settles_of_comesTo hdialect hconvert hdocuments path evaluate hstable
              depth first (hbranches first List.mem_cons_self) x next y hx hbecomes.wellFormed hbecomes'
              hcomes
            exact ⟨Json.becomes_trans x next y hbecomes hbecomes',
              List.forall_mem_cons.mpr ⟨Or.inr ⟨hkeep, hsettles⟩, hall⟩⟩

end Branches

end Settling

/-- A row of one keyword is that keyword, if the schema has it. -/
theorem evaluateKeyword_of_row (evaluate : Evaluation) (k : Keyword) (n : Node) (path : String)
    (x y : Json) (hhas : n.has k.name = true)
    (h : v.evaluateKeywords evaluate [k] n path x = .ok y) :
    v.evaluateKeyword evaluate k n path x = .ok y := by
  rw [v.evaluateKeywords_cons evaluate k [] n hhas] at h
  obtain ⟨z, hz, hrest⟩ := (bind_eq_ok_iff _ _ y).mp h
  rwa [← Except.ok.inj hrest]

/-- `not` returns its instance or rejects it. -/
theorem eq_of_evaluateNot (evaluate : Evaluation) (n : Node) (path : String) (x y : Json)
    (h : v.evaluateKeywords evaluate [.not] n path x = .ok y) : y = x := by
  by_cases hhas : n.has Keyword.not.name = true
  · have hnot := v.evaluateKeyword_of_row evaluate .not n path x y hhas h
    change n.applyNot evaluate path x = .ok y at hnot
    unfold Node.applyNot at hnot
    split at hnot
    · exact (Except.ok.inj hnot).symm
    · obtain ⟨verdict, _, hverdict⟩ := (bind_eq_ok_iff _ _ y).mp hnot
      cases verdict with
      | ok value => exact nomatch hverdict
      | error w => exact (Except.ok.inj hverdict).symm
  · unfold evaluateKeywords at h
    rw [List.filter_cons_of_neg (p := fun k : Keyword => n.has k.name) hhas] at h
    exact (Except.ok.inj h).symm

section Steady

variable (hdialect : v.dialect = .jsonSchema) (hconvert : v.converts = false)
  (hdocuments : ∀ entry ∈ v.registry.documents, entry.2.WellFormed) (hkeeps : v.KeepsDefaults)

include hdialect hconvert hdocuments

section Run

variable (depth : Nat) (t : Node) (ht : v.registry.Has t) (path : String) (x w u s y : Json)
  (hx : x.WellFormed) (run : v.SteadyRun depth t path x w u s y)

include ht hx run

/-- The instance becomes larger from one part to the next. -/
theorem becomes_of_steadyRun :
    Json.Becomes x w ∧ Json.Becomes w u ∧ Json.Becomes u s ∧ Json.Becomes s y := by
  have hrow := fun keywords => v.becomes_of_evaluateKeywords hdocuments hconvert t
    (v.registry.holds_of_has t ht) path depth keywords
  have hxw := hrow Keyword.inside x w hx (ok_of_below _ _ (v.evaluateKeywords_below _ _
    (v.evaluateSteadily_below hdialect depth) _ t path x) w run.inside)
  have hwu := hrow [.allOf] w u hxw.wellFormed run.allOf
  have hus := hrow [.anyOf] u s hwu.wellFormed run.anyOf
  exact ⟨hxw, hwu, hus, hrow [.oneOf] s y hus.wellFormed run.oneOf⟩

variable (hstable : v.Stabilizes (v.evaluateSteadily depth))

include hstable

/-- `allOf` settles, because its branches are steady. -/
theorem settlesKeyword_allOf_of_steadyRun (hhas : t.has "allOf" = true) :
    v.SettlesKeyword .allOf t path y := by
  obtain ⟨hxw, hwu, hus, hsy⟩ := v.becomes_of_steadyRun hdialect hconvert hdocuments depth t ht path x
    w u s y hx run
  have huy := Json.becomes_trans u s y hus hsy
  rw [v.settlesKeyword_allOf_iff hconvert hdocuments path t (v.registry.holds_of_has t ht) y
    huy.wellFormed]
  exact (v.settles_of_membersSteady hdialect hconvert hdocuments path _ hstable depth
    (v.evaluateSteadily_below hdialect depth) t _
    (fun m hm => v.registry.closed_has.branches _ t m "allOf" ht hm) u y huy w hxw.wellFormed
    (v.evaluateKeyword_of_row _ .allOf t path w u hhas run.allOf) run.members).2

/-- `anyOf` settles, because it could choose once more or has not done anything. -/
theorem settlesKeyword_anyOf_of_steadyRun (hhas : t.has "anyOf" = true) :
    v.SettlesKeyword .anyOf t path y := by
  obtain ⟨hxw, hwu, hus, hsy⟩ := v.becomes_of_steadyRun hdialect hconvert hdocuments depth t ht path x
    w u s y hx run
  rcases run.first with (hnone | ⟨hu, hs⟩) | hfirst
  · exact absurd (hnone.symm.trans hhas) Bool.false_ne_true
  · have hsame := run.anyOf
    rw [hu, hs] at hsame
    exact ⟨depth, v.evaluateKeyword_of_row _ .anyOf t path y y hhas hsame⟩
  · refine v.settlesKeyword_anyOf t path y _ _ (fun m hm => ?_)
      (fun m _ => v.rejects_of_rejectsIn path depth y m) hfirst
    exact v.settles_of_isChoice hdialect hconvert hdocuments path _ hstable depth m
      (v.registry.closed_has.branches _ t m "anyOf" ht hm) u s y hwu.wellFormed hus.wellFormed hsy

/-- So does `oneOf`. -/
theorem settlesKeyword_oneOf_of_steadyRun (hhas : t.has "oneOf" = true) :
    v.SettlesKeyword .oneOf t path y := by
  obtain ⟨hxw, hwu, hus, hsy⟩ := v.becomes_of_steadyRun hdialect hconvert hdocuments depth t ht path x
    w u s y hx run
  rcases run.only with hs | honly
  · have hsame := run.oneOf
    rw [hs] at hsame
    exact ⟨depth, v.evaluateKeyword_of_row _ .oneOf t path y y hhas hsame⟩
  · refine v.settlesKeyword_oneOf t path y _ _ hdialect (fun m hm => ?_)
      (fun m _ => v.rejects_of_rejectsIn path depth y m) honly
    exact v.settles_of_isChoice hdialect hconvert hdocuments path _ hstable depth m
      (v.registry.closed_has.branches _ t m "oneOf" ht hm) s y y hus.wellFormed hsy.wellFormed
      (Json.becomes_refl y hsy.wellFormed)

include hkeeps

/-- After a steady run every keyword settles on what has come out. -/
theorem settlesKeyword_of_steadyRun (k : Keyword) (hk : k ∈ v.dialect.keywords)
    (hhas : t.has k.name = true) : v.SettlesKeyword k t path y := by
  obtain ⟨hxw, hwu, hus, hsy⟩ := v.becomes_of_steadyRun hdialect hconvert hdocuments depth t ht path x
    w u s y hx run
  have hwy := Json.becomes_trans w u y hwu (Json.becomes_trans u s y hus hsy)
  rw [hdialect, keywords_jsonSchema] at hk
  rcases List.mem_append.mp hk with hinside | hcombinator
  · -- In front of the combinators keywords settle in their row, and endure what follows.
    refine v.settlesKeyword_of_stands hdialect hdocuments path t (v.registry.holds_of_has t ht) w y
      hxw.wellFormed hwy.wellFormed hwy.grown depth run.stands run.keeps k
      (List.mem_filter.mp hinside).2 fun hfragile => ?_
    exact v.settlesKeyword_of_foldlM hdialect hconvert hdocuments hkeeps _ hstable depth
      (v.evaluateSteadily_below hdialect depth) t ht path _
      (fun k hk => (List.mem_filter.mp (List.mem_filter.mp hk).1).2) k (List.mem_filter.mp hinside).2
      hfragile x w hx run.inside (Or.inl (List.mem_filter.mpr ⟨hinside, hhas⟩))
  · simp only [List.singleton_append, List.mem_cons, List.not_mem_nil, or_false] at hcombinator
    rcases hcombinator with rfl | rfl | rfl | rfl
    · exact v.settlesKeyword_allOf_of_steadyRun hdialect hconvert hdocuments depth t ht path x w u s y
        hx run hstable hhas
    · exact v.settlesKeyword_anyOf_of_steadyRun hdialect hconvert hdocuments depth t ht path x w u s y
        hx run hstable hhas
    · exact v.settlesKeyword_oneOf_of_steadyRun hdialect hconvert hdocuments depth t ht path x w u s y
        hx run hstable hhas
    · exact ⟨depth, v.evaluateKeyword_of_row _ .not t path y y hhas run.not⟩

end Run

include hkeeps

/-- A schema settles on whatever its steady evaluation returns. -/
theorem stabilizes_evaluateSteadily (depth : Nat) : v.Stabilizes (v.evaluateSteadily depth) := by
  induction depth with
  | zero => exact fun n path x y _ _ h => nomatch h
  | succ depth ih =>
      intro n path x y hn hx h
      have hdeep := ok_of_below _ _ (v.evaluateSteadily_below hdialect (depth + 1) n path x) y h
      obtain ⟨t, hderef⟩ := v.exists_deref_of_accepts n path x ⟨_, y, hdeep⟩
      have hfollow := (v.registry.follow_eq_ok_iff n t).mpr hderef
      have ht := v.registry.closed_has.follow _ n t hn hfollow
      by_cases hobject : ∃ members, t.value = .object members
      · obtain ⟨w, u, s, run⟩ := v.exists_steadyRun n t hfollow hobject depth path x y h
        obtain ⟨_, _, _, hsy⟩ := v.becomes_of_steadyRun hdialect hconvert hdocuments depth t ht path x w
          u s y hx run
        exact (v.settles_iff_keywords hconvert hdocuments path n t hderef hobject
          (v.registry.holds_of_has t ht) y hsy.wellFormed).mpr (v.settlesKeyword_of_steadyRun hdialect
            hconvert hdocuments hkeeps depth t ht path x w u s y hx run ih)
      · exact v.settles_of_leaf path n t hderef (fun members hvalue => hobject ⟨members, hvalue⟩) x y y
          _ hdeep

end Steady

section Calm

/-- A keyword that can disturb others is not there, so it hands on its instance. -/
theorem evaluateKeywords_of_isCalm (evaluate : Evaluation) (t : Node) (ht : t.isCalm = true)
    (path : String) (k : Keyword) (hk : k ∈ Keyword.disturbing) (y : Json) :
    v.evaluateKeywords evaluate [k] t path y = .ok y := by
  unfold evaluateKeywords
  rw [List.filter_cons_of_neg (by rw [t.not_has_of_isCalm ht k hk]; exact Bool.false_ne_true)]
  rfl

/-- Nothing changes where there are no combinators, and nothing changed is steady. -/
theorem isSteady_of_isCalm (evaluate : Evaluation) (depth : Nat) (t : Node) (ht : t.isCalm = true)
    (path : String) (y : Json) : v.isSteady evaluate depth t path y y y y = true := by
  have hbranches : t.branches "allOf" = [] := by
    unfold Node.branches
    rw [show t.get? "allOf" = none from t.get?_of_isCalm ht .allOf (by decide)]
    rfl
  have hany : t.has "anyOf" = false := t.not_has_of_isCalm ht .anyOf (by decide)
  unfold isSteady Node.keepsChanges
  rw [t.stands_of_isCalm ht, hbranches, hany, decide_eq_true (rfl : y = y)]
  rfl

/-- A calm schema is evaluated by the keywords in front of the combinators and by `not`. -/
theorem evaluateKeywords_eq_of_isCalm (hdialect : v.dialect = .jsonSchema) (evaluate : Evaluation)
    (t : Node) (ht : t.isCalm = true) (path : String) (x : Json) :
    v.evaluateKeywords evaluate v.dialect.keywords t path x
      = v.evaluateKeywords evaluate Keyword.inside t path x
        >>= fun y => v.evaluateKeywords evaluate [.not] t path y := by
  have hrow := v.evaluateKeywords_of_isCalm evaluate t ht path
  rw [hdialect, keywords_jsonSchema, evaluateKeywords_append]
  refine bind_congr fun y => ?_
  rw [evaluateKeywords_append, hrow .allOf (by decide), ok_bind, evaluateKeywords_append,
    hrow .anyOf (by decide), ok_bind, evaluateKeywords_append, hrow .oneOf (by decide),
    ok_bind]

/-- So is it in the steady evaluation, which has nothing to watch there. -/
theorem evaluateSteadily_of_isCalm (depth : Nat) (n t : Node) (hfollow : v.registry.follow n = .ok t)
    (ht : t.isCalm = true) (members : Ordered Json) (hvalue : t.value = .object members)
    (path : String) (x : Json) :
    v.evaluateSteadily (depth + 1) n path x
      = v.evaluateKeywords (v.evaluateSteadily depth) Keyword.inside t path x
        >>= fun y => v.evaluateKeywords (v.evaluateIn depth) [.not] t path y := by
  have hrow := v.evaluateKeywords_of_isCalm (v.evaluateIn depth) t ht path
  rw [evaluateSteadily, hfollow, ok_bind, hvalue]
  refine bind_congr fun y => ?_
  rw [hrow .allOf (by decide), ok_bind, hrow .anyOf (by decide), ok_bind,
    hrow .oneOf (by decide), ok_bind]
  rcases hnot : v.evaluateKeywords (v.evaluateIn depth) [.not] t path y with e | z
  · rfl
  · have hsame : z = y := v.eq_of_evaluateNot (v.evaluateIn depth) t path y z hnot
    have hsteady := v.isSteady_of_isCalm (v.evaluateSteadily depth) depth t ht path y
    rw [ok_bind, hsame]
    exact if_pos ((Bool.and_eq_true _ _).mpr ⟨hsteady, decide_eq_true rfl⟩)

/-- Where an evaluation meets calm schemas only, the steady one does not give up. -/
theorem evaluateAmong_below_steadily (hdialect : v.dialect = .jsonSchema) (depth : Nat) :
    Evaluation.Under (v.evaluateAmong Node.isCalm depth) (v.evaluateSteadily depth) := by
  induction depth with
  | zero => exact fun n path x => Or.inl rfl
  | succ depth ih =>
      intro n path x
      rcases hfollow : v.registry.follow n with e | t
      · unfold evaluateAmong evaluateSteadily
        rw [hfollow]
        exact below_refl _
      · rw [evaluateAmong, hfollow, ok_bind]
        split
        · rename_i ht
          cases hvalue : t.value with
          | object members =>
              rw [v.evaluateWith_object _ n t members path x hfollow hvalue,
                v.evaluateKeywords_eq_of_isCalm hdialect _ t ht,
                v.evaluateSteadily_of_isCalm depth n t hfollow ht members hvalue]
              -- Under `not` the steady evaluation is the evaluation itself.
              exact below_bind _ _ _ _ (v.evaluateKeywords_below _ _ ih _ t path x) fun y =>
                v.evaluateKeywords_below _ _ (v.evaluateAmong_below Node.isCalm depth) _ t path y
          | bool accepts =>
              rw [evaluateWith, evaluateSteadily, hfollow, ok_bind, ok_bind, hvalue]
              cases accepts with
              | true => exact below_refl _
              | false => exact below_refl _
          | _ =>
              rw [evaluateWith, evaluateSteadily, hfollow, ok_bind, ok_bind, hvalue]
              exact below_refl _
        · exact Or.inl rfl

end Calm

end Validator

end OpenApi
