import OpenApi.Proofs.Evaluation.Outcome
import OpenApi.Schema.Members

/-!
# Accepted Members

What the keywords on arrays and objects do when they accept. Each of them judges
the members one by one and gathers the verdicts, so it accepts exactly if every
verdict does, and then returns the values of the verdicts in their places. The
lemmas say so for each keyword, as equivalences: they take an accepting run apart
into the runs of its members, and put such runs together again.

`properties` does not gather verdicts but collects violations on the way, and
changes the members as it goes. Violations are never taken back, so a run that
ends without one had none at any step. What is left of the run are the steps
that accept, `Node.Places`, one for each declared name.

## Main definitions

* `Node.judgeUndeclared`: What `additionalProperties` does with one member.
* `Node.conclude`: What `properties` ends with after its loop.
* `Node.Places`, `Node.PlacesAll`: What `properties` does if it accepts.
* `Node.Visits`: What one step of it does, accepting or not.

## Theorems

* `collect_eq_ok_iff`: When gathered verdicts give a value.
* `applyItems_eq_ok_iff`, `applyAdditionalItems_eq_ok_iff`,
  `applyAdditionalProperties_eq_ok_iff`: When the keywords accept.
* `applyAdditionalProperties_eq`, `applyProperties_eq`: The keywords on objects as loops.
* `visits_of_applyProperty`: All that a step of `properties` can do.
* `applyProperties_eq_ok_iff`: When `properties` accepts.
-/

namespace OpenApi

namespace Node

section Verdicts

variable {α β : Type} (n : Node) (path : String) (kind : ViolationKind)

theorem violations_eq_nil_iff (verdicts : List (Verdict α)) :
    verdicts.filterMap Verdict.violation? = []
      ↔ verdicts = (verdicts.filterMap Verdict.value?).map Except.ok := by
  induction verdicts with
  | nil => exact ⟨fun _ => rfl, fun _ => rfl⟩
  | cons verdict rest ih =>
      cases verdict with
      | ok value =>
          simp only [List.filterMap_cons, Verdict.violation?, Verdict.value?, List.map_cons,
            List.cons.injEq, true_and]
          exact ih
      | error w =>
          simp only [List.filterMap_cons, Verdict.violation?, Verdict.value?]
          refine iff_of_false (List.cons_ne_nil _ _) fun h => ?_
          -- A list of values has no violation at its head.
          rcases hvalues : rest.filterMap Verdict.value? with _ | ⟨value, values⟩
          · rw [hvalues] at h
            exact List.cons_ne_nil _ _ h
          · rw [hvalues, List.map_cons] at h
            exact nomatch (List.cons.inj h).1

theorem values_map_ok (values : List α) :
    (values.map Except.ok : List (Verdict α)).filterMap Verdict.value? = values := by
  induction values with
  | nil => rfl
  | cons value rest ih =>
      simp only [List.map_cons, List.filterMap_cons, Verdict.value?]
      rw [ih]

/-- Verdicts give values exactly if they all accept. -/
theorem gather_eq_ok_iff (verdicts : List (Verdict α)) (values : List α) :
    n.gather path kind verdicts = .ok values ↔ verdicts = values.map Except.ok := by
  unfold gather
  constructor
  · intro h
    rcases hcauses : verdicts.filterMap Verdict.violation? with _ | ⟨cause, causes⟩
    · rw [hcauses] at h
      rw [← Except.ok.inj h]
      exact (violations_eq_nil_iff verdicts).mp hcauses
    · rw [hcauses] at h
      exact nomatch h
  · intro h
    have hvalues : verdicts.filterMap Verdict.value? = values := by
      rw [h, values_map_ok]
    have hnone : verdicts.filterMap Verdict.violation? = [] :=
      (violations_eq_nil_iff verdicts).mpr (hvalues.symm ▸ h)
    rw [hnone, ← hvalues]

/-- A keyword that gathers the verdicts on members accepts exactly if each
    verdict does. -/
theorem collect_eq_ok_iff (step : α → Except Failure (Verdict β)) (wrap : List β → Json)
    (items : List α) (y : Json) :
    (do
      let verdicts ← items.mapM step
      let values ← n.gather path kind verdicts
      .ok (wrap values)) = Except.ok y
      ↔ ∃ values, List.Forall₂ (fun item value => step item = .ok (.ok value)) items values
        ∧ y = wrap values := by
  rw [bind_eq_ok_iff]
  constructor
  · rintro ⟨verdicts, hverdicts, h⟩
    obtain ⟨values, hvalues, hy⟩ := (bind_eq_ok_iff _ _ y).mp h
    rw [(n.gather_eq_ok_iff path kind verdicts values).mp hvalues, mapM_eq_ok_iff,
      List.forall₂_map_right_iff] at hverdicts
    exact ⟨values, hverdicts, (Except.ok.inj hy).symm⟩
  · rintro ⟨values, hvalues, hy⟩
    refine ⟨values.map Except.ok, ?_, ?_⟩
    · rw [mapM_eq_ok_iff, List.forall₂_map_right_iff]
      exact hvalues
    · rw [(n.gather_eq_ok_iff path kind _ values).mpr rfl, hy]
      rfl

end Verdicts

section Keywords

variable (n : Node) (evaluate : Evaluation) (path : String)

theorem verdict_eq_ok_iff {α : Type} (r : Except Failure α) (value : α) :
    verdict r = .ok (.ok value) ↔ r = .ok value := by
  rcases r with e | value'
  · cases e with
    | schema e => exact iff_of_false (fun h => nomatch h) (fun h => nomatch h)
    | violation w => exact iff_of_false (fun h => nomatch Except.ok.inj h) (fun h => nomatch h)
    | depth => exact iff_of_false (fun h => nomatch h) (fun h => nomatch h)
  · exact ⟨fun h => congrArg Except.ok (Except.ok.inj (Except.ok.inj h)),
      fun h => congrArg (Except.ok ∘ Except.ok) (Except.ok.inj h)⟩

theorem verdict_eq_error_iff {α : Type} (r : Except Failure α) (w : Violation) :
    verdict r = .ok (.error w) ↔ r = .error (.violation w) := by
  rcases r with e | value
  · cases e with
    | schema e => exact iff_of_false (fun h => nomatch h) (fun h => nomatch h)
    | violation w' =>
        exact ⟨fun h => congrArg (Except.error ∘ Failure.violation)
            (Except.error.inj (Except.ok.inj h)),
          fun h => congrArg (Except.ok ∘ Except.error) (Failure.violation.inj (Except.error.inj h))⟩
    | depth => exact iff_of_false (fun h => nomatch h) (fun h => nomatch h)
  · exact iff_of_false (fun h => nomatch Except.ok.inj h) (fun h => nomatch h)

/-- A member without a schema is accepted as it is. -/
theorem judge_eq_ok_iff (schema? : Option Node) (segment : String) (x y : Json) :
    judge evaluate schema? path segment x = .ok (.ok y)
      ↔ (schema? = none ∧ y = x)
        ∨ ∃ m, schema? = some m ∧ evaluate m (Pointer.push path segment) x = .ok y := by
  cases schema? with
  | none =>
      simp only [judge, Except.ok.injEq, reduceCtorEq, false_and, exists_false, or_false, true_and]
      exact eq_comm
  | some m =>
      simp only [judge, Option.some.injEq, exists_eq_left', reduceCtorEq, false_and, false_or]
      exact verdict_eq_ok_iff _ y

/-- A member that is accepted by an additional schema is not forbidden. -/
theorem judgeAdditional_eq_ok_iff (key : String) (kind : ViolationKind) (segment : String)
    (x y : Json) :
    n.judgeAdditional evaluate key kind path segment x = .ok (.ok y)
      ↔ n.isFalse key = false ∧ judge evaluate (n.child? [key]) path segment x = .ok (.ok y) := by
  unfold judgeAdditional
  cases n.isFalse key with
  | true => simp only [if_true, Except.ok.injEq, reduceCtorEq, false_and]
  | false => simp only [Bool.false_eq_true, if_false, true_and]

theorem applyItems_eq_ok_iff (items : List Json) (y : Json) :
    n.applyItems evaluate path (.array items) = .ok y
      ↔ ∃ items', List.Forall₂ (fun pair item' =>
          judge evaluate (n.itemSchema? pair.2) path (toString pair.2) pair.1 = .ok (.ok item'))
            items.zipIdx items'
        ∧ y = .array items' :=
  n.collect_eq_ok_iff path .items _ Json.array items.zipIdx y

/-- Behind the end of the list under `items`, each item is judged on its own. -/
theorem applyAdditionalItems_eq_ok_iff (tuple items : List Json)
    (htuple : n.get? "items" = some (.array tuple)) (y : Json) :
    n.applyAdditionalItems evaluate path (.array items) = .ok y
      ↔ ∃ items', List.Forall₂ (fun pair item' =>
          (if pair.2 < tuple.length then .ok (.ok pair.1)
            else n.judgeAdditional evaluate "additionalItems" .additionalItems path
              (toString pair.2) pair.1) = .ok (.ok item'))
            items.zipIdx items'
        ∧ y = .array items' := by
  unfold applyAdditionalItems
  rw [htuple]
  exact n.collect_eq_ok_iff path .additionalItems _ Json.array items.zipIdx y

/-- Without a list under `items`, or without an array, `additionalItems` says
    nothing. -/
theorem applyAdditionalItems_of_not_array (x : Json)
    (h : ¬ ((∃ items, x = .array items) ∧ ∃ tuple, n.get? "items" = some (.array tuple))) :
    n.applyAdditionalItems evaluate path x = .ok x := by
  unfold applyAdditionalItems
  split
  · rename_i tuple items hget
    exact absurd ⟨⟨items, rfl⟩, tuple, hget⟩ h
  · rfl

/-- Judges a member of an object that `properties` does not declare. Declared
    ones are accepted as they are. -/
def judgeUndeclared (name : String) (x : Json) : Except Failure (Verdict Json) :=
  if n.declares name then .ok (.ok x)
  else n.judgeAdditional evaluate "additionalProperties" .additionalProperties path name x

/-- The keyword judges the members one by one, and keeps their names. -/
theorem applyAdditionalProperties_eq (members : Ordered Json) :
    n.applyAdditionalProperties evaluate path (.object members) = (do
      let verdicts ← members.mapM fun entry =>
        n.judgeUndeclared evaluate path entry.1 entry.2 >>= fun verdict =>
          .ok (verdict.map fun value => (entry.1, value))
      let values ← n.gather path .additionalProperties verdicts
      .ok (.object values)) := by
  unfold applyAdditionalProperties judgeUndeclared
  refine congrArg (fun step => List.mapM step members >>= _) (funext fun entry => ?_)
  dsimp only
  split
  · rfl
  · rfl

theorem applyAdditionalProperties_eq_ok_iff (members : Ordered Json) (y : Json) :
    n.applyAdditionalProperties evaluate path (.object members) = .ok y
      ↔ ∃ members', List.Forall₂ (fun a b =>
          a.1 = b.1 ∧ n.judgeUndeclared evaluate path a.1 a.2 = .ok (.ok b.2)) members members'
        ∧ y = .object members' := by
  -- Putting the key back beside the value changes neither whether there is one nor which.
  have hstep : ∀ (outcome : Except Failure (Verdict Json)) (name : String) (b : String × Json),
      (outcome >>= fun verdict =>
        (.ok (verdict.map fun value => (name, value)) : Except Failure (Verdict (String × Json))))
          = .ok (.ok b) ↔ name = b.1 ∧ outcome = .ok (.ok b.2) := by
    intro outcome name b
    rcases outcome with e | verdict
    · exact iff_of_false (fun h => nomatch h) (fun h => nomatch h.2)
    · cases verdict with
      | error w =>
          refine iff_of_false (fun h => ?_) (fun h => nomatch Except.ok.inj h.2)
          have hverdict : (Except.error w : Verdict (String × Json)) = .ok b := Except.ok.inj h
          exact nomatch hverdict
      | ok value =>
          constructor
          · intro h
            rw [← Except.ok.inj (Except.ok.inj h)]
            exact ⟨rfl, rfl⟩
          · rintro ⟨rfl, h⟩
            rw [Except.ok.inj (Except.ok.inj h)]
            rfl
  have hloop := n.collect_eq_ok_iff path .additionalProperties
    (fun entry : String × Json => n.judgeUndeclared evaluate path entry.1 entry.2 >>= fun verdict =>
      .ok (verdict.map fun value => (entry.1, value))) Json.object members y
  simp only [hstep] at hloop
  rw [n.applyAdditionalProperties_eq evaluate path members]
  exact hloop

end Keywords

section Properties

variable (n : Node) (r : Registry) (evaluate : Evaluation) (path : String)

/-- What the schema declared for a name makes of the members of an object if it
    accepts: the value under the name is replaced by the one that is returned, or
    a default is added. -/
inductive Places (name : String) (members : Ordered Json) : Ordered Json → Prop where
  /-- There is no such schema. -/
  | undeclared : n.child? ["properties", name] = none → Places name members members
  /-- The member is taken out and put back. -/
  | present (schema : Node) (value value' : Json) :
      n.child? ["properties", name] = some schema → Ordered.get? members name = some value →
        evaluate schema (Pointer.push path name) value = .ok value' →
          Places name members (Ordered.insert (Ordered.erase members name) name value')
  /-- The member is absent, and has a default. -/
  | added (schema : Node) (value : Json) :
      n.child? ["properties", name] = some schema → Ordered.get? members name = none →
        schema.default? r = .ok (some value) →
          Places name members (Ordered.insert members name value)
  /-- The member is absent and stays absent. -/
  | absent (schema : Node) :
      n.child? ["properties", name] = some schema → Ordered.get? members name = none →
        schema.default? r = .ok none → Places name members members

/-- What the schemas declared for several names make of the members of an object,
    one after the other. -/
inductive PlacesAll : List String → Ordered Json → Ordered Json → Prop where
  /-- No name is left. -/
  | nil (members : Ordered Json) : PlacesAll [] members members
  /-- The first name comes first. -/
  | cons (name : String) (names : List String) (members next last : Ordered Json) :
      n.Places r evaluate path name members next → PlacesAll names next last →
        PlacesAll (name :: names) members last

/-- What a step of the loop over declared names makes of its progress. -/
inductive Visits (name : String) (p : Progress) : Progress → Prop where
  /-- The schema accepts. -/
  | accepted (members : Ordered Json) :
      n.Places r evaluate path name p.members members → Visits name p ⟨members, p.causes⟩
  /-- The schema rejects the member, which is put back as it was. -/
  | rejected (schema : Node) (value : Json) (w : Violation) :
      n.child? ["properties", name] = some schema → Ordered.get? p.members name = some value →
        evaluate schema (Pointer.push path name) value = .error (.violation w) →
          Visits name p ⟨Ordered.insert (Ordered.erase p.members name) name value, p.causes ++ [w]⟩

theorem visits_of_applyProperty (p p' : Progress) (name : String)
    (h : n.applyProperty r evaluate path p name = .ok p') : n.Visits r evaluate path name p p' := by
  unfold applyProperty at h
  split at h
  · rename_i hchild
    rw [← Except.ok.inj h]
    exact .accepted p.members (.undeclared hchild)
  · rename_i schema hchild
    split at h
    -- A member that is there is judged, and one that is not may have a default.
    · rename_i value hvalue
      obtain ⟨verdict, hverdict, hp⟩ := (bind_eq_ok_iff _ _ p').mp h
      cases verdict with
      | ok value' =>
          rw [← Except.ok.inj hp]
          exact .accepted _ (.present schema value value' hchild hvalue
            ((verdict_eq_ok_iff _ value').mp hverdict))
      | error w =>
          rw [← Except.ok.inj hp]
          exact .rejected schema value w hchild hvalue ((verdict_eq_error_iff _ w).mp hverdict)
    · rename_i hvalue
      obtain ⟨default?, hdefault, hp⟩ := (bind_eq_ok_iff _ _ p').mp h
      cases default? with
      | none =>
          rw [← Except.ok.inj hp]
          exact .accepted p.members (.absent schema hchild hvalue hdefault)
      | some value =>
          rw [← Except.ok.inj hp]
          exact .accepted _ (.added schema value hchild hvalue hdefault)

theorem applyProperty_of_places (members members' : Ordered Json) (causes : List Violation)
    (name : String) (h : n.Places r evaluate path name members members') :
    n.applyProperty r evaluate path ⟨members, causes⟩ name = .ok ⟨members', causes⟩ := by
  unfold applyProperty
  cases h with
  | undeclared hchild => rw [hchild]
  | present schema value value' hchild hvalue hevaluate =>
      rw [hchild]
      dsimp only
      rw [hvalue]
      exact (bind_eq_ok_iff _ _ _).mpr
        ⟨.ok value', (verdict_eq_ok_iff _ value').mpr hevaluate, rfl⟩
  | added schema value hchild hvalue hdefault =>
      rw [hchild]
      dsimp only
      rw [hvalue]
      exact (bind_eq_ok_iff _ _ _).mpr ⟨some value, hdefault, rfl⟩
  | absent schema hchild hvalue hdefault =>
      rw [hchild]
      dsimp only
      rw [hvalue]
      exact (bind_eq_ok_iff _ _ _).mpr ⟨none, hdefault, rfl⟩

/-- Violations are added behind those there are. -/
theorem exists_causes_of_applyProperty (p p' : Progress) (name : String)
    (h : n.applyProperty r evaluate path p name = .ok p') : ∃ ws, p'.causes = p.causes ++ ws := by
  cases n.visits_of_applyProperty r evaluate path p p' name h with
  | accepted members _ => exact ⟨[], (List.append_nil p.causes).symm⟩
  | rejected _ _ w _ _ _ => exact ⟨[w], rfl⟩

/-- A step without a violation is one that accepts. -/
theorem applyProperty_eq_ok_iff (members members' : Ordered Json) (name : String) :
    n.applyProperty r evaluate path ⟨members, []⟩ name = .ok ⟨members', []⟩
      ↔ n.Places r evaluate path name members members' := by
  refine ⟨fun h => ?_, n.applyProperty_of_places r evaluate path members members' [] name⟩
  -- A step that rejects would have left its violation.
  cases n.visits_of_applyProperty r evaluate path _ _ name h with
  | accepted _ hplaces => exact hplaces

/-- Violations are never taken back, so a loop without any at its end had none
    on its way. -/
theorem causes_eq_nil_of_foldlM (names : List String) :
    ∀ p p' : Progress, names.foldlM (n.applyProperty r evaluate path) p = .ok p' →
      p'.causes = [] → p.causes = [] := by
  induction names with
  | nil =>
      intro p p' h hnone
      rw [Except.ok.inj h]
      exact hnone
  | cons name rest ih =>
      intro p p' h hnone
      rw [List.foldlM_cons] at h
      obtain ⟨next, hnext, hrest⟩ := (bind_eq_ok_iff _ _ p').mp h
      obtain ⟨ws, hws⟩ := n.exists_causes_of_applyProperty r evaluate path p next name hnext
      rw [ih next p' hrest hnone] at hws
      exact (List.append_eq_nil_iff.mp hws.symm).1

theorem foldlM_eq_ok_iff_placesAll (names : List String) :
    ∀ members members' : Ordered Json,
      names.foldlM (n.applyProperty r evaluate path) ⟨members, []⟩ = .ok ⟨members', []⟩
        ↔ n.PlacesAll r evaluate path names members members' := by
  induction names with
  | nil =>
      intro members members'
      constructor
      · intro h
        rw [← (Progress.mk.inj (Except.ok.inj h)).1]
        exact .nil members
      · intro h
        cases h with
        | nil => rfl
  | cons name rest ih =>
      intro members members'
      rw [List.foldlM_cons, bind_eq_ok_iff]
      constructor
      · rintro ⟨⟨next, causes⟩, hnext, hrest⟩
        -- Violations are never dropped, so there was none after the first step.
        have hnone : causes = [] :=
          n.causes_eq_nil_of_foldlM r evaluate path rest _ _ hrest rfl
        rw [hnone] at hnext hrest
        exact .cons name rest members next members'
          ((n.applyProperty_eq_ok_iff r evaluate path members next name).mp hnext)
          ((ih next members').mp hrest)
      · intro h
        cases h with
        | cons _ _ _ next _ hnext hrest =>
            exact ⟨⟨next, []⟩,
              (n.applyProperty_eq_ok_iff r evaluate path members next name).mpr hnext,
              (ih next members').mpr hrest⟩

/-- Without declarations, or without an object, `properties` says nothing. -/
theorem applyProperties_of_not_object (x : Json)
    (h : ¬ ((∃ members, x = .object members)
      ∧ ∃ declared, n.get? "properties" = some (.object declared))) :
    n.applyProperties r evaluate path x = .ok x := by
  unfold applyProperties
  split
  · rename_i members declared hdeclared
    exact absurd ⟨⟨members, rfl⟩, declared, hdeclared⟩ h
  · rfl

/-- What `properties` ends with once it has gone through its declarations: the members
    in their old order, or the violations it came to. -/
def conclude (members : Ordered Json) (p : Progress) : Except Failure Json :=
  match p.causes with
  | [] => .ok (.object (Ordered.restore p.members (Ordered.keys members)))
  | causes => .error (.ofCauses path n.scope .properties causes)

/-- The keyword goes through the declared names and then draws its conclusion. -/
theorem applyProperties_eq (declared : Ordered Json)
    (hdeclared : n.get? "properties" = some (.object declared)) (members : Ordered Json) :
    n.applyProperties r evaluate path (.object members)
      = (Ordered.keys declared).foldlM (n.applyProperty r evaluate path) ⟨members, []⟩
          >>= n.conclude path members := by
  unfold applyProperties
  rw [hdeclared]
  rfl

/-- `properties` accepts exactly if the schema of every declared name does. -/
theorem applyProperties_eq_ok_iff (declared : Ordered Json)
    (hdeclared : n.get? "properties" = some (.object declared)) (members : Ordered Json)
    (y : Json) :
    n.applyProperties r evaluate path (.object members) = .ok y
      ↔ ∃ members', n.PlacesAll r evaluate path (Ordered.keys declared) members members'
        ∧ y = .object (Ordered.restore members' (Ordered.keys members)) := by
  rw [n.applyProperties_eq r evaluate path declared hdeclared, bind_eq_ok_iff]
  constructor
  · rintro ⟨⟨members', causes⟩, hloop, hy⟩
    cases causes with
    | nil =>
        exact ⟨members', (n.foldlM_eq_ok_iff_placesAll r evaluate path _ members members').mp hloop,
          (Except.ok.inj hy).symm⟩
    | cons w ws => exact nomatch hy
  · rintro ⟨members', hplaces, hy⟩
    refine ⟨⟨members', []⟩, ?_, congrArg Except.ok hy.symm⟩
    exact (n.foldlM_eq_ok_iff_placesAll r evaluate path _ members members').mpr hplaces

end Properties

end Node

end OpenApi
