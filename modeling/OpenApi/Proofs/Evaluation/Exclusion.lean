import OpenApi.Proofs.Evaluation.Graph
import OpenApi.Proofs.Evaluation.Selection

/-!
# Exclusions

A schema that is evaluated with an exclusion is evaluated as it would be without
one, only that some members are missing from its `allOf`. The exclusion stays with
the schema while references are followed, `allOf` is the one keyword that reads
it, and no schema below gets to see it.

Which members are missing depends on where they lead. One whose references cannot
be followed leads nowhere, so it is not missing, and its evaluation fails for the
same reason as the search for its target does.

A schema that a keyword evaluates excludes nothing. The schema that a discriminator
selects is the exception: it excludes the schema with the discriminator, whatever
that one excludes itself.

## Main definitions

* `Node.thread`: Hands an instance from one schema to the next.
* `Validator.evaluateKeeping`: Evaluates a schema with some members of its `allOf`.
* `Keyword.exclusionBelow`: What the schemas exclude that a keyword evaluates.

## Theorems

* `evaluateKeyword_exclusion`: Other keywords do not read the exclusion.
* `foldlM_applyMember_eq`: Members that are skipped may as well be missing.
* `evaluateWith_eq_evaluateKeeping`: What a schema with an exclusion does.
* `planned_exclusionBelow`: What the schemas exclude that a keyword evaluates.
* `evaluateIn_excluding`: An exclusion is exact and stays where it is.
-/

namespace OpenApi

/-- What the schemas exclude that a keyword of a schema evaluates: only a
    discriminator excludes something, the schema it belongs to. -/
def Keyword.exclusionBelow (k : Keyword) (n : Node) : Option String :=
  if k = .discriminator then some n.scope else none

namespace Node

/-- Hands an instance from one schema to the next. The first one that rejects it
    makes the node reject it by `allOf`. -/
def thread (n : Node) (evaluate : Evaluation) (path : String) (x : Json) (members : List Node) :
    Except Failure Json :=
  members.foldlM (fun y m => do
    match ← verdict (evaluate m path y) with
    | .ok value => .ok value
    | .error w => .error (.ofCauses path n.scope .allOf [w])) x

/-- The exclusion of a node concerns a member of its `allOf`. -/
def Skips (n : Node) (r : Registry) (m : Node) : Prop :=
  ∃ scope, n.exclusion = some scope ∧ LeadsTo r scope m

variable (n : Node) (r : Registry) (evaluate : Evaluation) (path : String)

/-- What a discriminator selects does not depend on what its schema excludes. -/
theorem selected_exclusion (e : Option String) (x : Json) :
    ({ n with exclusion := e } : Node).selected path x = n.selected path x := by
  have hscope : ({ n with exclusion := e } : Node).discriminatorScope = n.discriminatorScope := rfl
  have hmapped : ∀ text, ({ n with exclusion := e } : Node).mapped text = n.mapped text :=
    fun _ => rfl
  unfold selected
  simp only [hscope, hmapped]
  rfl

theorem isExcluded_of_skips (m : Node) (h : n.Skips r m) : n.isExcluded r m = .ok true := by
  obtain ⟨scope, hscope, target, htarget, rfl⟩ := h
  unfold isExcluded
  rw [hscope]
  simp only [htarget, bind, Except.bind, beq_self_eq_true]

/-- A member that is not skipped is known not to be, unless its references cannot be
    followed. -/
theorem isExcluded_of_not_skips (m : Node) (h : ¬ n.Skips r m) :
    n.isExcluded r m = .ok false
      ∨ ∃ e, r.follow m = .error e ∧ n.isExcluded r m = .error e := by
  unfold isExcluded
  cases hscope : n.exclusion with
  | none => exact Or.inl rfl
  | some scope =>
      rcases htarget : r.follow m with e | target
      · exact Or.inr ⟨e, rfl, rfl⟩
      · left
        have hother : target.scope ≠ scope := fun heq =>
          h ⟨scope, hscope, (leadsTo_iff r scope m target htarget).mpr heq⟩
        simp only [bind, Except.bind, beq_eq_false_iff_ne.mpr hother]

/-- Following references fails for a reason that no keyword keeps to itself. -/
theorem verdict_of_follow (m : Node) (e : Failure) (h : r.follow m = .error e) :
    verdict (.error e : Except Failure Json) = .error e := by
  unfold Registry.follow at h
  cases hderef : r.deref m with
  | ok target =>
      rw [hderef] at h
      exact nomatch h
  | error reason =>
      rw [hderef] at h
      rw [← Except.error.inj h]
      rfl

/-- Members that are skipped may as well be missing. -/
theorem foldlM_applyMember_eq
    (hfails : ∀ m y e, r.follow m = .error e → evaluate m path y = .error e)
    (keeps : Node → Bool) (hkeeps : ∀ m, keeps m = true ↔ ¬ n.Skips r m) (members : List Node) :
    ∀ x, members.foldlM (n.applyMember r evaluate path) x
      = n.thread evaluate path x (members.filter keeps) := by
  induction members with
  | nil => exact fun x => rfl
  | cons m rest ih =>
      intro x
      rw [List.foldlM_cons, List.filter_cons]
      unfold applyMember
      by_cases hskips : n.Skips r m
      · rw [n.isExcluded_of_skips r m hskips, if_neg fun h => (hkeeps m).mp h hskips]
        exact ih x
      · rw [if_pos ((hkeeps m).mpr hskips)]
        unfold thread
        rw [List.foldlM_cons]
        rcases n.isExcluded_of_not_skips r m hskips with hfalse | ⟨e, hfollow, herror⟩
        · rw [hfalse]
          exact bind_congr ih
        · -- Both sides end here, one in the search and one in the evaluation.
          rw [herror, hfails m x e hfollow, verdict_of_follow r m e hfollow]
          rfl

end Node

/-- The exclusion of a node stays with it on the way, and changes nothing else. -/
theorem Registry.follow_exclusion (r : Registry) (n : Node) (e : Option String) :
    r.follow { n with exclusion := e } = (r.follow n).map fun t => { t with exclusion := e } := by
  unfold follow deref
  rw [r.derefWithin_exclusion e]
  cases r.derefWithin maxHops n with
  | ok t => rfl
  | error reason => rfl

namespace Validator

variable (v : Validator) (evaluate : Evaluation)

/-- Evaluates a schema without an exclusion, and its `allOf` with the members alone
    that are to be kept. -/
def evaluateKeeping (keeps : Node → Bool) : Evaluation :=
  fun n path x => do
    let t ← v.registry.follow n.bare
    match t.value with
    | .object _ =>
      (v.dialect.keywords.filter fun k => t.has k.name).foldlM (fun y k =>
        if k = .allOf then t.thread evaluate path y ((t.branches "allOf").filter keeps)
        else v.evaluateKeyword evaluate k t path y) x
    | .bool false => .error (.ofViolation path t.scope .not)
    | _ => .ok x

/-- `allOf` is the one keyword that reads the exclusion. -/
theorem evaluateKeyword_exclusion (k : Keyword) (hk : k ≠ .allOf) (n : Node) (e : Option String)
    (path : String) (x : Json) :
    v.evaluateKeyword evaluate k { n with exclusion := e } path x
      = v.evaluateKeyword evaluate k n path x := by
  unfold evaluateKeyword
  cases k with
  | allOf => exact absurd rfl hk
  | discriminator =>
      cases v.dialect with
      | jsonSchema => rfl
      | openApi =>
          dsimp only
          unfold Node.applyDiscriminator
          rw [n.selected_exclusion path e]
          rfl
  | oneOf =>
      cases v.dialect with
      | jsonSchema => rfl
      | openApi =>
          dsimp only
          unfold Node.applySelectedOneOf
          rw [n.selected_exclusion path e]
          rfl
  | type | format =>
      cases v.dialect with
      | jsonSchema => rfl
      | openApi => rfl
  | _ => rfl

/-- What a schema with an exclusion does, if evaluating others fails at least where
    their references cannot be followed. -/
theorem evaluateWith_eq_evaluateKeeping
    (hfails : ∀ m path y e, v.registry.follow m = .error e → evaluate m path y = .error e)
    (n : Node) (keeps : Node → Bool) (hkeeps : ∀ m, keeps m = true ↔ ¬ n.Skips v.registry m)
    (path : String) (x : Json) :
    v.evaluateWith evaluate n path x = v.evaluateKeeping evaluate keeps n path x := by
  unfold evaluateWith evaluateKeeping
  rw [show v.registry.follow n = _ from v.registry.follow_exclusion n.bare n.exclusion]
  rcases v.registry.follow n.bare with e | t
  · rfl
  · -- The target with the exclusion is the target without it for all but `allOf`.
    have hkeyword : ∀ k y, v.evaluateKeyword evaluate k { t with exclusion := n.exclusion } path y
        = if k = .allOf then t.thread evaluate path y ((t.branches "allOf").filter keeps)
          else v.evaluateKeyword evaluate k t path y := by
      intro k y
      by_cases hk : k = .allOf
      · rw [if_pos hk, hk]
        exact Node.foldlM_applyMember_eq { t with exclusion := n.exclusion } v.registry evaluate path
          (fun m => hfails m path) keeps hkeeps (t.branches "allOf") y
      · rw [if_neg hk]
        exact v.evaluateKeyword_exclusion evaluate k hk t n.exclusion path y
    have hkeywords : v.evaluateKeywords evaluate v.dialect.keywords
        { t with exclusion := n.exclusion } path x
        = (v.dialect.keywords.filter fun k => t.has k.name).foldlM (fun y k =>
            if k = .allOf then t.thread evaluate path y ((t.branches "allOf").filter keeps)
            else v.evaluateKeyword evaluate k t path y) x := by
      unfold evaluateKeywords
      simp only [hkeyword]
      rfl
    simp only [Except.map, bind, Except.bind, hkeywords]
    rfl

/-- A schema whose references cannot be followed fails for that reason. -/
theorem evaluateWith_of_follow (m : Node) (path : String) (x : Json) (e : Failure)
    (h : v.registry.follow m = .error e) : v.evaluateWith evaluate m path x = .error e := by
  unfold evaluateWith
  rw [h]
  rfl

/-- The schemas that a keyword evaluates exclude what the keyword says, whatever its
    own schema excludes. -/
theorem planned_exclusionBelow (k : Keyword) (n : Node) (path : String) (x : Json) :
    Planned (fun m => m.exclusion = k.exclusionBelow n) (fun _ => True) fun evaluate =>
      v.evaluateKeyword evaluate k n path x := by
  refine v.planned_evaluateKeyword _ _ n path k (fun hk segments m hm => ?_) (fun hk m => ?_)
    (fun _ _ => trivial) x
  · rw [Keyword.exclusionBelow, if_neg hk]
    exact n.exclusion_of_child? segments m hm
  · rw [Keyword.exclusionBelow, if_pos hk]
    rfl

/-- An exclusion is exact and stays where it is. It comes along where references
    lead. The schema is evaluated as without it, with the members alone in its `allOf`
    that do not lead to the excluded schema; without an exclusion these are all members,
    which are the items of the list in their order. What a keyword evaluates excludes
    nothing, or what its own discriminator says. -/
theorem evaluateIn_excluding (scope : String) (n : Node) :
    (∀ e, v.registry.deref { n with exclusion := e }
      = (v.registry.deref n).map fun t => { t with exclusion := e })
    ∧ (∀ depth path x, v.evaluateIn (depth + 2) (n.excluding scope) path x
      = v.evaluateKeeping (v.evaluateIn (depth + 1))
          (fun m => ¬ Node.LeadsTo v.registry scope m) n path x)
    ∧ (∀ depth path x, v.evaluateIn (depth + 2) n.bare path x
      = v.evaluateKeeping (v.evaluateIn (depth + 1)) (fun _ => true) n path x)
    ∧ (∀ t : Node,
      (t.branches "allOf").map Node.value = ((t.get? "allOf").bind Json.array?).getD [])
    ∧ (∀ k t path x, Planned (fun m => m.exclusion = k.exclusionBelow t) (fun _ => True)
      fun evaluate => v.evaluateKeyword evaluate k t path x) := by
  -- With some depth left an evaluation gets as far as following references.
  have hfails : ∀ depth m path y e, v.registry.follow m = .error e →
      v.evaluateIn (depth + 1) m path y = .error e := fun depth m path y e =>
    v.evaluateWith_of_follow (v.evaluateIn depth) m path y e
  refine ⟨fun e => v.registry.derefWithin_exclusion e _ n, fun depth path x => ?_,
    fun depth path x => ?_, fun t => t.map_value_branches "allOf", v.planned_exclusionBelow⟩
  · refine v.evaluateWith_eq_evaluateKeeping _ (hfails depth) (n.excluding scope) _ (fun m => ?_)
      path x
    rw [decide_eq_true_iff]
    refine not_congr ⟨fun h => ⟨scope, rfl, h⟩, ?_⟩
    rintro ⟨scope', hscope, hleads⟩
    rw [Option.some.inj hscope]
    exact hleads
  · refine v.evaluateWith_eq_evaluateKeeping _ (hfails depth) n.bare _ (fun m => ?_) path x
    exact iff_of_true rfl fun ⟨scope', hscope, _⟩ => nomatch hscope

end Validator

end OpenApi
