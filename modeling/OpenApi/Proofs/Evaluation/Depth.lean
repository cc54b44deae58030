import OpenApi.Proofs.Evaluation.Plan

/-!
# The Depth of Evaluations

An evaluation to some depth has an outcome of its own for a depth that did not
suffice. Any other outcome is final: evaluating deeper gives the same one. So a
schema has at most one outcome on an instance at a path, whatever the depth.

No keyword looks at a lack of depth in a subschema, it passes it on. That makes
every keyword monotone in the evaluation of its subschemas, where one evaluation
is below another if it only lacks outcomes that the other one has. A plan that is
carried out gets the same answers then, as far as there are any.

The same argument covers an evaluation that gives up early for another reason.
`evaluateAmong` does so at the first schema that is not admitted, and is below
the evaluation that admits all of them; so an evaluation with an outcome among
the admitted schemas has met no others.

## Main definitions

* `Evaluation.Under`: One evaluation only lacks outcomes of another.
* `Validator.evaluateAmong`: Evaluates a schema by way of admitted schemas.

## Theorems

* `below_of_planned`: What carries out a plan is monotone.
* `evaluateKeyword_below`, `evaluateWith_below`: So are keywords and schemas.
* `evaluateIn_below`: Evaluating deeper.
* `evaluateIn_eq_of_le`: An outcome is final.
* `evaluateAmong_below`: Evaluating among fewer schemas.
-/

namespace OpenApi

/-- The second evaluation has all outcomes of the first. -/
def Evaluation.Under (evaluate evaluate' : Evaluation) : Prop :=
  ∀ n path x, Below (evaluate n path x) (evaluate' n path x)

section Plans

variable {α : Type} (evaluate evaluate' : Evaluation) (h : evaluate.Under evaluate')

include h

theorem Plan.below_run (plan : Plan α) : Below (plan.run evaluate) (plan.run evaluate') := by
  induction plan with
  | done outcome => exact below_refl _
  | ask m path x rest ih => exact below_bind _ _ _ _ (below_verdict _ _ (h m path x)) ih

theorem below_of_planned (allows : Node → Prop) (good : Violation → Prop)
    (compute : Evaluation → Except Failure α) (hplanned : Planned allows good compute) : Below (compute evaluate) (compute evaluate') := by
  obtain ⟨plan, _, hcompute⟩ := hplanned
  rw [hcompute evaluate, hcompute evaluate']
  exact plan.below_run evaluate evaluate' h

end Plans

namespace Node

variable (n : Node) (evaluate evaluate' : Evaluation) (h : evaluate.Under evaluate')
  (path : String)

include h

theorem below_judge (schema? : Option Node) (segment : String) (x : Json) :
    Below (judge evaluate schema? path segment x) (judge evaluate' schema? path segment x) :=
  below_of_planned evaluate evaluate' h (fun _ => True) (fun _ => True) _
    (planned_judge _ _ path schema? (fun _ _ => trivial) segment x)

theorem below_judgeAdditional (key : String) (kind : ViolationKind) (segment : String) (x : Json) :
    Below (n.judgeAdditional evaluate key kind path segment x)
      (n.judgeAdditional evaluate' key kind path segment x) :=
  below_of_planned evaluate evaluate' h (fun _ => True) (fun _ => True) _
    (n.planned_judgeAdditional _ _ path (fun _ _ _ => trivial) key kind segment x)

end Node

namespace Validator

/-- Evaluates a schema, subschemas at most `depth` deep, and gives up as if the
    depth had run out where references lead to a schema that is not admitted. -/
def evaluateAmong (v : Validator) (admits : Node → Bool) : Nat → Evaluation
  | 0, _, _, _ => .error .depth
  | depth + 1, n, path, x => do
    let target ← v.registry.follow n
    if admits target then v.evaluateWith (v.evaluateAmong admits depth) n path x
    else .error .depth

variable (v : Validator)

theorem evaluateKeyword_below (evaluate evaluate' : Evaluation) (h : evaluate.Under evaluate')
    (k : Keyword) :
    Evaluation.Under (v.evaluateKeyword evaluate k) (v.evaluateKeyword evaluate' k) := by
  intro n path x
  -- It matters neither which schemas are asked nor what is reported.
  have hplanned := v.planned_evaluateKeyword (fun _ => True) (fun _ => True) n path k
    (fun _ _ _ _ => trivial) (fun _ _ => trivial) (fun _ _ => trivial) x
  exact below_of_planned evaluate evaluate' h _ _ _ hplanned

theorem evaluateKeywords_below (evaluate evaluate' : Evaluation) (h : evaluate.Under evaluate')
    (keywords : List Keyword) :
    Evaluation.Under (v.evaluateKeywords evaluate keywords)
      (v.evaluateKeywords evaluate' keywords) := by
  intro n path x
  unfold evaluateKeywords
  refine below_foldlM _ _ (fun y k => ?_) _ _
  exact v.evaluateKeyword_below evaluate evaluate' h k n path y

theorem evaluateWith_below (evaluate evaluate' : Evaluation) (h : evaluate.Under evaluate') :
    Evaluation.Under (v.evaluateWith evaluate) (v.evaluateWith evaluate') := by
  intro n path x
  unfold evaluateWith
  refine below_bind _ _ _ _ (below_refl _) (fun target => ?_)
  split
  · exact v.evaluateKeywords_below evaluate evaluate' h v.dialect.keywords target path x
  · exact below_refl _
  · exact below_refl _

theorem evaluateIn_below_succ (depth : Nat) :
    Evaluation.Under (v.evaluateIn depth) (v.evaluateIn (depth + 1)) := by
  induction depth with
  | zero => exact fun n path x => Or.inl rfl
  | succ depth ih => exact v.evaluateWith_below _ _ ih

theorem evaluateIn_below (depth depth' : Nat) (hle : depth ≤ depth') :
    Evaluation.Under (v.evaluateIn depth) (v.evaluateIn depth') := by
  intro n path x
  induction hle with
  | refl => exact below_refl _
  | step _ ih => exact below_trans _ _ _ ih (v.evaluateIn_below_succ _ n path x)

/-- The outcome of an evaluation does not depend on how deep it may go, once
    that is deep enough. -/
theorem evaluateIn_eq_of_le (depth depth' : Nat) (hle : depth ≤ depth') (n : Node) (path : String)
    (x : Json) (h : v.evaluateIn depth n path x ≠ .error .depth) :
    v.evaluateIn depth' n path x = v.evaluateIn depth n path x :=
  (eq_of_below _ _ (v.evaluateIn_below depth depth' hle n path x) h).symm

theorem evaluateAmong_below (admits : Node → Bool) (depth : Nat) :
    Evaluation.Under (v.evaluateAmong admits depth) (v.evaluateIn depth) := by
  induction depth with
  | zero => exact fun n path x => Or.inl rfl
  | succ depth ih =>
      intro n path x
      rw [evaluateIn, evaluateAmong]
      rcases hfollow : v.registry.follow n with e | target
      · -- The evaluation fails in the same way, right at the start.
        unfold evaluateWith
        rw [hfollow]
        exact below_refl _
      · rw [ok_bind]
        split
        · exact v.evaluateWith_below _ _ ih n path x
        · exact Or.inl rfl

end Validator

end OpenApi
