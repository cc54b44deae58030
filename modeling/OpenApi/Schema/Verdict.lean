import OpenApi.Error
import OpenApi.Registry.Basic

/-!
# Verdicts

How the keywords that apply subschemas take the outcomes of those. A subschema
that rejects its instance is a cause to be collected, and the others are still
evaluated; a subschema that is unusable ends the evaluation at once, whatever
was collected before.

## Main definitions

* `Evaluation`: How subschemas are evaluated.
* `Verdict`: A value or a violation.
* `verdict`: Tells violations apart from other failures.
* `Node.gather`: The values of some verdicts, or the violation they cause.
-/

namespace OpenApi

/-- How the schema at a node is evaluated on an instance at a path: the
    instance is returned, perhaps with conversions and defaults, or it fails. -/
abbrev Evaluation := Node → String → Json → Except Failure Json

/-- An accepted instance, or why it was rejected. -/
abbrev Verdict (α : Type) := Except Violation α

/-- The verdict of an outcome. Failures that are no violations are passed on. -/
def verdict {α : Type} : Except Failure α → Except Failure (Verdict α)
  | .ok value => .ok (.ok value)
  | .error (.violation v) => .ok (.error v)
  | .error failure => .error failure

/-- The violation of a verdict. -/
def Verdict.violation? {α : Type} : Verdict α → Option Violation
  | .ok _ => none
  | .error v => some v

/-- The value of a verdict. -/
def Verdict.value? {α : Type} : Verdict α → Option α
  | .ok value => some value
  | .error _ => none

/-- The values of verdicts that all accept. Otherwise the violations are the
    causes of one of the given kind. -/
def Node.gather {α : Type} (n : Node) (path : String) (kind : ViolationKind)
    (verdicts : List (Verdict α)) : Except Failure (List α) :=
  match verdicts.filterMap Verdict.violation? with
  | [] => .ok (verdicts.filterMap Verdict.value?)
  | causes => .error (.ofCauses path n.scope kind causes)

/-- The node that references lead to; failing to follow them is a failure of
    the evaluation. -/
def Registry.follow (r : Registry) (n : Node) : Except Failure Node :=
  (r.deref n).mapError .schema

end OpenApi
