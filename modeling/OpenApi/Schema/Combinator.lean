import OpenApi.Schema.Verdict

/-!
# Combinators

The keywords that apply subschemas to the same instance, at the same path.

`allOf` hands the instance from one branch to the next. `anyOf` takes the
result of the first branch that accepts, and `oneOf` the result of the only
one. `not` returns the instance as it was.

## Main definitions

* `Node.applyAllOf`, `Node.applyAnyOf`, `Node.applyOneOf`, `Node.applyNot`: The
  combinators.
* `Node.isExcluded`: Whether a branch of `allOf` is skipped.
-/

namespace OpenApi

namespace Node

/-- Whether a branch leads to the schema that the node excludes. Branches are
    only followed where there is an exclusion. -/
def isExcluded (n : Node) (r : Registry) (branch : Node) : Except Failure Bool :=
  match n.exclusion with
  | none => .ok false
  | some scope => do
    let target ← r.follow branch
    .ok (target.scope == scope)

/-- Applies one branch of `allOf`. -/
def applyMember (n : Node) (r : Registry) (evaluate : Evaluation) (path : String) (x : Json)
    (branch : Node) : Except Failure Json := do
  if ← n.isExcluded r branch then .ok x
  else
    match ← verdict (evaluate branch path x) with
    | .ok value => .ok value
    | .error v => .error (.ofCauses path n.scope .allOf [v])

/-- Applies `allOf`. -/
def applyAllOf (n : Node) (r : Registry) (evaluate : Evaluation) (path : String) (x : Json) :
    Except Failure Json :=
  (n.branches "allOf").foldlM (n.applyMember r evaluate path) x

/-- The result of the first schema that accepts, or the violations of all. -/
def firstAccepted (evaluate : Evaluation) (path : String) (x : Json) :
    List Node → Except Failure (Except (List Violation) Json)
  | [] => .ok (.error [])
  | branch :: rest => do
    match ← verdict (evaluate branch path x) with
    | .ok value => .ok (.ok value)
    | .error v =>
      let others ← firstAccepted evaluate path x rest
      .ok (others.mapError fun vs => v :: vs)

/-- Applies `anyOf`. -/
def applyAnyOf (n : Node) (evaluate : Evaluation) (path : String) (x : Json) :
    Except Failure Json := do
  match ← firstAccepted evaluate path x (n.branches "anyOf") with
  | .ok value => .ok value
  | .error causes => .error (.ofCauses path n.scope .anyOf causes)

/-- Applies `oneOf`. Several branches that accept are a violation without
    causes. -/
def applyOneOf (n : Node) (evaluate : Evaluation) (path : String) (x : Json) :
    Except Failure Json := do
  let verdicts ← (n.branches "oneOf").mapM fun branch => verdict (evaluate branch path x)
  match verdicts.filterMap Verdict.value? with
  | [value] => .ok value
  | [] => .error (.ofCauses path n.scope .oneOf (verdicts.filterMap Verdict.violation?))
  | _ => .error (.ofViolation path n.scope .oneOf)

/-- Applies `not`. -/
def applyNot (n : Node) (evaluate : Evaluation) (path : String) (x : Json) :
    Except Failure Json :=
  match n.child? ["not"] with
  | none => .ok x
  | some schema => do
    match ← verdict (evaluate schema path x) with
    | .ok _ => .error (.ofViolation path n.scope .not)
    | .error _ => .ok x

end Node

end OpenApi
