import Mathlib.Logic.Relation
import OpenApi.Proofs.Evaluation.Keyword

/-!
# Evaluations That Do Not End

To show that no depth is enough, it takes a cycle of schemas for one instance,
each of which cannot have an outcome before the next one has. `Demands` is that
relation. It is stronger than leading to a schema: a violation before the step
ends an evaluation, however the step would go on. So it has to be shown that the
step is the first one taken, and the lemmas here do that for a keyword that comes
before all others of its schema.

## Main definitions

* `Node.Demands`: Without an outcome of one schema there is none of another.

## Theorems

* `demands_member`: The first branch of `allOf` is demanded.
* `demands_selection`: A selected schema is demanded.
* `evaluateIn_of_cycle`: A cycle of demands does not end at any depth.
-/

namespace OpenApi

variable (v : Validator) (path : String) (x : Json)

/-- Where the depth is too small for one schema, it is too small for another. -/
def Node.Demands (n m : Node) : Prop :=
  ∀ evaluate : Evaluation, evaluate m path x = .error .depth →
    v.evaluateWith evaluate n path x = .error .depth

namespace Node

/-- What the first keyword lacks, the schema lacks. -/
theorem demands_of_keyword (n t m : Node) (members : Ordered Json) (k : Keyword)
    (rest : List Keyword) (ht : v.registry.follow n = .ok t) (hobject : t.value = .object members)
    (hfirst : v.dialect.keywords.filter (fun k => t.has k.name) = k :: rest)
    (hk : ∀ evaluate : Evaluation, evaluate m path x = .error .depth →
      v.evaluateKeyword evaluate k t path x = .error .depth) :
    n.Demands v path x m := by
  intro evaluate hm
  have hstep := hk evaluate hm
  rw [v.evaluateWith_object evaluate n t members path x ht hobject]
  unfold Validator.evaluateKeywords
  rw [hfirst, List.foldlM_cons, hstep]
  rfl

/-- The first branch of `allOf` is demanded, unless it is excluded. -/
theorem demands_member (n t m : Node) (members : Ordered Json) (rest : List Keyword)
    (branches : List Node) (ht : v.registry.follow n = .ok t) (hobject : t.value = .object members)
    (hfirst : v.dialect.keywords.filter (fun k => t.has k.name) = .allOf :: rest)
    (hbranches : t.branches "allOf" = m :: branches)
    (hexcluded : t.isExcluded v.registry m = .ok false) :
    n.Demands v path x m := by
  refine demands_of_keyword v path x n t m members .allOf rest ht hobject hfirst
    (fun evaluate hm => ?_)
  change t.applyAllOf v.registry evaluate path x = .error .depth
  unfold applyAllOf
  rw [hbranches, List.foldlM_cons]
  unfold applyMember
  rw [hexcluded, hm]
  rfl

/-- A selected schema is demanded, with the way back taken out. -/
theorem demands_selection (n t m target : Node) (members : Ordered Json) (rest : List Keyword)
    (uri : Uri) (hdialect : v.dialect = .openApi) (ht : v.registry.follow n = .ok t)
    (hobject : t.value = .object members)
    (hfirst : v.dialect.keywords.filter (fun k => t.has k.name) = .discriminator :: rest)
    (hchoice : (t.has "anyOf" || t.has "oneOf") = false)
    (hselected : t.selected path x = .ok uri) (hm : v.registry.node? uri = some m)
    (htarget : v.registry.follow m = .ok target) (hother : target.scope ≠ t.scope) :
    n.Demands v path x (m.excluding t.scope) := by
  refine demands_of_keyword v path x n t _ members .discriminator rest ht hobject hfirst
    (fun evaluate hdepth => ?_)
  rw [v.evaluateKeyword_discriminator evaluate hdialect t m target path x uri hchoice hselected hm
    htarget hother, hdepth]
  rfl

end Node

namespace Validator

/-- A schema that demands one on a cycle of demands waits forever. -/
theorem evaluateIn_of_cycle (n : Node) (hcycle : Relation.TransGen (Node.Demands v path x) n n)
    (depth : Nat) :
    ∀ k, Relation.TransGen (Node.Demands v path x) k n →
      v.evaluateIn depth k path x = .error .depth := by
  induction depth with
  | zero => exact fun k _ => rfl
  | succ depth ih =>
      intro k hk
      rcases Relation.TransGen.head'_iff.mp hk with ⟨next, hdemands, hrest⟩
      refine hdemands (v.evaluateIn depth) (ih next ?_)
      -- At the end of the way the cycle begins once more.
      rcases Relation.reflTransGen_iff_eq_or_transGen.mp hrest with rfl | hrest
      · exact hcycle
      · exact hrest

end Validator

end OpenApi
