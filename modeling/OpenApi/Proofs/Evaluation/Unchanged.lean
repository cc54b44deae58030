import OpenApi.Proofs.Evaluation.Reach

/-!
# Instances That Come Back Unchanged

An evaluation returns its instance, and there are just two things it may change
about it: texts may be converted, and members with defaults may be added. With
conversions off, and no `default` in any registered document, what comes back is
the instance as it was, down to the order of the members of every object in it.

Equality is a rewriting of instances, so each keyword returns the instance it is
given if the evaluations of subschemas do; the induction is on the depth. The
bound on the depth plays no part, since a lack of depth returns no value.

## Theorems

* `keeps_evaluateIn`: An evaluation to any depth rewrites nothing.
* `evaluateIn_unchanged`: The instance that is accepted is returned.
-/

namespace OpenApi

namespace Validator

variable (v : Validator) (hconvert : v.converts = false)
  (hlacks : ∀ entry ∈ v.registry.documents, entry.2.Lacks "default")

include hconvert hlacks

theorem keeps_evaluateIn (depth : Nat) :
    ∀ (n : Node) (x : Json), v.registry.Holds n → x.WellFormed →
      Evaluation.Keeps (v.evaluateIn depth) True (fun x y => x = y) n x := by
  induction depth with
  | zero => exact fun n x _ _ path => trivial
  | succ depth ih =>
      intro n x hn hx path
      refine evaluateWith_promises Json.rewriting_eq True v (v.evaluateIn depth)
        (fun h => absurd h (by rw [hconvert]; decide)) n (fun t ht => ?_) path x hx
        (fun t x' m y₀ y ht hx' hm hy => ?_)
      · exact v.registry.addsNothing_of_lacks hlacks t (v.registry.closed_holds.follow _ n t hn ht)
      · -- The instance on the way through the keywords is the original one.
        have ht' : v.registry.Holds t := v.registry.closed_holds.follow _ n t hn ht
        have hy₀ : y₀.WellFormed := Json.wellFormed_of_mem_parts x' y₀ (hx' ▸ hx)
          (Node.mem_parts_of_applies v.registry t m x' y₀ hm)
        exact ih m y (v.registry.closed_holds.applies _ t m x' y₀ ht' hm) (hy ▸ hy₀)

/-- Whatever accepts an instance returns that instance. -/
theorem evaluateIn_unchanged (depth : Nat) (n : Node) (hn : v.registry.Holds n) (path : String)
    (x y : Json) (hx : x.WellFormed) (h : v.evaluateIn depth n path x = .ok y) : y = x := by
  have hkeeps := keeps_evaluateIn v hconvert hlacks depth n x hn hx path
  rw [h] at hkeeps
  exact hkeeps.symm

omit hconvert hlacks

/-- The address of the document with the schema of a pet. -/
def petAddress : Uri := ⟨"http", some (.ofHost "shop"), .segments ["pet"], none, none⟩

/-- The schema of a pet: an object with declared members, under a choice. -/
def petSchema : Json :=
  .object [("properties", .object [("name", .object [("type", .string "string")]),
      ("tags", .object [("items", .object [("$ref", .string "\x23/properties/name")])])]),
    ("anyOf", .array [.object [("required", .array [.string "owner"])],
      .object [("required", .array [.string "tags"])]])]

/-- The node of the schema of a pet. -/
def petNode : Node := ⟨petSchema, petAddress, "", petAddress, none⟩

/-- A pet, its members in another order than the schema declares them. -/
def rex : Json :=
  .object [("tags", .array [.string "good", .string "dog"]), ("name", .string "Rex")]

/-- A pet is accepted and comes back with its members in their order. -/
theorem evaluateIn_unchanged_rex :
    ∃ y, evaluateIn ⟨⟨[(petAddress, petSchema)], [], []⟩, .openApi, false⟩ 4 petNode "" rex = .ok y
      ∧ y = rex := by
  have hok : (evaluateIn ⟨⟨[(petAddress, petSchema)], [], []⟩, .openApi, false⟩ 4 petNode ""
      rex).isOk = true := by decide +kernel
  have hlacks : ∀ entry ∈ [(petAddress, petSchema)], entry.2.Lacks "default" := by decide +kernel
  have hholds : (Registry.mk [(petAddress, petSchema)] [] []).Holds petNode :=
    ⟨(petAddress, petSchema), List.mem_singleton_self _, Json.mem_parts_self petSchema⟩
  rcases hrun : evaluateIn ⟨⟨[(petAddress, petSchema)], [], []⟩, .openApi, false⟩ 4 petNode ""
      rex with e | y
  · rw [hrun] at hok
    exact absurd hok Bool.false_ne_true
  · exact ⟨y, rfl, evaluateIn_unchanged _ rfl hlacks 4 petNode hholds "" rex y (by decide +kernel)
      hrun⟩

end Validator

end OpenApi
