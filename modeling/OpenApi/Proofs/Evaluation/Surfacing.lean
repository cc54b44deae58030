import OpenApi.Proofs.Evaluation.Performed
import OpenApi.Schema.Basic

/-!
# Defective Schemas Below

A violation of a subschema is something a keyword may collect, wrap or turn around.
A defect of a subschema is not: as soon as one is met, it is the outcome of the
keyword, of the schema around the keyword, and so on up to the schema that was to be
evaluated. Neither `not` takes it for a rejection, nor does a combinator go on to its
next branch, and what was collected before is dropped.

A defect is met where references cannot be followed, in a keyword that is defective
itself, and in a schema that a keyword comes to. `Raises` says this of a whole evaluation,
and it is all there is: an evaluation ends with a defect exactly if it meets that one.

## Main definitions

* `Validator.ComesTo`: The evaluation of a schema comes to a keyword.
* `Validator.Raises`: Somewhere on its way an evaluation meets a defect.

## Theorems

* `evaluateWith_eq_error_iff`: When a schema ends with a defect.
* `evaluateIn_of_raises`, `raises_of_evaluateIn`: What is met is the outcome, and the other
  way round.
* `schemaErrors_surface`: Nothing else happens to a defect on the way to the top.
-/

namespace OpenApi

namespace Validator

section Depths

variable (v : Validator)

/-- The evaluation of a schema comes to a keyword of the schema that references lead to,
    with what the keywords in front of it have made of the instance. -/
structure ComesTo (evaluate : Evaluation) (n : Node) (path : String) (x : Json) (t : Node)
    (k : Keyword) (y : Json) : Prop where
  /-- References lead to a schema. -/
  target : v.registry.follow n = .ok t
  /-- It has keywords. -/
  object : ∃ members, t.value = .object members
  /-- Those in front of the keyword accept. -/
  turn : ∃ before after, (v.dialect.keywords.filter fun k => t.has k.name) = before ++ k :: after
    ∧ before.foldlM (fun x k => v.evaluateKeyword evaluate k t path x) x = .ok y

/-- A defect is met where references are followed, or it is the outcome of a keyword
    that the evaluation comes to. -/
theorem evaluateWith_eq_error_iff (evaluate : Evaluation) (n : Node) (path : String) (x : Json)
    (e : SchemaError) :
    v.evaluateWith evaluate n path x = .error (.schema e)
      ↔ v.registry.deref n = .error e
        ∨ ∃ t k y, v.ComesTo evaluate n path x t k y
          ∧ v.evaluateKeyword evaluate k t path y = .error (.schema e) := by
  have hfollow : v.registry.follow n = .error (.schema e) ↔ v.registry.deref n = .error e := by
    unfold Registry.follow
    rcases v.registry.deref n with e' | t
    · exact ⟨fun h => congrArg Except.error (Failure.schema.inj (Except.error.inj h)),
        fun h => congrArg (Except.error ∘ Failure.schema) (Except.error.inj h)⟩
    · exact iff_of_false (fun h => nomatch h) (fun h => nomatch h)
  unfold evaluateWith
  rw [bind_eq_error_iff, hfollow]
  refine or_congr_right ⟨?_, ?_⟩
  · -- Of the three kinds of schemas only an object has keywords, and the first that fails ends
    -- the row.
    rintro ⟨t, ht, h⟩
    split at h
    · rename_i members hmembers
      obtain ⟨before, k, after, y, hturn, hbefore, hk⟩ := (foldlM_eq_error_iff _ _ _ x).mp h
      exact ⟨t, k, y, ⟨ht, ⟨members, hmembers⟩, before, after, hturn, hbefore⟩, hk⟩
    · exact nomatch Except.error.inj h
    · exact nomatch h
  · rintro ⟨t, k, y, ⟨ht, ⟨members, hmembers⟩, before, after, hturn, hbefore⟩, hk⟩
    refine ⟨t, ht, ?_⟩
    rw [hmembers]
    exact (foldlM_eq_error_iff _ _ _ x).mpr ⟨before, k, after, y, hturn, hbefore, hk⟩

/-- An evaluation meets a defect, in its own schema or in one below. -/
inductive Raises : Nat → Node → String → Json → SchemaError → Prop where
  /-- References cannot be followed. -/
  | reference (depth : Nat) (n : Node) (path : String) (x : Json) (e : SchemaError) :
      v.registry.deref n = .error e → Raises (depth + 1) n path x e
  /-- A keyword is defective itself. All evaluations it comes to are decided. -/
  | keyword (depth : Nat) (n t : Node) (path : String) (k : Keyword) (x y : Json)
      (e : SchemaError) :
      v.ComesTo (v.evaluateIn depth) n path x t k y →
      (∀ m q z, v.Performs (v.evaluateIn depth) t path k y m q z →
        Decided (v.evaluateIn depth m q z)) →
      v.evaluateKeyword (v.evaluateIn depth) k t path y = .error (.schema e) →
      Raises (depth + 1) n path x e
  /-- A keyword comes to an evaluation that meets a defect. -/
  | nested (depth : Nat) (n t m : Node) (path q : String) (k : Keyword) (x y z : Json)
      (e : SchemaError) :
      v.ComesTo (v.evaluateIn depth) n path x t k y →
      v.Performs (v.evaluateIn depth) t path k y m q z → Raises depth m q z e →
      Raises (depth + 1) n path x e

/-- A defect that is met on the way is the outcome. -/
theorem evaluateIn_of_raises (depth : Nat) (n : Node) (path : String) (x : Json)
    (e : SchemaError) (h : v.Raises depth n path x e) :
    v.evaluateIn depth n path x = .error (.schema e) := by
  induction h with
  | reference depth n path x e hderef =>
      exact (v.evaluateWith_eq_error_iff _ n path x e).mpr (Or.inl hderef)
  | keyword depth n t path k x y e hcomes hown hk =>
      exact (v.evaluateWith_eq_error_iff _ n path x e).mpr (Or.inr ⟨t, k, y, hcomes, hk⟩)
  | nested depth n t m path q k x y z e hcomes hperforms _ ih =>
      -- By induction the evaluation below ends with the defect, and so the keyword does.
      have hverdict : verdict (v.evaluateIn depth m q z) = .error (.schema e) := by
        rw [ih]
        rfl
      have hk := v.evaluateKeyword_of_performs _ t m path q y z (.schema e) hverdict k hperforms
      exact (v.evaluateWith_eq_error_iff _ n path x e).mpr (Or.inr ⟨t, k, y, hcomes, hk⟩)

/-- An outcome that is a defect has been met. -/
theorem raises_of_evaluateIn (depth : Nat) : ∀ (n : Node) (path : String) (x : Json)
    (e : SchemaError), v.evaluateIn depth n path x = .error (.schema e) →
      v.Raises depth n path x e := by
  induction depth with
  | zero => exact fun n path x e h => nomatch Except.error.inj h
  | succ depth ih =>
      intro n path x e h
      rcases (v.evaluateWith_eq_error_iff _ n path x e).mp h with hderef | ⟨t, k, y, hcomes, hk⟩
      · exact .reference depth n path x e hderef
      · by_cases hown : ∀ m q z, v.Performs (v.evaluateIn depth) t path k y m q z →
            Decided (v.evaluateIn depth m q z)
        · exact .keyword depth n t path k x y e hcomes hown hk
        · simp only [not_forall] at hown
          obtain ⟨m, q, z, hperforms, hopen⟩ := hown
          -- The keyword ends as the evaluation without a verdict does, so that meets the defect.
          rcases hverdict : verdict (v.evaluateIn depth m q z) with failure | outcome
          · have hfailure := v.evaluateKeyword_of_performs _ t m path q y z failure hverdict k
              hperforms
            have hsame : failure = .schema e := Except.error.inj (hfailure.symm.trans hk)
            have hm := eq_of_verdict_eq_error _ failure hverdict
            rw [hsame] at hm
            exact .nested depth n t m path q k x y z e hcomes hperforms (ih m q z e hm)
          · exact absurd ((exists_verdict_iff _).mp ⟨outcome, hverdict⟩) hopen

/-- A keyword that comes to a defective schema ends with its defect, and what it does not
    come to has no influence. So a schema ends with a defect, at whatever depth, exactly
    if it meets that on its way, and this is what the one who validates gets to see. -/
theorem schemaErrors_surface :
    (∀ evaluate n path k x,
      (∀ m q y e, v.Performs evaluate n path k x m q y → evaluate m q y = .error (.schema e) →
        v.evaluateKeyword evaluate k n path x = .error (.schema e))
      ∧ ∀ evaluate', (∀ m q y, v.Performs evaluate n path k x m q y →
          evaluate m q y = evaluate' m q y) →
        v.evaluateKeyword evaluate k n path x = v.evaluateKeyword evaluate' k n path x)
    ∧ (∀ depth n path x e,
        v.evaluateIn depth n path x = .error (.schema e) ↔ v.Raises depth n path x e)
    ∧ (∀ n path x e, v.evaluate n path x = .error (.schema e) ↔ v.Raises maxDepth n path x e)
    ∧ ∀ (s : Schema) o path x e, s.validateAt path x o = .error (.schema e)
        ↔ s.node = .error e ∨ ∃ n, s.node = .ok n
          ∧ (s.validator o).Raises maxDepth n path x e := by
  have hiff : ∀ (v : Validator) depth n path x e,
      v.evaluateIn depth n path x = .error (.schema e) ↔ v.Raises depth n path x e :=
    fun v depth n path x e =>
      ⟨v.raises_of_evaluateIn depth n path x e, v.evaluateIn_of_raises depth n path x e⟩
  refine ⟨fun evaluate n path k x => ⟨fun m q y e hperforms he => ?_, fun evaluate' hsame => ?_⟩,
    hiff v, hiff v maxDepth, fun s o path x e => ?_⟩
  · have hverdict : verdict (evaluate m q y) = .error (.schema e) := by
      rw [he]
      rfl
    exact v.evaluateKeyword_of_performs evaluate n m path q x y (.schema e) hverdict k hperforms
  · exact v.evaluateKeyword_congr evaluate evaluate' n path x k hsame
  · -- A schema that is not found any more has a defect of its own.
    unfold Schema.validateAt
    rcases s.node with e' | n
    · change Except.error (Failure.schema e') = Except.error (.schema e) ↔ _
      simp only [Except.error.injEq, Failure.schema.injEq, reduceCtorEq, false_and, exists_false,
        or_false]
    · change (s.validator o).evaluateIn maxDepth n path x = .error (.schema e) ↔ _
      simp only [hiff, reduceCtorEq, false_or, Except.ok.injEq, exists_eq_left']

end Depths

/-- The address of the schema of invoices. -/
def invoiceAddress : Uri := ⟨"http", some (.ofHost "invoices"), .segments [""], none, none⟩

/-- Sums, or texts that do not match a pattern. The pattern is not well-formed. -/
def entrySchema : Json :=
  .object [("anyOf", .array [.object [("type", .string "integer")],
    .object [("not", .object [("pattern", .string "(")])]])]

/-- A schema of invoices. -/
def invoiceSchema : Json := .object [("items", entrySchema)]

/-- The schema of invoices, alone in its registry. -/
def invoices : Schema := ⟨⟨[(invoiceAddress, invoiceSchema)], [], []⟩, invoiceAddress⟩

/-- The evaluation of invoices, as nothing else is said. -/
def invoiceValidator : Validator := invoices.validator ⟨none, false, none⟩

/-- A part of the schema of invoices. -/
def invoiceNode (value : Json) (pointer : String) : Node :=
  ⟨value, invoiceAddress, pointer, invoiceAddress, none⟩

/-- An invoice with two entries. The first one is rejected, and the second one is a text, so
    that the pattern is needed. -/
def invoice : Json := .array [.bool true, .string "rent"]

/-- What is wrong with the schema of invoices. -/
def invoiceError : SchemaError := ⟨"http://invoices/\x23/items/anyOf/1/not", .pattern, none⟩

/-- The pattern is met behind an entry and a branch that reject, and below `not`. None of
    the keywords around it makes anything else of that. -/
theorem schemaErrors_surface_invoice :
    invoiceValidator.evaluateKeyword (invoiceValidator.evaluateIn 3) .items
        (invoiceNode invoiceSchema "") "" invoice = .error (.schema invoiceError)
      ∧ invoiceValidator.evaluateIn 4 (invoiceNode invoiceSchema "") "" invoice
        = .error (.schema invoiceError)
      ∧ invoices.validate invoice ⟨none, false, none⟩ = .error (.schema invoiceError) := by
  have hpattern : invoiceValidator.Raises 1
      (invoiceNode (.object [("pattern", .string "(")]) "/items/anyOf/1/not") "/1" (.string "rent")
      invoiceError :=
    .keyword 0 _ _ _ .pattern _ _ _ ⟨rfl, ⟨_, rfl⟩, [], [], by decide +kernel, rfl⟩
      (fun _ _ _ h => nomatch h) rfl
  have hnot : invoiceValidator.Raises 2
      (invoiceNode (.object [("not", .object [("pattern", .string "(")])]) "/items/anyOf/1") "/1"
      (.string "rent") invoiceError :=
    .nested 1 _ _ _ _ _ .not _ _ _ _ ⟨rfl, ⟨_, rfl⟩, [], [], by decide +kernel, rfl⟩
      (.negation _ _ rfl) hpattern
  have hanyOf : invoiceValidator.Raises 3 (invoiceNode entrySchema "/items") "/1" (.string "rent")
      invoiceError := by
    refine .nested 2 _ _ _ _ _ .anyOf _ _ _ _ ⟨rfl, ⟨_, rfl⟩, [], [], by decide +kernel, rfl⟩
      (.choice [invoiceNode (.object [("type", .string "integer")]) "/items/anyOf/0"] _ [] _ rfl
        fun b hb => ?_) hnot
    rw [List.mem_singleton.mp hb]
    decide +kernel
  have hperforms : invoiceValidator.Performs (invoiceValidator.evaluateIn 3)
      (invoiceNode invoiceSchema "") "" .items invoice (invoiceNode entrySchema "/items") "/1"
      (.string "rent") := by
    refine .item [.bool true] (.string "rent") [] _ rfl fun i x' m' hx' hm' => ?_
    obtain ⟨rfl, rfl⟩ : i = 0 ∧ x' = .bool true := by
      cases i with
      | zero => exact ⟨rfl, (Option.some.inj hx').symm⟩
      | succ i => exact nomatch hx'
    rw [← Option.some.inj hm']
    decide +kernel
  have hitems : invoiceValidator.Raises 4 (invoiceNode invoiceSchema "") "" invoice
      invoiceError :=
    .nested 3 _ _ _ _ _ .items _ _ _ _ ⟨rfl, ⟨_, rfl⟩, [], [], by decide +kernel, rfl⟩ hperforms
      hanyOf
  obtain ⟨hkeyword, hdepth, _, hvalidate⟩ := invoiceValidator.schemaErrors_surface
  have hfour := (hdepth 4 _ "" invoice invoiceError).mpr hitems
  have hnode : invoices.node = .ok (invoiceNode invoiceSchema "") := rfl
  refine ⟨?_, hfour, (hvalidate invoices _ "" invoice invoiceError).mpr
    (Or.inr ⟨_, hnode, (hdepth maxDepth _ "" invoice invoiceError).mp ?_⟩)⟩
  · exact (hkeyword _ _ "" .items invoice).1 _ "/1" _ invoiceError hperforms
      ((hdepth 3 _ "/1" _ invoiceError).mpr hanyOf)
  · -- What four depths answer is the answer of all that are deeper.
    have hmore := invoiceValidator.evaluateIn_below 4 maxDepth (by decide)
      (invoiceNode invoiceSchema "") "" invoice
    rw [← eq_of_below _ _ hmore (hfour ▸ nofun)]
    exact hfour

end Validator

end OpenApi
