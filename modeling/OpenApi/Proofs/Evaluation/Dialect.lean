import OpenApi.Proofs.Evaluation.Depth

/-!
# Agreement of Dialects

The dialect of OpenAPI extends JSON Schema, and changes what some keywords mean:
a type is a single text, `nullable` admits `null`, a format must be a text, and
a discriminator selects among schemas. A schema that uses none of this is plain,
and both dialects judge it alike, down to the causes of a violation.

What one schema says depends on the dialect only through itself; its subschemas
are evaluated by the same function in both. So two evaluations that never leave
the plain schemas take the same steps, and whether an evaluation leaves them can
be asked of either dialect.

Conversions are a matter of OpenAPI alone, and are off here.

## Main definitions

* `Node.isPlain`: A schema uses nothing in which the dialects differ.

## Theorems

* `evaluateKeywords_of_isPlain`: A plain schema means the same in both dialects.
* `evaluateAmong_dialect`: Evaluations among plain schemas are the same.
* `evaluateIn_dialect`: An evaluation that meets plain schemas alone.
-/

namespace OpenApi

/-- Whether a schema uses nothing in which the dialects differ. A schema that is
    no object uses nothing at all. -/
def Node.isPlain (n : Node) : Bool :=
  (n.get? "type").all (fun value => value.string?.isSome) && !n.isTrue "nullable"
    && (n.get? "format").all (fun value => value.string?.isSome) && !n.has "discriminator"

namespace Node

variable (n : Node) (hplain : n.isPlain = true)

include hplain

theorem string_of_isPlain (key : String) (hkey : key = "type" ∨ key = "format") (value : Json)
    (h : n.get? key = some value) : ∃ text, value = .string text := by
  simp only [isPlain, Bool.and_eq_true] at hplain
  have hall : (n.get? key).all (fun value => value.string?.isSome) = true := by
    rcases hkey with rfl | rfl
    · exact hplain.1.1.1
    · exact hplain.1.2
  rw [h, Option.all_some] at hall
  cases value with
  | string text => exact ⟨text, rfl⟩
  | _ => exact absurd hall (by simp only [Json.string?, Option.isSome_none, Bool.false_eq_true,
      not_false_eq_true])

theorem not_isTrue_of_isPlain : n.isTrue "nullable" = false := by
  simp only [isPlain, Bool.and_eq_true, Bool.not_eq_true'] at hplain
  exact hplain.1.1.2

theorem not_has_of_isPlain : n.has "discriminator" = false := by
  simp only [isPlain, Bool.and_eq_true, Bool.not_eq_true'] at hplain
  exact hplain.2

theorem checkSingleType_of_isPlain (hhas : n.has "type" = true) (path : String) (x : Json) :
    n.checkSingleType false path x = n.checkType path x := by
  rcases Option.isSome_iff_exists.mp hhas with ⟨value, hvalue⟩
  rcases string_of_isPlain n hplain "type" (Or.inl rfl) value hvalue with ⟨name, rfl⟩
  unfold checkSingleType
  rw [show n.get? "type" = some (.string name) from hvalue]
  simp only [not_isTrue_of_isPlain n hplain, Bool.and_false, Bool.false_eq_true, if_false]

theorem checkFormat_of_isPlain (hhas : n.has "format" = true) (x : Json) :
    n.checkFormat x = .ok x := by
  rcases Option.isSome_iff_exists.mp hhas with ⟨value, hvalue⟩
  rcases string_of_isPlain n hplain "format" (Or.inr rfl) value hvalue with ⟨name, rfl⟩
  unfold checkFormat
  rw [show n.get? "format" = some (.string name) from hvalue]
  cases x with
  | string text => rfl
  | _ => rfl

end Node

/-- Loops whose steps agree on every item agree. -/
theorem foldlM_eq_of_mem {α β : Type} (step step' : β → α → Except Failure β) (items : List α)
    (h : ∀ state, ∀ item ∈ items, step state item = step' state item) :
    ∀ state, items.foldlM step state = items.foldlM step' state := by
  induction items with
  | nil => exact fun state => rfl
  | cons item rest ih =>
      intro state
      rw [List.foldlM_cons, List.foldlM_cons, h state item List.mem_cons_self]
      refine bind_congr (fun state' => ?_)
      exact ih (fun s i hi => h s i (List.mem_cons_of_mem item hi)) state'

namespace Validator

/-- The rules of a dialect over a registry, without conversions. -/
def strict (r : Registry) (d : Dialect) : Validator := ⟨r, d, false⟩

variable (r : Registry) (evaluate : Evaluation) (n : Node) (path : String) (x : Json)

section Plain

variable (hplain : n.isPlain = true)

include hplain

theorem evaluateKeyword_of_isPlain (k : Keyword) (hhas : n.has k.name = true) :
    (strict r .openApi).evaluateKeyword evaluate k n path x
      = (strict r .jsonSchema).evaluateKeyword evaluate k n path x := by
  cases k with
  | type => exact n.checkSingleType_of_isPlain hplain hhas path x
  | format => exact n.checkFormat_of_isPlain hplain hhas x
  | discriminator => exact absurd hhas (by simp only [Keyword.name, n.not_has_of_isPlain hplain,
      Bool.false_eq_true, not_false_eq_true])
  | oneOf =>
      simp only [evaluateKeyword, strict, n.not_has_of_isPlain hplain, Bool.false_eq_true, if_false]
  | _ => rfl

/-- The keyword that only one dialect has is absent from a plain schema. -/
theorem filter_keywords_of_isPlain :
    Dialect.openApi.keywords.filter (fun k => n.has k.name)
      = Dialect.jsonSchema.keywords.filter (fun k => n.has k.name) := by
  rw [Dialect.keywords, Dialect.keywords, List.filter_filter]
  refine List.filter_congr (fun k _ => ?_)
  by_cases hk : k = .discriminator
  · rw [hk, Keyword.name, n.not_has_of_isPlain hplain, Bool.false_and]
  · rw [show (k != Keyword.discriminator) = true from bne_iff_ne.mpr hk, Bool.and_true]

theorem evaluateKeywords_of_isPlain :
    (strict r .openApi).evaluateKeywords evaluate Dialect.openApi.keywords n path x
      = (strict r .jsonSchema).evaluateKeywords evaluate Dialect.jsonSchema.keywords n path x := by
  unfold evaluateKeywords
  rw [filter_keywords_of_isPlain n hplain]
  refine foldlM_eq_of_mem _ _ _ (fun y k hk => ?_) x
  exact evaluateKeyword_of_isPlain r evaluate n path y hplain k (List.mem_filter.mp hk).2

end Plain

theorem evaluateWith_of_isPlain (target : Node) (hfollow : r.follow n = .ok target)
    (htarget : target.isPlain = true) :
    (strict r .openApi).evaluateWith evaluate n path x
      = (strict r .jsonSchema).evaluateWith evaluate n path x := by
  have hkeywords := evaluateKeywords_of_isPlain r evaluate target path x htarget
  simp only [evaluateWith, strict, hfollow, bind, Except.bind] at hkeywords ⊢
  cases target.value with
  | object members => exact hkeywords
  | bool accepts => cases accepts with
      | true => rfl
      | false => rfl
  | _ => rfl

theorem evaluateAmong_openApi (depth : Nat) :
    (strict r .openApi).evaluateAmong Node.isPlain depth
      = (strict r .jsonSchema).evaluateAmong Node.isPlain depth := by
  induction depth with
  | zero => rfl
  | succ depth ih =>
      funext n path x
      rw [evaluateAmong, evaluateAmong, ih]
      change r.follow n >>= _ = r.follow n >>= _
      rcases hfollow : r.follow n with e | target
      · rfl
      · change (if target.isPlain = true then _ else _) = if target.isPlain = true then _ else _
        by_cases htarget : target.isPlain = true
        · rw [if_pos htarget, if_pos htarget]
          exact evaluateWith_of_isPlain r _ n path x target hfollow htarget
        · rw [if_neg htarget, if_neg htarget]

/-- Among plain schemas the dialect makes no difference. -/
theorem evaluateAmong_dialect (d d' : Dialect) (depth : Nat) :
    (strict r d).evaluateAmong Node.isPlain depth
      = (strict r d').evaluateAmong Node.isPlain depth := by
  cases d with
  | jsonSchema => cases d' with
      | jsonSchema => rfl
      | openApi => exact (evaluateAmong_openApi r depth).symm
  | openApi => cases d' with
      | jsonSchema => exact evaluateAmong_openApi r depth
      | openApi => rfl

/-- An evaluation that ends and meets plain schemas alone has the same outcome
    in every dialect: the same value, the same violation with all its causes,
    or the same error in a schema. -/
theorem evaluateIn_dialect (d d' : Dialect) (depth : Nat)
    (h : (strict r d).evaluateAmong Node.isPlain depth n path x ≠ .error .depth) :
    (strict r d').evaluateIn depth n path x = (strict r d).evaluateIn depth n path x := by
  have hd := eq_of_below _ _ ((strict r d).evaluateAmong_below _ depth n path x) h
  rw [evaluateAmong_dialect r d d' depth] at h
  have hd' := eq_of_below _ _ ((strict r d').evaluateAmong_below _ depth n path x) h
  rw [← hd, ← hd', evaluateAmong_dialect r d d' depth]

/-- The address of the document with the schema of a tag. -/
def tagAddress : Uri := ⟨"http", some (.ofHost "shop"), .segments ["tag"], none, none⟩

/-- The schema of a tag: an object with two members, one of which has the schema
    of the other. -/
def tagSchema : Json :=
  .object [("required", .array [.string "name"]),
    ("properties", .object [("name", .object [("type", .string "string")]),
      ("alias", .object [("$ref", .string "\x23/properties/name")])])]

/-- The node of the schema of a tag. -/
def tagNode : Node := ⟨tagSchema, tagAddress, "", tagAddress, none⟩

/-- A tag whose second member is rejected, after a reference. -/
theorem evaluateIn_dialect_tag :
    (strict ⟨[(tagAddress, tagSchema)], [], []⟩ .openApi).evaluateAmong Node.isPlain 3 tagNode ""
        (.object [("name", .string "Rex"), ("alias", .ofInt 1)]) ≠ .error .depth ∧
      (strict ⟨[(tagAddress, tagSchema)], [], []⟩ .jsonSchema).evaluateIn 3 tagNode ""
          (.object [("name", .string "Rex"), ("alias", .ofInt 1)])
        = (strict ⟨[(tagAddress, tagSchema)], [], []⟩ .openApi).evaluateIn 3 tagNode ""
          (.object [("name", .string "Rex"), ("alias", .ofInt 1)]) :=
  ⟨by decide +kernel, evaluateIn_dialect _ tagNode "" _ .openApi .jsonSchema 3 (by decide +kernel)⟩

end Validator

end OpenApi
