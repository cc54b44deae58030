import OpenApi.Parameter.Basic
import OpenApi.Proofs.Evaluation.Outcome
import OpenApi.Proofs.Json.Identical

/-!
# Whether Parameters Are Converted

What becomes of a parameter if the options leave open whether texts are converted. A
parameter with a schema takes the answer of its own context, which is to convert,
and hands that on. A parameter with media types hands on the options as they are,
so the question is answered again further down, in the context of a schema that
stands for itself, and there the answer is the other one.

So leaving it open is the same as asking for conversion exactly where it makes no
difference to the media type, or where no media type is asked.

## Theorems

* `validateSchema_unset`: With a schema, unset means on.
* `validateContent_unset`: With media types, unset means off.
* `validate_unset`: What unset means, and when that is on.
-/

namespace OpenApi

/-- A schema that stands for itself converts nothing unless it is told to. -/
theorem Schema.validate_unset_eq (s : Schema) (x : Json) (o : ValidationOptions) :
    s.validate x { o with convert? := none } = s.validate x { o with convert? := some false } :=
  rfl

theorem MediaType.validate_unset_eq (m : MediaType) (x : Json) (o : ValidationOptions) :
    m.validate x { o with convert? := none } = m.validate x { o with convert? := some false } := by
  unfold MediaType.validate
  cases m.schema? with
  | none => rfl
  | some schema => exact schema.validate_unset_eq x { o with contentType? := some m.contentType }

namespace Parameter

/-- What a media type answers for a parameter that is there. -/
def ofMediaType (answer : Except Failure Json) : Except Error (Option Json) := do
  let x ← answer.mapError .failure
  .ok (some x)

theorem ofMediaType_injective : Function.Injective ofMediaType := by
  intro answer answer' h
  cases answer with
  | ok x =>
      cases answer' with
      | ok y => exact congrArg Except.ok (Option.some.inj (Except.ok.inj h))
      | error e => exact nomatch h
  | error e =>
      cases answer' with
      | ok y => exact nomatch h
      | error e' => exact congrArg Except.error (Error.failure.inj (Except.error.inj h))

variable (p : Parameter) (o : ValidationOptions)

/-- A parameter with a schema is converted if nothing else is said. -/
theorem validateSchema_unset (schema : Schema) (x? : Option Json) :
    p.validateSchema schema x? { o with convert? := none }
      = p.validateSchema schema x? { o with convert? := some true } :=
  rfl

theorem validateContent_none : p.validateContent none o = p.checkPresence none := by
  unfold validateContent checkPresence
  cases p.required with
  | true => rfl
  | false => rfl

theorem validateContent_some (x : Json) :
    p.validateContent (some x) o = p.select o >>= fun m => ofMediaType (m.validate x o) :=
  rfl

/-- A parameter with media types is not converted if nothing else is said. -/
theorem validateContent_unset (x? : Option Json) :
    p.validateContent x? { o with convert? := none }
      = p.validateContent x? { o with convert? := some false } := by
  cases x? with
  | none => rw [validateContent_none, validateContent_none]
  | some x =>
      rw [validateContent_some, validateContent_some]
      -- The choice of the media type does not depend on the answer.
      refine congrArg (p.select o >>= ·) (funext fun m => congrArg ofMediaType ?_)
      exact m.validate_unset_eq x o

/-- Two answers to the question give the same result exactly if they do so for
    the media type that is chosen. -/
theorem validateContent_eq_iff (convert? convert?' : Option Bool) (x? : Option Json) :
    p.validateContent x? { o with convert? := convert? }
        = p.validateContent x? { o with convert? := convert?' }
      ↔ ∀ x m, x? = some x → p.select o = .ok m →
          m.validate x { o with convert? := convert? }
            = m.validate x { o with convert? := convert?' } := by
  cases x? with
  | none =>
      rw [validateContent_none, validateContent_none]
      exact iff_of_true rfl fun x m hx => nomatch hx
  | some x =>
      rw [validateContent_some, validateContent_some]
      -- The choice of the media type does not depend on the answer.
      have hselect : ∀ answer, p.select { o with convert? := answer } = p.select o :=
        fun _ => rfl
      rw [hselect convert?, hselect convert?']
      rcases p.select o with e | m
      · have herror : ∀ next : MediaType → Except Error (Option Json),
            (Except.error e >>= next) = .error e := fun _ => rfl
        rw [herror, herror]
        exact iff_of_true rfl fun y m _ hm => nomatch hm
      · have hok : ∀ next : MediaType → Except Error (Option Json),
            (Except.ok m >>= next) = next m := fun _ => rfl
        rw [hok, hok, ofMediaType_injective.eq_iff]
        constructor
        · intro h y m' hy hm
          rw [← Option.some.inj hy, ← Except.ok.inj hm]
          exact h
        · exact fun h => h x m rfl rfl

theorem validate_of_content (hcontent : p.content.isEmpty = false) (x? : Option Json) :
    p.validate x? o = p.validateContent x? o := by
  unfold validate
  rw [hcontent]
  exact if_pos Bool.false_ne_true

theorem validate_of_isEmpty (hcontent : p.content.isEmpty = true) (x? : Option Json) :
    p.validate x? o
      = p.schema?.elim (p.checkPresence x?) fun schema => p.validateSchema schema x? o := by
  unfold validate
  rw [hcontent, if_neg (not_not.mpr rfl)]
  cases p.schema? with
  | none => rfl
  | some schema => rfl

/-- Leaving open whether texts are converted means that they are for a parameter
    without media types, and that they are not for one with media types. So it means
    the former throughout, except for the parameters whose media type tells the
    difference. -/
theorem validate_unset (x? : Option Json) :
    p.validate x? { o with convert? := none }
        = p.validate x? { o with convert? := some p.content.isEmpty }
      ∧ (p.validate x? { o with convert? := none } = p.validate x? { o with convert? := some true }
        ↔ p.content.isEmpty = true ∨ ∀ x m, x? = some x → p.select o = .ok m →
            m.validate x { o with convert? := some false }
              = m.validate x { o with convert? := some true }) := by
  cases hcontent : p.content.isEmpty with
  | true =>
      have hvalidate : p.validate x? { o with convert? := none }
          = p.validate x? { o with convert? := some true } := by
        rw [p.validate_of_isEmpty _ hcontent, p.validate_of_isEmpty _ hcontent]
        cases p.schema? with
        | none => exact Eq.refl (p.checkPresence x?)
        | some schema => exact p.validateSchema_unset o schema x?
      exact ⟨hvalidate, iff_of_true hvalidate (Or.inl rfl)⟩
  | false =>
      rw [p.validate_of_content _ hcontent, p.validate_of_content _ hcontent,
        p.validate_of_content _ hcontent, p.validateContent_unset o x?,
        p.validateContent_eq_iff o (some false) (some true) x?]
      exact ⟨rfl, Or.inr, fun h => h.resolve_left Bool.false_ne_true⟩

/-- The description of a parameter with a number in any media type. -/
def quantityDescription : Json :=
  .object [("name", .string "n"), ("in", .string "query"),
    ("content", .object [("*/*", .object [("schema", .object [("type", .string "integer")])])])]

/-- A text of such a parameter is rejected if nothing is said, and converted if
    that is asked for. -/
theorem validate_unset_quantity :
    ∃ p, Parameter.ofJson quantityDescription = .ok p
      ∧ p.validate (some (.string "5")) { ValidationOptions.default with convert? := some true }
        = .ok (some (Json.ofInt 5))
      ∧ p.validate (some (.string "5")) { ValidationOptions.default with convert? := none }
        ≠ .ok (some (Json.ofInt 5)) := by
  have hboth : ((Parameter.ofJson quantityDescription).toOption.map fun p =>
      ((p.validate (some (.string "5"))
          { ValidationOptions.default with convert? := some true }).toOption,
        (p.validate (some (.string "5"))
          { ValidationOptions.default with convert? := none }).toOption))
        = some (some (some (Json.ofInt 5)), none) := by decide +kernel
  obtain ⟨p, hp, hresults⟩ := Option.map_eq_some_iff.mp hboth
  obtain ⟨hconverted, hrejected⟩ := Prod.mk.inj hresults
  refine ⟨p, eq_ok_of_toOption _ p hp, eq_ok_of_toOption _ _ hconverted, fun h => ?_⟩
  rw [h] at hrejected
  exact nomatch hrejected

end Parameter

end OpenApi
