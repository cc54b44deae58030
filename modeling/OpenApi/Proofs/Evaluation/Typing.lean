import OpenApi.Proofs.Evaluation.Keyword
import OpenApi.Proofs.Json.Identical
import OpenApi.Proofs.Registry.Node

/-!
# Types of Results

Which type an evaluation returns under a schema that demands one. The check of
the type comes first, and converts the instance where that is asked for, but the
keywords after it may return another instance than they were given.

No keyword makes anything else than an array of an array, or than an object of
an object, whatever it does inside. Truth values, numbers and null come back as
they are. Texts come back as they are from all keywords that do not evaluate
other schemas on the instance itself; the combinators do, and a conversion to
the type that such a schema demands comes out of them (`Json.Stems`). So the
type of the schema is kept unless it is the type of texts, and that is lost only
to a combinator that converts (`evaluateIn_hasType`). The discriminator evaluates
another schema too, but never on a text.

## Main definitions

* `Json.Stems`: An instance comes from another one, perhaps by a conversion.
* `Json.Spells`: A text spells a truth value or a number.
* `Keyword.mayConvert`: The keywords that conversions come out of.

## Theorems

* `stems_evaluateIn`: Every result stems from the instance.
* `evaluateKeywords_text`: Without combinators a text comes back as it is.
* `evaluateIn_hasType`: The type of the result.
-/

namespace OpenApi

/-- The instance is a text that spells a truth value or a number. -/
inductive Json.Spells : Json → Json → Prop where
  /-- The text spells a truth value. -/
  | bool (text : String) (value : Bool) :
      boolOfText? text = some value → Spells (.string text) (.bool value)
  /-- The text spells a number. -/
  | number (text : String) (value : Number) :
      Number.ofText? text = some value → Spells (.string text) (.number value)

/-- What keywords may make of an instance, as far as it can be seen from outside
    of arrays and objects. Texts are converted only where that is asked for. -/
inductive Json.Stems (converts : Bool) : Json → Json → Prop where
  /-- The instance comes back as it is. -/
  | same (x : Json) : Stems converts x x
  /-- An array comes back. -/
  | array (items items' : List Json) : Stems converts (.array items) (.array items')
  /-- An object comes back. -/
  | object (members members' : Ordered Json) : Stems converts (.object members) (.object members')
  /-- What a text spells comes back. -/
  | spelled (x y : Json) : converts = true → Spells x y → Stems converts x y

namespace Json

/-- Only texts spell something. -/
theorem exists_text_of_spells (x y : Json) (h : Spells x y) : ∃ text, x = .string text := by
  cases h with
  | bool text _ _ => exact ⟨text, rfl⟩
  | number text _ _ => exact ⟨text, rfl⟩

variable (converts : Bool)

theorem stems_trans (x y z : Json) (hxy : Stems converts x y) (hyz : Stems converts y z) :
    Stems converts x z := by
  cases hxy with
  | same => exact hyz
  | array items items' =>
      cases hyz with
      | same => exact .array items items'
      | array _ items'' => exact .array items items''
      | spelled _ _ _ hspells => exact nomatch hspells
  | object members members' =>
      cases hyz with
      | same => exact .object members members'
      | object _ members'' => exact .object members members''
      | spelled _ _ _ hspells => exact nomatch hspells
  | spelled _ _ hconverts hspells =>
      -- What a text spells is no text, so nothing more becomes of it.
      cases hspells with
      | bool text value hvalue =>
          cases hyz with
          | same => exact .spelled _ _ hconverts (.bool text value hvalue)
          | spelled _ _ _ hspells => exact nomatch hspells
      | number text value hvalue =>
          cases hyz with
          | same => exact .spelled _ _ hconverts (.number text value hvalue)
          | spelled _ _ _ hspells => exact nomatch hspells

/-- The conversion to a type makes of a text what it spells, or nothing. -/
theorem stems_convert (t : SchemaType) (x : Json) : Stems true x (t.convert x) := by
  have hnumber : ∀ text, Stems true (.string text)
      (((Number.ofText? text).map Json.number).getD (.string text)) := by
    intro text
    rcases hvalue : Number.ofText? text with _ | value
    · exact .same _
    · exact .spelled _ _ rfl (.number text value hvalue)
  have hbool : ∀ text, Stems true (.string text)
      (((boolOfText? text).map Json.bool).getD (.string text)) := by
    intro text
    rcases hvalue : boolOfText? text with _ | value
    · exact .same _
    · exact .spelled _ _ rfl (.bool text value hvalue)
  cases x with
  | string text =>
      cases t with
      | boolean => exact hbool text
      | number => exact hnumber text
      | integer => exact hnumber text
      | _ => exact .same _
  | _ => exact .same _

/-- A type is kept, unless it is the one of texts and something was spelled. -/
theorem admits_of_stems (t : SchemaType) (x y : Json) (hx : t.admits x = true)
    (h : Stems converts x y) :
    t.admits y = true ∨ (t = .string ∧ converts = true ∧ Spells x y) := by
  cases h with
  | same => exact Or.inl hx
  | array items items' =>
      left
      cases t with
      | array => rfl
      | _ => exact absurd hx Bool.false_ne_true
  | object members members' =>
      left
      cases t with
      | object => rfl
      | _ => exact absurd hx Bool.false_ne_true
  | spelled _ _ hconverts hspells =>
      right
      have htext : t = .string := by
        cases hspells <;> cases t with
        | string => rfl
        | _ => exact absurd hx Bool.false_ne_true
      exact ⟨htext, hconverts, hspells⟩

end Json

/-- The keywords that can make something else of a text: the type converts it,
    and the others evaluate other schemas on it and return their results. -/
def Keyword.mayConvert : Keyword → Bool
  | .type | .discriminator | .allOf | .anyOf | .oneOf => true
  | _ => false

/-- Nothing is promised of a value. -/
theorem promises_any {α : Type} (r : Except Failure α) : Promises True (fun _ => True) r := by
  rcases r with e | value
  · cases e with
    | schema e => exact trivial
    | violation v => exact trivial
    | depth => exact trivial
  · exact trivial

namespace Node

variable (converts : Bool) (n : Node) (evaluate : Evaluation) (path : String) (x : Json)

theorem stems_applyItems :
    Promises True (Json.Stems converts x) (n.applyItems evaluate path x) := by
  unfold applyItems
  split
  · rename_i items
    refine promises_bind True _ _ _ _ (promises_any _) (fun verdicts _ => ?_)
    refine promises_bind True _ _ _ _ (promises_any _) (fun items' _ => ?_)
    exact Json.Stems.array items items'
  · exact Json.Stems.same x

theorem stems_applyAdditionalItems :
    Promises True (Json.Stems converts x) (n.applyAdditionalItems evaluate path x) := by
  unfold applyAdditionalItems
  split
  · rename_i tuple items _
    refine promises_bind True _ _ _ _ (promises_any _) (fun verdicts _ => ?_)
    refine promises_bind True _ _ _ _ (promises_any _) (fun items' _ => ?_)
    exact Json.Stems.array items items'
  · exact Json.Stems.same _

theorem stems_applyProperties (r : Registry) :
    Promises True (Json.Stems converts x) (n.applyProperties r evaluate path x) := by
  unfold applyProperties
  split
  · rename_i members declared _
    refine promises_bind True _ _ _ _ (promises_any _) (fun p _ => ?_)
    split
    · exact Json.Stems.object members _
    · exact trivial
  · exact Json.Stems.same _

theorem stems_applyAdditionalProperties :
    Promises True (Json.Stems converts x) (n.applyAdditionalProperties evaluate path x) := by
  unfold applyAdditionalProperties
  split
  · rename_i members
    refine promises_bind True _ _ _ _ (promises_any _) (fun verdicts _ => ?_)
    refine promises_bind True _ _ _ _ (promises_any _) (fun members' _ => ?_)
    exact Json.Stems.object members members'
  · exact Json.Stems.same _

theorem stems_applyNot : Promises True (Json.Stems converts x) (n.applyNot evaluate path x) := by
  unfold applyNot
  split
  · exact Json.Stems.same x
  · refine promises_bind True _ _ _ _ (promises_any _) (fun outcome _ => ?_)
    cases outcome with
    | ok value => exact trivial
    | error v => exact Json.Stems.same x

/-- A discriminator selects nothing for a text, which has no properties. -/
theorem applyDiscriminator_text (r : Registry) (text : String) (good : Json → Prop) :
    Promises True good (n.applyDiscriminator r evaluate path (.string text)) := by
  have hselected : Promises True (fun _ => False) (n.selected path (.string text)) := by
    unfold selected
    split
    · exact trivial
    · exact trivial
  unfold applyDiscriminator
  exact promises_bind True _ _ _ _ hselected (fun _ hfalse => hfalse.elim)

/-- What a check of one type accepts has that type. -/
theorem checkType_eq_ok (t : SchemaType) (htype : n.get? "type" = some (.string t.name))
    (x y : Json) (h : n.checkType path x = .ok y) : y = x ∧ t.admits x = true := by
  have hnames : n.typeNames? = some [t.name] := by
    unfold typeNames?
    rw [htype]
  have hname : SchemaType.ofName? t.name = some t := by
    cases t <;> decide
  unfold checkType at h
  rw [hnames] at h
  simp only [hasTypeAmong, hname] at h
  by_cases hadmits : t.admits x = true
  · rw [if_pos hadmits] at h
    exact ⟨(Except.ok.inj h).symm, hadmits⟩
  · rw [if_neg hadmits] at h
    exact absurd h (by simp only [accept, Bool.false_eq_true, if_false, Failure.ofViolation,
      reduceCtorEq, not_false_eq_true])

/-- What comes out of the type of a schema is null where that is allowed, and
    has the type otherwise. -/
theorem checkSingleType_eq_ok (t : SchemaType) (htype : n.get? "type" = some (.string t.name))
    (x y : Json) (h : n.checkSingleType converts path x = .ok y) :
    (y = .null ∧ n.isTrue "nullable" = true)
      ∨ (t.admits y = true ∧ Json.Stems converts x y) := by
  unfold checkSingleType at h
  rw [htype] at h
  dsimp only at h
  split at h
  · rename_i hnull
    rw [Bool.and_eq_true] at hnull
    left
    cases x with
    | null => exact ⟨(Except.ok.inj h).symm, hnull.2⟩
    | _ => exact absurd hnull.1 Bool.false_ne_true
  · right
    split at h
    · rename_i t' _
      obtain ⟨rfl, hadmits⟩ := n.checkType_eq_ok path t htype _ y h
      exact ⟨hadmits, Json.stems_convert t' x⟩
    · obtain ⟨rfl, hadmits⟩ := n.checkType_eq_ok path t htype x y h
      exact ⟨hadmits, .same y⟩

end Node

namespace Validator

variable (v : Validator) (evaluate : Evaluation)

/-- What most keywords make of an instance, however others are evaluated. -/
theorem stems_of_not_mayConvert (converts : Bool) (k : Keyword) (hk : k.mayConvert = false)
    (n : Node) (path : String) (x : Json) :
    Promises True (Json.Stems converts x) (v.evaluateKeyword evaluate k n path x) := by
  by_cases hassertion : k.isAssertion = true
  · exact promises_mono True _ _ (fun y hy => hy ▸ .same x) _
      (promises_of_isAssertion True v evaluate k hassertion n path x)
  · cases k with
    | items => exact Node.stems_applyItems converts n evaluate path x
    | additionalItems => exact Node.stems_applyAdditionalItems converts n evaluate path x
    | properties => exact Node.stems_applyProperties converts n evaluate path x v.registry
    | additionalProperties => exact Node.stems_applyAdditionalProperties converts n evaluate path x
    | not => exact Node.stems_applyNot converts n evaluate path x
    | type => exact absurd hk.symm Bool.false_ne_true
    | discriminator => exact absurd hk.symm Bool.false_ne_true
    | allOf => exact absurd hk.symm Bool.false_ne_true
    | anyOf => exact absurd hk.symm Bool.false_ne_true
    | oneOf => exact absurd hk.symm Bool.false_ne_true
    | _ => exact absurd rfl hassertion

/-- Whatever a keyword returns stems from its instance, if that is so for the
    schemas it evaluates. -/
theorem stems_evaluateKeyword
    (h : ∀ m path x, Promises True (Json.Stems v.converts x) (evaluate m path x))
    (k : Keyword) (n : Node) (path : String) (x : Json) :
    Promises True (Json.Stems v.converts x) (v.evaluateKeyword evaluate k n path x) := by
  have hrefl : ∀ x, Json.Stems v.converts x x := .same
  have htrans := Json.stems_trans v.converts
  have hkeeps : ∀ m y₀ y, n.Applies v.registry x m y₀ → Json.Stems v.converts y₀ y →
      evaluate.Keeps True (Json.Stems v.converts) m y := fun m _ y _ _ path => h m path y
  -- What is left are `type` itself and the keywords that pass the instance on to subschemas.
  by_cases hk : k.mayConvert = false
  · exact stems_of_not_mayConvert v evaluate v.converts k hk n path x
  · unfold evaluateKeyword
    cases k with
    | type =>
        cases v.dialect with
        | jsonSchema =>
            exact promises_mono True _ _ (fun y hy => hy ▸ .same x) _
              (n.promises_checkType path x True)
        | openApi =>
            refine n.promises_checkSingleType path x True hrefl v.converts ?_
            intro hconverts t y
            rw [hconverts]
            exact Json.stems_convert t y
    | discriminator =>
        cases v.dialect with
        | jsonSchema => exact hrefl x
        | openApi => exact Node.promises_applyDiscriminator hrefl True n evaluate path _ x hkeeps
    | allOf => exact Node.promises_applyAllOf hrefl True n evaluate path htrans _ x hkeeps
    | anyOf => exact Node.promises_applyAnyOf hrefl True n evaluate path v.registry x hkeeps
    | oneOf =>
        have hone := Node.promises_applyOneOf hrefl True n evaluate path v.registry x hkeeps
        cases v.dialect with
        | jsonSchema => exact hone
        | openApi =>
            dsimp only
            split
            · exact Node.promises_applySelectedOneOf hrefl True n evaluate path _ x hkeeps
            · exact hone
    | _ => exact absurd rfl hk

/-- Keywords in a row hand on what stems from the instance. -/
theorem stems_evaluateKeywords
    (h : ∀ m path x, Promises True (Json.Stems v.converts x) (evaluate m path x))
    (keywords : List Keyword) (n : Node) (path : String) (x : Json) :
    Promises True (Json.Stems v.converts x) (v.evaluateKeywords evaluate keywords n path x) := by
  refine promises_foldlM True (Json.Stems v.converts x) _ _ _ (.same x) (fun y k _ hy => ?_)
  have hstep := stems_evaluateKeyword v evaluate h k n path y
  exact promises_mono True _ _ (fun z hz => Json.stems_trans v.converts x y z hy hz) _ hstep

/-- Whatever an evaluation returns stems from its instance. -/
theorem stems_evaluateIn (depth : Nat) : ∀ n path x,
    Promises True (Json.Stems v.converts x) (v.evaluateIn depth n path x) := by
  induction depth with
  | zero => exact fun n path x => trivial
  | succ depth ih =>
      intro n path x
      unfold evaluateIn evaluateWith
      refine promises_bind True _ _ _ _ (promises_follow True v.registry n) (fun t _ => ?_)
      split
      · exact stems_evaluateKeywords v (v.evaluateIn depth) ih v.dialect.keywords t path x
      · exact trivial
      · exact Json.Stems.same x

/-- Without combinators a text comes back as it is, or not at all. -/
theorem evaluateKeywords_text (hdialect : v.dialect = .openApi) (n : Node)
    (hplain : (n.has "allOf" || n.has "anyOf" || n.has "oneOf") = false)
    (keywords : List Keyword) (htype : Keyword.type ∉ keywords) (path text : String) :
    Promises True (fun y => y = .string text)
      (v.evaluateKeywords evaluate keywords n path (.string text)) := by
  rw [Bool.or_eq_false_iff, Bool.or_eq_false_iff] at hplain
  obtain ⟨⟨hall, hany⟩, hone⟩ := hplain
  refine promises_foldlM True _ _ _ _ rfl (fun y k hk hy => ?_)
  rw [hy]
  obtain ⟨hmem, hhas⟩ := List.mem_filter.mp hk
  by_cases hconvert : k.mayConvert = false
  · -- Nothing but the text itself stems from it without conversions.
    refine promises_mono True (Json.Stems false (.string text)) _ (fun z hz => ?_) _
      (stems_of_not_mayConvert v evaluate false k hconvert n path _)
    cases hz with
    | same => rfl
    | spelled _ _ hfalse _ => exact absurd hfalse Bool.false_ne_true
  · cases k with
    | type => exact absurd hmem htype
    | discriminator =>
        unfold evaluateKeyword
        rw [hdialect]
        exact Node.applyDiscriminator_text n evaluate path v.registry text _
    | allOf => exact absurd (hall.symm.trans hhas) Bool.false_ne_true
    | anyOf => exact absurd (hany.symm.trans hhas) Bool.false_ne_true
    | oneOf => exact absurd (hone.symm.trans hhas) Bool.false_ne_true
    | _ => exact absurd rfl hconvert

/-- The keywords that are evaluated after the type. -/
def keywordsAfterType : List Keyword := Keyword.all.tail

/-- The check of the type comes first, and what it returns goes through all
    other keywords. -/
theorem exists_of_evaluateIn_type (hdialect : v.dialect = .openApi) (depth : Nat) (n schema : Node)
    (path : String) (x y : Json) (hschema : v.registry.follow n = .ok schema)
    (hhas : schema.has "type" = true) (h : v.evaluateIn (depth + 1) n path x = .ok y) :
    ∃ z, schema.checkSingleType v.converts path x = .ok z
      ∧ v.evaluateKeywords (v.evaluateIn depth) keywordsAfterType schema path z = .ok y := by
  obtain ⟨members, hobject⟩ := schema.exists_object_of_has "type" hhas
  have hfirst : v.evaluateKeyword (v.evaluateIn depth) .type schema path x
      = schema.checkSingleType v.converts path x := by
    unfold evaluateKeyword
    rw [hdialect]
  have hkeywords : v.dialect.keywords = .type :: keywordsAfterType := by
    rw [hdialect]
    rfl
  unfold evaluateIn at h
  rw [v.evaluateWith_object _ n schema members path x hschema hobject, hkeywords,
    evaluateKeywords_cons v _ .type _ schema hhas path x, hfirst] at h
  rcases hz : schema.checkSingleType v.converts path x with e | z
  · rw [hz] at h
    exact nomatch h
  · rw [hz] at h
    exact ⟨z, rfl, h⟩

/-- A text that gets spelled out after the type was checked takes a combinator. -/
theorem has_combinator_of_spells (hdialect : v.dialect = .openApi) (schema : Node)
    (path text : String) (y : Json)
    (h : v.evaluateKeywords evaluate keywordsAfterType schema path (.string text) = .ok y)
    (hspells : Json.Spells (.string text) y) :
    (schema.has "allOf" || schema.has "anyOf" || schema.has "oneOf") = true := by
  by_contra hcombinator
  have htype : Keyword.type ∉ keywordsAfterType := by decide
  have hsame := evaluateKeywords_text v evaluate hdialect schema
    (Bool.eq_false_iff.mpr hcombinator) keywordsAfterType htype path text
  rw [h] at hsame
  rw [show y = .string text from hsame] at hspells
  exact nomatch hspells

/-- If a schema demands a type, then what its evaluation returns has the type, or
    is null where the schema allows that. Only the type of texts can be lost, to a
    combinator that converts the text. -/
theorem evaluateIn_hasType (hdialect : v.dialect = .openApi) (depth : Nat) (n schema : Node)
    (t : SchemaType) (path : String) (x y : Json) (hschema : v.registry.follow n = .ok schema)
    (htype : schema.get? "type" = some (.string t.name))
    (h : v.evaluateIn depth n path x = .ok y) :
    t.admits y = true ∨ (y = .null ∧ schema.isTrue "nullable" = true)
      ∨ (t = .string ∧ (schema.has "allOf" || schema.has "anyOf" || schema.has "oneOf") = true
        ∧ v.converts = true ∧ Json.Spells x y) := by
  rcases depth with _ | depth
  · exact nomatch h
  have hhas : schema.has "type" = true := Option.isSome_iff_exists.mpr ⟨_, htype⟩
  obtain ⟨z, hz, hrest⟩ :=
    v.exists_of_evaluateIn_type hdialect depth n schema path x y hschema hhas h
  -- What the type let through has the type. All that follows can only spell it out.
  have hstems : Json.Stems v.converts z y := by
    have hpromise := stems_evaluateKeywords v (v.evaluateIn depth) (stems_evaluateIn v depth)
      keywordsAfterType schema path z
    rwa [hrest] at hpromise
  rcases schema.checkSingleType_eq_ok v.converts path t htype x z hz with
    ⟨rfl, hnull⟩ | ⟨hadmits, hxz⟩
  · cases hstems with
    | same => exact Or.inr (Or.inl ⟨rfl, hnull⟩)
    | spelled _ _ _ hspells => exact nomatch hspells
  · rcases Json.admits_of_stems v.converts t z y hadmits hstems with
      hy | ⟨htext, hconverts, hspells⟩
    · exact Or.inl hy
    · obtain ⟨text, rfl⟩ := Json.exists_text_of_spells z y hspells
      -- Conversions make no texts, so this one is the instance.
      have hx : x = .string text := by
        cases hxz with
        | same => rfl
        | spelled _ _ _ hwrong => exact nomatch hwrong
      have hcombinator := v.has_combinator_of_spells (v.evaluateIn depth) hdialect schema path text y
        hrest hspells
      exact Or.inr (Or.inr ⟨htext, hcombinator, hconverts, hx ▸ hspells⟩)

/-- The address of a document that is a schema of amounts. -/
def amountAddress : Uri := ⟨"http", some (.ofHost "shop"), .segments ["amount"], none, none⟩

/-- A text that is an integer by one of its other keywords. -/
def amountSchema : Json :=
  .object [("type", .string "string"), ("allOf", .array [.object [("type", .string "integer")]])]

/-- The schema as a node. -/
def amountNode : Node := ⟨amountSchema, amountAddress, "", amountAddress, none⟩

/-- The schema of the integer alone. -/
def integerNode : Node :=
  ⟨.object [("type", .string "integer")], amountAddress, "/allOf/0", amountAddress, none⟩

/-- Evaluations of the schemas, with conversions. -/
def amounts : Validator := ⟨⟨[(amountAddress, amountSchema)], [], []⟩, .openApi, true⟩

/-- A text that spells an integer becomes one. -/
theorem evaluateIn_hasType_integer :
    amounts.evaluateIn 1 integerNode "" (.string "5") = .ok (.number (.int 5))
      ∧ (SchemaType.integer.admits (.number (.int 5)) = true
        ∨ ((Json.number (.int 5)) = .null ∧ integerNode.isTrue "nullable" = true)
        ∨ (SchemaType.integer = .string
          ∧ (integerNode.has "allOf" || integerNode.has "anyOf" || integerNode.has "oneOf") = true
          ∧ amounts.converts = true ∧ Json.Spells (.string "5") (.number (.int 5)))) := by
  have hvalue : amounts.evaluateIn 1 integerNode "" (.string "5") = .ok (.number (.int 5)) :=
    eq_ok_of_toOption _ _ (by decide +kernel)
  exact ⟨hvalue, evaluateIn_hasType amounts rfl 1 integerNode integerNode .integer "" _ _ rfl rfl
    hvalue⟩

/-- The type of texts is lost where a branch of `allOf` demands another one. -/
theorem evaluateIn_amount :
    amounts.registry.follow amountNode = .ok amountNode
      ∧ amountNode.get? "type" = some (.string SchemaType.string.name)
      ∧ ∃ y, amounts.evaluateIn 2 amountNode "" (.string "5") = .ok y
        ∧ ¬ (SchemaType.string.admits y = true
          ∨ (y = .null ∧ amountNode.isTrue "nullable" = true)) := by
  have hvalue : amounts.evaluateIn 2 amountNode "" (.string "5") = .ok (.number (.int 5)) :=
    eq_ok_of_toOption _ _ (by decide +kernel)
  refine ⟨rfl, rfl, _, hvalue, ?_⟩
  rintro (hadmits | ⟨hnull, _⟩)
  · exact Bool.false_ne_true hadmits
  · exact nomatch hnull

end Validator

end OpenApi
