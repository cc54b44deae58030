import OpenApi.Proofs.Parameter.Description
import OpenApi.Proofs.Parameter.Single

/-!
# Supplied Parameters

Whether a parameter that was supplied can be taken for one that was not. It is supplied
as a text with its name in front, and the value behind the name is not empty.

Nothing is decoded from a value of more than one line, whatever the type. What becomes
of it then is what becomes of a parameter that is absent: null if null is asked for and
texts are converted, a violation if the parameter is required, and otherwise nothing at
all. A value of one line is never absent.

## Theorems

* `convert?_eq_none_iff`: Only null stands in for what is missing.
* `exists_valueOfText_named`: Whether a supplied text has a value.
* `validate_named_eq_none_iff`: When a supplied parameter counts as absent.
-/

namespace OpenApi

namespace SchemaType

theorem ofName?_name (t : SchemaType) : ofName? t.name = some t := by
  cases t <;> decide

/-- Converting adds a value only where null is asked for, and loses none. -/
theorem convert?_eq_none_iff (t : SchemaType) (x? : Option Json) :
    t.convert? x? = none ↔ x? = none ∧ t ≠ .null := by
  cases x? with
  | some x => exact iff_of_false nofun fun h => Option.some_ne_none x h.1
  | none =>
      unfold convert?
      by_cases hnull : t = .null
      · rw [if_pos hnull]
        exact iff_of_false nofun fun h => h.2 hnull
      · rw [if_neg hnull]
        exact iff_of_true rfl ⟨rfl, hnull⟩

end SchemaType

namespace Parameter

theorem typeOf_of_get? (n : Node) (t : SchemaType) (h : n.get? "type" = some (.string t.name)) :
    typeOf n = .ok (some t) := by
  unfold typeOf
  rw [h]
  dsimp only
  rw [t.ofName?_name]

section Named

variable (p : Parameter)
  (hstyle : p.serialization.style = .matrix ∨ p.serialization.style = .form)
  (hexplode : p.serialization.explode = false) (o : ValidationOptions) (ho : o.decode = true)
  (name value : String) (hname : name ≠ "") (hequals : '=' ∉ name.toList) (hvalue : value ≠ "")

include hstyle hexplode ho hname hequals hvalue

/-- A supplied text always leads on, and to no value exactly if it has a line feed and
    null does not stand in for it. -/
theorem exists_valueOfText_named (t : SchemaType) :
    ∃ x?, p.valueOfText (p.serialization.singleText name value) t o = .ok x?
      ∧ (x? = none ↔ '\n' ∈ value.toList ∧ ¬ (t = .null ∧ o.converts true = true)) := by
  obtain ⟨decoded?, hdecoded, hnone⟩ :=
    Serialization.exists_decode_named hvalue hstyle hexplode hname hequals t
  have hdecode : p.decode (p.serialization.singleText name value) t
      = .ok (decoded?.map Decoded.toJson) := by
    unfold decode
    rw [hdecoded]
  have hread : p.valueOfText (p.serialization.singleText name value) t o
      = .ok (if o.converts true then t.convert? (decoded?.map Decoded.toJson)
        else decoded?.map Decoded.toJson) := by
    unfold valueOfText
    rw [ho, if_pos rfl, hdecode]
    rfl
  refine ⟨_, hread, ?_⟩
  by_cases hconverts : o.converts true = true
  · rw [if_pos hconverts, SchemaType.convert?_eq_none_iff, Option.map_eq_none_iff, hnone]
    simp only [hconverts, and_true, ne_eq]
  · rw [if_neg hconverts, Option.map_eq_none_iff, hnone]
    exact ⟨fun hline => ⟨hline, fun hnull => hconverts hnull.2⟩, And.left⟩

/-- A supplied parameter counts as absent exactly if its value has a line feed, unless it
    is required or null stands in for it. -/
theorem validate_named_eq_none_iff (r : Registry) (address : String) (settings : Settings)
    (hp : find r address settings = .ok p) (schema : Schema) (hschema : p.schema? = some schema)
    (n : Node) (hresolved : schema.resolved = .ok n) (t : SchemaType)
    (htype : n.get? "type" = some (.string t.name)) :
    p.validate (some (.string (p.serialization.singleText name value))) o = .ok none
      ↔ '\n' ∈ value.toList ∧ p.required = false
        ∧ ¬ (t = .null ∧ o.converts true = true) := by
  obtain ⟨x?, hx, hnone⟩ :=
    p.exists_valueOfText_named hstyle hexplode o ho name value hname hequals hvalue t
  have hcontent : p.content.isEmpty = true := by
    rw [content_of_find r address settings p hp schema hschema]
    rfl
  rw [p.validate_of_isEmpty o hcontent, hschema, Option.elim_some,
    p.validateSchema_of_text o schema n hresolved t (typeOf_of_get? n t htype) _
      (Serialization.singleText_ne hvalue), hx]
  change validateSchema.finish p schema o x? = .ok none ↔ _
  rw [p.finish_eq_none_iff x? o schema, hnone]
  constructor
  · rintro ⟨⟨hline, hnull⟩, hrequired⟩
    exact ⟨hline, hrequired, hnull⟩
  · rintro ⟨hline, hrequired, hnull⟩
    exact ⟨⟨hline, hnull⟩, hrequired⟩

end Named

/-- The description of a parameter with a text in a query string. -/
def noteDescription : Json :=
  .object [("name", .string "note"), ("in", .string "query"), ("style", .string "form"),
    ("schema", .object [("type", .string "string")])]

/-- A note of one line is not absent, and a note of two lines is. -/
theorem validate_named_note :
    ∃ p, Parameter.ofJson noteDescription = .ok p
      ∧ p.validate (some (.string "note=a b")) ValidationOptions.default ≠ .ok none
      ∧ p.validate (some (.string "note=a\nb")) ValidationOptions.default = .ok none := by
  obtain ⟨p, r, address, schema, n, hread, hfind, hlayout, hschema, hresolved, hn⟩ :=
    exists_of_layoutAndSchema? noteDescription ("note", .form, false)
      (.object [("type", .string "string")]) (by decide +kernel)
  have htype : n.get? "type" = some (.string SchemaType.string.name) := by
    unfold Node.get?
    rw [hn]
    rfl
  have hrequired : p.required = false := by
    have h : (Parameter.ofJson noteDescription).toOption.map Parameter.required = some false := by
      decide +kernel
    rw [hread] at h
    exact Option.some.inj h
  -- For an optional note, being absent is up to line feeds alone.
  have habsent : ∀ value : String, value ≠ "" →
      (p.validate (some (.string (p.serialization.singleText "note" value)))
          ValidationOptions.default = .ok none
        ↔ '\n' ∈ value.toList ∧ p.required = false
          ∧ ¬ (SchemaType.string = .null ∧ ValidationOptions.default.converts true = true)) :=
    fun value hvalue => p.validate_named_eq_none_iff (by rw [hlayout]; decide)
      (by rw [hlayout]) ValidationOptions.default rfl "note" value (by decide) (by decide) hvalue
      r address Settings.default hfind schema hschema n hresolved .string htype
  rw [hlayout] at habsent
  refine ⟨p, hread, fun h => ?_, ?_⟩
  · exact absurd ((habsent "a b" (by decide)).mp h).1 (by decide)
  · exact (habsent "a\nb" (by decide)).mpr ⟨by decide, hrequired, by decide⟩

end Parameter

end OpenApi
