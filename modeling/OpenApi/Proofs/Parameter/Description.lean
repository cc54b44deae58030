import OpenApi.Proofs.Parameter.Conversion
import OpenApi.Proofs.Registry.Registration

/-!
# Descriptions of Parameters

What is known of a parameter because its description was accepted. A description is
checked point by point, and the first point that fails is reported, so an accepted
one has passed all checks (`Reading`). The rules for descriptions follow from the
checks one by one (`Abides`): the style is one that the place allows, a parameter in
the path is required, the value is described by a schema or by media types but not by
both, and what the description declares is what the parameter has.

A required parameter is never absent after validation. Absence is looked at in one
place, after a text was decoded and before anything is validated, and all ways through
a validation lead past it. Only a text that is null is answered before, and null is
not absent.

## Main definitions

* `Node.contentTypes`: The content types that a description declares.
* `Parameter.Reading`: A description has passed the checks.
* `Parameter.Abides`: A parameter keeps the rules for descriptions.
* `Parameter.layoutAndSchema?`: What a description says about a parameter.

## Theorems

* `required_of_validate`: What is required is not absent.
* `validateSchema_of_text`: How a text is validated for a schema that names a type.
* `exists_reading`: An accepted description has passed the checks.
* `content_of_readContent`: The declared media types are found, in order.
* `content_of_find`: A parameter with a schema has no media types.
* `abides_of_find`: A parameter that is found keeps the rules.
-/

namespace OpenApi

/-- The content types that a description declares, in order. -/
def Node.contentTypes (n : Node) : List String :=
  (((n.get? "content").bind Json.object?).map Ordered.keys).getD []

theorem contentTypes_of_not_has (n : Node) (h : n.has "content" = false) : n.contentTypes = [] := by
  have hnone : n.get? "content" = none :=
    Option.isNone_iff_eq_none.mp (Option.isSome_eq_false_iff.mp h)
  unfold Node.contentTypes
  rw [hnone]
  rfl

/-- A media type that is found knows the content type that it was looked for. -/
theorem MediaType.contentType_of_find (r : Registry) (address contentType : String)
    (m : MediaType) (h : find r address contentType = .ok m) : m.contentType = contentType := by
  unfold find at h
  cases hfound : r.find? address with
  | none =>
      rw [hfound] at h
      exact nomatch h
  | some n =>
      rw [hfound] at h
      obtain ⟨_, _, h⟩ := (bind_eq_ok_iff _ _ m).mp h
      obtain ⟨_, _, h⟩ := (bind_eq_ok_iff _ _ m).mp h
      rw [← Except.ok.inj h]

namespace Parameter

section Absence

variable (p : Parameter) (x? : Option Json) (o : ValidationOptions)

theorem checkPresence_eq_none_iff :
    p.checkPresence x? = .ok none ↔ x? = none ∧ p.required = false := by
  unfold checkPresence
  cases x? with
  | none =>
      cases p.required with
      | true => exact iff_of_false nofun fun h => Bool.false_ne_true h.2.symm
      | false => exact iff_of_true rfl ⟨rfl, rfl⟩
  | some x => exact iff_of_false nofun fun h => Option.some_ne_none x h.1

theorem validateContent_eq_none_iff :
    p.validateContent x? o = .ok none ↔ x? = none ∧ p.required = false := by
  cases x? with
  | none => rw [validateContent_none, checkPresence_eq_none_iff]
  | some x =>
      refine iff_of_false (fun h => ?_) fun h => Option.some_ne_none x h.1
      rw [validateContent_some] at h
      obtain ⟨m, _, h⟩ := (bind_eq_ok_iff _ _ none).mp h
      unfold ofMediaType at h
      obtain ⟨y, _, h⟩ := (bind_eq_ok_iff _ _ none).mp h
      exact nomatch h

theorem finish_eq_none_iff (schema : Schema) :
    validateSchema.finish p schema o x? = .ok none ↔ x? = none ∧ p.required = false := by
  unfold validateSchema.finish
  rw [bind_eq_ok_iff]
  constructor
  · rintro ⟨y?, hpresence, h⟩
    cases y? with
    | none => exact (p.checkPresence_eq_none_iff x?).mp hpresence
    | some y =>
        obtain ⟨z, _, h⟩ := (bind_eq_ok_iff _ _ none).mp h
        exact nomatch h
  · intro h
    exact ⟨none, (p.checkPresence_eq_none_iff x?).mpr h, rfl⟩

/-- A parameter with a schema is absent only where decoding leaves nothing. -/
theorem required_of_validateSchema (schema : Schema)
    (h : p.validateSchema schema x? o = .ok none) : p.required = false := by
  unfold validateSchema at h
  obtain ⟨n, _, h⟩ := (bind_eq_ok_iff _ _ none).mp h
  obtain ⟨t?, _, h⟩ := (bind_eq_ok_iff _ _ none).mp h
  split at h
  · split at h
    · -- An empty text that may be null is null, and so it is there.
      exact nomatch h
    · obtain ⟨y?, _, h⟩ := (bind_eq_ok_iff _ _ none).mp h
      exact ((p.finish_eq_none_iff y? o schema).mp h).2
  · exact ((p.finish_eq_none_iff x? o schema).mp h).2

/-- A parameter that is absent after validation is one that may be. -/
theorem required_of_validate (h : p.validate x? o = .ok none) : p.required = false := by
  cases hcontent : p.content.isEmpty with
  | false =>
      rw [p.validate_of_content o hcontent] at h
      exact ((p.validateContent_eq_none_iff x? o).mp h).2
  | true =>
      rw [p.validate_of_isEmpty o hcontent] at h
      cases hschema : p.schema? with
      | none =>
          rw [hschema] at h
          exact ((p.checkPresence_eq_none_iff x?).mp h).2
      | some schema =>
          rw [hschema] at h
          exact p.required_of_validateSchema x? o schema h

/-- A text is decoded and converted for the type that the schema names, and what that
    leads to is validated. -/
theorem validateSchema_of_text (schema : Schema) (n : Node) (hresolved : schema.resolved = .ok n)
    (t : SchemaType) (htype : typeOf n = .ok (some t)) (text : String) (hne : text ≠ "") :
    p.validateSchema schema (some (.string text)) o
      = p.valueOfText text t o >>= fun y? => validateSchema.finish p schema o y? := by
  have hempty : ¬ (text.isEmpty = true ∧ n.isTrue "nullable" = true) :=
    fun h => hne (String.isEmpty_iff.mp h.1)
  unfold validateSchema
  rw [hresolved]
  change (typeOf n).mapError Error.failure >>= _ = _
  rw [htype]
  change (if _ ∧ _ then _ else p.valueOfText text t o >>= validateSchema.finish p schema o) = _
  rw [if_neg hempty]

end Absence

/-- The description at a node has passed the checks, and this is its parameter. -/
structure Reading (r : Registry) (n : Node) (f : ParameterFields) (p : Parameter) : Prop where
  /-- The place is known. -/
  location : readLocation n.scope f = .ok p.location
  /-- The place allows the style. -/
  style : readStyle n.scope f p.location = .ok p.serialization.style
  /-- A parameter in the path is required. -/
  path : checkPath n.scope f p.location = .ok ()
  /-- There are not both a schema and media types. -/
  exclusive : checkExclusive n.scope n = .ok ()
  /-- The schema is found. -/
  schema : r.memberSchema? n = .ok p.schema?
  /-- The media types are found. -/
  content : readContent r n.scope n = .ok p.content
  /-- Nothing is required that is not said to be. -/
  required : p.required = f.required?.getD false

/-- A parameter keeps the rules for the description that it is made from. -/
structure Abides (p : Parameter) (n : Node) (f : ParameterFields) : Prop where
  /-- The place allows the style. -/
  style : p.serialization.style ∈ p.location.styles
  /-- Without a style it is the first one that the place allows. -/
  unstyled : f.style? = none → p.location.styles.head? = some p.serialization.style
  /-- A parameter in the path is required. -/
  path : p.location = .path → p.required = true
  /-- The value is not described twice. -/
  exclusive : p.schema? = none ∨ p.content = []
  /-- There is a schema where one is declared. -/
  schema : p.schema?.isSome = true ↔ n.has "schema" = true
  /-- The media types are those of the content types that are declared, in order. -/
  content : Ordered.keys p.content = n.contentTypes
  /-- There are some where they are declared. -/
  filled : n.has "content" = true → p.content ≠ []
  /-- Each media type knows its content type. -/
  mediaTypes : ∀ entry ∈ p.content, entry.2.contentType = entry.1

/-- What is found at an address has passed the checks. -/
theorem exists_reading (r : Registry) (address : String) (settings : Settings) (p : Parameter)
    (h : find r address settings = .ok p) :
    ∃ n₀ n f, r.find? address = some n₀ ∧ r.deref n₀ = .ok n
      ∧ ParameterFields.ofJson? n.value = some f ∧ Reading r n f p := by
  unfold find at h
  split at h
  · exact nomatch h
  · rename_i n₀ hfound
    obtain ⟨n, hn, h⟩ := (bind_eq_ok_iff _ _ p).mp h
    rw [mapError_eq_ok_iff, Registry.follow_eq_ok_iff] at hn
    dsimp only at h
    split at h
    · exact nomatch h
    · rename_i f hf
      -- One check after the other, in the order in which they are made.
      obtain ⟨location, hlocation, h⟩ := (bind_eq_ok_iff _ _ p).mp h
      obtain ⟨style, hstyle, h⟩ := (bind_eq_ok_iff _ _ p).mp h
      obtain ⟨_, hpath, h⟩ := (bind_eq_ok_iff _ _ p).mp h
      obtain ⟨_, hexclusive, h⟩ := (bind_eq_ok_iff _ _ p).mp h
      obtain ⟨schema?, hschema, h⟩ := (bind_eq_ok_iff _ _ p).mp h
      obtain ⟨content, hcontent, h⟩ := (bind_eq_ok_iff _ _ p).mp h
      rw [mapError_eq_ok_iff] at hschema
      rw [← Except.ok.inj h]
      exact ⟨n₀, n, f, hfound, hn, hf, hlocation, hstyle, hpath, hexclusive, hschema, hcontent,
        rfl⟩

section Rules

variable (scope : String) (f : ParameterFields) (location : ParameterLocation)

theorem style_of_readStyle (style : ParameterStyle)
    (h : readStyle scope f location = .ok style) :
    style ∈ location.styles ∧ (f.style? = none → location.styles.head? = some style) := by
  unfold readStyle at h
  cases hstyle : f.style? with
  | none =>
      rw [hstyle] at h
      rw [← Except.ok.inj h]
      exact ⟨List.mem_cons_self, fun _ => rfl⟩
  | some text =>
      rw [hstyle] at h
      dsimp only at h
      refine ⟨?_, fun hnone => absurd hnone (Option.some_ne_none text)⟩
      split at h
      · rename_i named _
        by_cases hallowed : location.styles.contains named = true
        · rw [if_pos hallowed, Except.ok.injEq] at h
          rw [← h]
          exact List.contains_iff_mem.mp hallowed
        · rw [if_neg hallowed] at h
          exact nomatch h
      · exact nomatch h

theorem required_of_checkPath (h : checkPath scope f location = .ok ())
    (hpath : location = .path) : f.required? = some true := by
  unfold checkPath at h
  by_cases hrequired : f.required? = some true
  · exact hrequired
  · rw [if_pos ⟨hpath, hrequired⟩] at h
    exact nomatch h

variable (r : Registry) (n : Node)

theorem exclusive_of_checkExclusive (h : checkExclusive scope n = .ok ()) :
    n.has "schema" = false ∨ n.has "content" = false := by
  unfold checkExclusive at h
  by_cases hboth : (n.has "schema" && n.has "content") = true
  · rw [if_pos hboth] at h
    exact nomatch h
  · exact Bool.and_eq_false_iff.mp (Bool.eq_false_iff.mpr hboth)

/-- A schema is found exactly where one is declared. -/
theorem isSome_memberSchema? (schema? : Option Schema) (h : r.memberSchema? n = .ok schema?) :
    schema?.isSome = true ↔ n.has "schema" = true := by
  rw [n.has_eq_isSome_child? "schema" (by decide)]
  unfold Registry.memberSchema? at h
  rcases hchild : n.child? ["schema"] with _ | child
  · rw [hchild] at h
    rw [← Except.ok.inj h]
    exact iff_of_false Bool.false_ne_true Bool.false_ne_true
  · rw [hchild] at h
    dsimp only at h
    rcases hfound : Schema.find r child.scope with e | schema
    · rw [hfound] at h
      exact nomatch h
    · rw [hfound] at h
      rw [← Except.ok.inj h]
      exact iff_of_true rfl rfl

/-- A content type that is declared has a media type, which knows it. -/
theorem exists_of_readMediaType (members : Ordered Json)
    (hmembers : n.get? "content" = some (.object members)) (contentType : String)
    (hdeclared : contentType ∈ Ordered.keys members) (found : Option (String × MediaType))
    (h : readMediaType r scope n contentType = .ok found) :
    ∃ m, found = some (contentType, m) ∧ m.contentType = contentType := by
  have hvalue := n.map_value_below "content" contentType (.object members) hmembers
  have hmember : Ordered.get? members contentType ≠ none :=
    fun hnone => (Ordered.get?_eq_none_iff members contentType).mp hnone hdeclared
  unfold readMediaType at h
  rcases hchild : n.child? ["content", contentType] with _ | child
  · rw [hchild] at hvalue
    exact absurd hvalue.symm hmember
  · rw [hchild] at h
    dsimp only at h
    cases hobject : child.value with
    | object _ =>
        rw [hobject] at h
        obtain ⟨m, hm, h⟩ := (bind_eq_ok_iff _ _ found).mp h
        exact ⟨m, (Except.ok.inj h).symm, MediaType.contentType_of_find r _ contentType m hm⟩
    | _ =>
        rw [hobject] at h
        exact nomatch h

/-- If each key gives an entry of its own, the keys of the entries are the keys. -/
theorem keys_of_mapM (step : String → Except Error (Option (String × MediaType)))
    (ks : List String)
    (hstep : ∀ key ∈ ks, ∀ found, step key = .ok found →
      ∃ m, found = some (key, m) ∧ m.contentType = key)
    (entries : List (Option (String × MediaType))) (h : ks.mapM step = .ok entries) :
    Ordered.keys (entries.filterMap id) = ks
      ∧ ∀ entry ∈ entries.filterMap id, entry.2.contentType = entry.1 := by
  rw [mapM_eq_ok_iff] at h
  -- Each key gives an entry here, so leaving out what is none leaves out nothing.
  induction h with
  | nil => exact ⟨rfl, nofun⟩
  | cons hentry _ ih =>
      obtain ⟨hfirst, hrest⟩ := List.forall_mem_cons.mp hstep
      obtain ⟨m, rfl, hm⟩ := hfirst _ hentry
      obtain ⟨hkeys, hentries⟩ := ih hrest
      rw [List.filterMap_cons_some (f := id) rfl]
      refine ⟨?_, List.forall_mem_cons.mpr ⟨hm, hentries⟩⟩
      unfold Ordered.keys at hkeys ⊢
      rw [List.map_cons, hkeys]

/-- The media types that are declared are found, in order. -/
theorem content_of_readContent (content : Ordered MediaType)
    (h : readContent r scope n = .ok content) :
    Ordered.keys content = n.contentTypes ∧ (n.has "content" = true → content ≠ [])
      ∧ ∀ entry ∈ content, entry.2.contentType = entry.1 := by
  unfold readContent at h
  split at h
  · rename_i hnone
    rw [← Except.ok.inj h]
    refine ⟨?_, fun hhas => ?_, nofun⟩
    · unfold Node.contentTypes
      rw [hnone]
      rfl
    · change (n.get? "content").isSome = true at hhas
      rw [hnone] at hhas
      exact nomatch hhas
  · rename_i entry rest hmembers
    obtain ⟨found, hfound, h⟩ := (bind_eq_ok_iff _ _ content).mp h
    obtain ⟨hkeys, hentries⟩ := keys_of_mapM _ _
      (exists_of_readMediaType scope r n (entry :: rest) hmembers) found hfound
    rw [← Except.ok.inj h]
    refine ⟨?_, fun _ hnil => ?_, hentries⟩
    · unfold Node.contentTypes
      rw [hkeys, hmembers]
      rfl
    · -- As many media types are found as are declared, and that is at least one.
      rw [hnil] at hkeys
      exact nomatch hkeys
  · exact nomatch h

end Rules

/-- The rules are what is left of the checks. -/
theorem Reading.abides {r : Registry} {n : Node} {f : ParameterFields} {p : Parameter}
    (h : Reading r n f p) : p.Abides n f where
  style := (style_of_readStyle _ f _ _ h.style).1
  unstyled := (style_of_readStyle _ f _ _ h.style).2
  path := by
    intro hpath
    rw [h.required, required_of_checkPath _ f _ h.path hpath, Option.getD_some]
  exclusive := by
    have hschema := isSome_memberSchema? r n _ h.schema
    have hcontent := (content_of_readContent _ r n _ h.content).1
    rcases exclusive_of_checkExclusive _ n h.exclusive with hhas | hhas
    · rw [hhas] at hschema
      refine Or.inl (Option.not_isSome_iff_eq_none.mp fun hsome => ?_)
      exact Bool.false_ne_true (hschema.mp hsome)
    · rw [contentTypes_of_not_has n hhas] at hcontent
      exact Or.inr (List.map_eq_nil_iff.mp hcontent)
  schema := isSome_memberSchema? r n _ h.schema
  content := (content_of_readContent _ r n _ h.content).1
  filled := (content_of_readContent _ r n _ h.content).2.1
  mediaTypes := (content_of_readContent _ r n _ h.content).2.2

/-- A parameter with a schema has no media types, since a description with both
    is not accepted. -/
theorem content_of_find (r : Registry) (address : String) (settings : Settings) (p : Parameter)
    (hp : find r address settings = .ok p) (schema : Schema) (hschema : p.schema? = some schema) :
    p.content = [] := by
  obtain ⟨_, n, f, _, _, _, hreading⟩ := exists_reading r address settings p hp
  refine hreading.abides.exclusive.resolve_left fun hnone => ?_
  exact Option.some_ne_none schema (hschema.symm.trans hnone)

/-- What a description says about the layout and the schema of a parameter. -/
def layoutAndSchema? (description : Json) :
    Option ((String × ParameterStyle × Bool) × Json) :=
  (Parameter.ofJson description).toOption.bind fun p =>
    p.schema?.bind fun schema =>
      schema.resolved.toOption.map fun n =>
        ((p.serialization.name, p.serialization.style, p.serialization.explode), n.value)

/-- What a parameter is made of, if that is what its description says. -/
theorem exists_of_layoutAndSchema? (description : Json) (layout : String × ParameterStyle × Bool)
    (value : Json) (h : layoutAndSchema? description = some (layout, value)) :
    ∃ p r address schema n, Parameter.ofJson description = .ok p
      ∧ find r address Settings.default = .ok p
      ∧ p.serialization = ⟨layout.1, layout.2.1, layout.2.2⟩
      ∧ p.schema? = some schema ∧ schema.resolved = .ok n ∧ n.value = value := by
  unfold layoutAndSchema? at h
  obtain ⟨p, hp, h⟩ := Option.bind_eq_some_iff.mp h
  obtain ⟨schema, hschema, h⟩ := Option.bind_eq_some_iff.mp h
  obtain ⟨n, hn, h⟩ := Option.map_eq_some_iff.mp h
  obtain ⟨hlayout, hvalue⟩ := Prod.mk.inj h
  have hread := eq_ok_of_toOption _ p hp
  obtain ⟨⟨uri, r⟩, _, hfind⟩ := (bind_eq_ok_iff _ _ p).mp hread
  refine ⟨p, r, uri.text, schema, n, hread, hfind, ?_, hschema, eq_ok_of_toOption _ n hn, hvalue⟩
  rw [← hlayout]

/-- A parameter that is found keeps the rules for descriptions, and if it is required,
    as it is in the path, no validation leaves it absent. -/
theorem abides_of_find (r : Registry) (address : String) (settings : Settings) (p : Parameter)
    (h : find r address settings = .ok p) :
    (∃ n₀ n f, r.find? address = some n₀ ∧ r.deref n₀ = .ok n
        ∧ ParameterFields.ofJson? n.value = some f ∧ p.Abides n f)
      ∧ (p.required = true → ∀ x? o, p.validate x? o ≠ .ok none)
      ∧ (p.location = .path → ∀ x? o, p.validate x? o ≠ .ok none) := by
  obtain ⟨n₀, n, f, hfound, hn, hf, hreading⟩ := exists_reading r address settings p h
  have hrules := hreading.abides
  have hpresent : p.required = true → ∀ x? o, p.validate x? o ≠ .ok none := by
    intro hrequired x? o habsent
    rw [p.required_of_validate x? o habsent] at hrequired
    exact Bool.false_ne_true hrequired
  exact ⟨⟨n₀, n, f, hfound, hn, hf, hrules⟩, hpresent, fun hpath => hpresent (hrules.path hpath)⟩

/-- A document with the description of a parameter and another name for it. -/
def orderDocument : Json :=
  .object [("alias", .object [("$ref", .string "#/order")]),
    ("order", .object [("name", .string "order"), ("in", .string "path"),
      ("required", .bool true),
      ("content", .object [("text/csv", .object []), ("*/*", .object [])])])]

/-- The registry with that document. -/
def orderRegistry : Registry := Registry.empty.afterAll [.json "urn:shop" orderDocument]

/-- By its other name the parameter is found with both media types in their order, and
    it cannot be left out. -/
theorem abides_of_find_order :
    ∃ p n f, find orderRegistry "urn:shop#/alias" Settings.default = .ok p
      ∧ p.Abides n f ∧ n.contentTypes = ["text/csv", "*/*"]
      ∧ Ordered.keys p.content = ["text/csv", "*/*"] ∧ p.location = .path
      ∧ p.validate none ValidationOptions.default ≠ .ok none := by
  have hfound : ((find orderRegistry "urn:shop#/alias" Settings.default).toOption.map
      fun p => p.location) = some .path := by decide +kernel
  have htypes : ((orderRegistry.find? "urn:shop#/alias").bind fun n₀ =>
      (orderRegistry.deref n₀).toOption.map Node.contentTypes)
        = some ["text/csv", "*/*"] := by decide +kernel
  obtain ⟨p, hp, hpath⟩ := Option.map_eq_some_iff.mp hfound
  have hfind := eq_ok_of_toOption _ p hp
  obtain ⟨⟨n₀, n, f, hn₀, hn, _, hrules⟩, _, hpresent⟩ := abides_of_find _ _ _ p hfind
  have hdeclared : n.contentTypes = ["text/csv", "*/*"] := by
    rw [hn₀, Option.bind_some, hn] at htypes
    exact Option.some.inj htypes
  exact ⟨p, n, f, hfind, hrules, hdeclared, hrules.content.trans hdeclared, hpath,
    hpresent hpath none ValidationOptions.default⟩

end Parameter

end OpenApi
