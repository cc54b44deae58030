import OpenApi.Proofs.Evaluation.Acceptance
import OpenApi.Proofs.Evaluation.Members
import OpenApi.Proofs.Numeric.Integers
import OpenApi.Proofs.Parameter.Description
import OpenApi.Proofs.Parameter.Layout

/-!
# Integers as Parameters

Integers that are laid out as a text are validated to themselves: the text is
decoded into their spellings, the schema of the array has each spelling converted
for the schema of the items, and that reads it as the integer it was. It is the
schema of the items that converts, so what a parameter asks for has to reach it.

The layouts with a name in front of values have to show where the name ends. A
name with an equals sign or without any character does not.

## Main definitions

* `Node.IsIntegerArray`: A schema of arrays of integers.
* `Serialization.ShowsName`: A text shows where the name ends.

## Theorems

* `evaluateIn_integer`: A spelling is converted by the schema of integers.
* `evaluateIn_integers`: Spellings are converted by the schema of arrays.
* `fitsItems_integers`: Integers can be told from their text.
* `validate_integers`: Integers come back from the text of a parameter.
-/

namespace OpenApi

/-- A schema of arrays of integers, which demands nothing else. -/
structure Node.IsIntegerArray (n : Node) : Prop where
  /-- It names the type of arrays. -/
  type : n.get? "type" = some (.string "array")
  /-- The items are integers. -/
  items : n.get? "items" = some (.object [("type", .string "integer")])
  /-- It has no other keywords. -/
  only : ∀ k : Keyword, n.has k.name = true → k = .type ∨ k = .items

namespace Validator

variable (v : Validator) (hdialect : v.dialect = .openApi) (hconverts : v.converts = true)

include hdialect hconverts

/-- The spelling of an integer is converted by the schema of integers. -/
theorem evaluateIn_integer (depth : Nat) (m : Node)
    (hm : m.value = .object [("type", .string "integer")]) (path : String) (i : Int)
    (hi : i.natAbs ≤ 2 ^ 53) :
    v.evaluateIn (depth + 1) m path (.string (toString i)) = .ok (.ofInt i) := by
  have hderef : v.registry.deref m = .ok m := by
    have hreference : m.get? "$ref" = none := by
      unfold Node.get?
      rw [hm]
      rfl
    unfold Registry.deref Registry.maxHops Registry.derefWithin
    rw [hreference]
  have htype : m.get? "type" = some (.string "integer") := by
    unfold Node.get?
    rw [hm]
    rfl
  have hkeywords : v.dialect.keywords.filter (fun k => m.has k.name) = [.type] := by
    unfold Node.has
    rw [hm, hdialect]
    decide
  have hconverted : SchemaType.integer.convert (.string (toString i)) = .ofInt i := by
    change ((Number.ofText? (toString i)).map Json.number).getD _ = _
    rw [Number.ofText?_toString i hi]
    rfl
  -- The type is checked after the conversion, when the text is a number.
  have hchecked : m.checkType path (.ofInt i) = .ok (.ofInt i) := by
    unfold Node.checkType Node.typeNames?
    rw [htype]
    rfl
  rw [v.evaluateIn_succ m m hderef ⟨_, hm⟩]
  unfold evaluateKeywords
  simp only [hkeywords, List.foldlM_cons, List.foldlM_nil, bind_pure]
  unfold evaluateKeyword
  rw [hdialect]
  unfold Node.checkSingleType
  rw [htype, hconverts]
  change m.checkType path (SchemaType.integer.convert (.string (toString i))) = _
  rw [hconverted, hchecked]

/-- Each item of an array is converted, wherever the places start to count. -/
theorem judge_integers (depth : Nat) (n : Node) (hn : n.IsIntegerArray) (path : String)
    (ns : List Int) (hns : ∀ i ∈ ns, i.natAbs ≤ 2 ^ 53) :
    ∀ k, List.Forall₂ (fun pair item' => Node.judge (v.evaluateIn (depth + 1))
      (n.itemSchema? pair.2) path (toString pair.2) pair.1 = .ok (.ok item'))
        ((ns.map fun i => Json.string (toString i)).zipIdx k) (ns.map Json.ofInt) := by
  obtain ⟨m, hm, hvalue⟩ := n.exists_child?_of_get? "items" _ hn.items
  have hschema : ∀ i, n.itemSchema? i = some m := by
    intro i
    unfold Node.itemSchema?
    rw [hn.items]
    exact hm
  induction ns with
  | nil => exact fun _ => .nil
  | cons i rest ih =>
      intro k
      have hrest := ih (fun j hj => hns j (List.mem_cons_of_mem i hj))
      rw [List.map_cons, List.map_cons, List.zipIdx_cons]
      refine .cons ?_ (hrest (k + 1))
      rw [hschema k, Node.judge_eq_ok_iff]
      exact Or.inr ⟨m, rfl, v.evaluateIn_integer hdialect hconverts depth m hvalue _ i
        (hns i List.mem_cons_self)⟩

/-- The spellings of integers are converted by the schema of arrays of them. -/
theorem evaluateIn_integers (depth : Nat) (n₀ n : Node) (hderef : v.registry.deref n₀ = .ok n)
    (hn : n.IsIntegerArray) (path : String) (ns : List Int) (hns : ∀ i ∈ ns, i.natAbs ≤ 2 ^ 53) :
    v.evaluateIn (depth + 2) n₀ path (.array (ns.map fun i => .string (toString i)))
      = .ok (.array (ns.map Json.ofInt)) := by
  have hobject : ∃ members, n.value = .object members := by
    refine n.exists_object_of_has "type" ?_
    unfold Node.has Json.has
    exact Option.isSome_iff_exists.mpr ⟨_, hn.type⟩
  have hkeywords : v.dialect.keywords.filter (fun k => n.has k.name) = [.type, .items] := by
    have hsame : ∀ k : Keyword, n.has k.name = decide (k = .type ∨ k = .items) := by
      intro k
      rw [Bool.eq_iff_iff, decide_eq_true_eq]
      refine ⟨hn.only k, ?_⟩
      rintro (rfl | rfl)
      · exact Option.isSome_iff_exists.mpr ⟨_, hn.type⟩
      · exact Option.isSome_iff_exists.mpr ⟨_, hn.items⟩
    rw [List.filter_congr fun k _ => hsame k, hdialect]
    decide
  -- The list is of the right type, so only its items are converted.
  have htype : v.evaluateKeyword (v.evaluateIn (depth + 1)) .type n path
      (.array (ns.map fun i => .string (toString i)))
        = .ok (.array (ns.map fun i => .string (toString i))) := by
    unfold evaluateKeyword
    rw [hdialect]
    unfold Node.checkSingleType
    rw [hn.type, hconverts]
    change n.checkType path _ = _
    unfold Node.checkType Node.typeNames?
    rw [hn.type]
    rfl
  have hitems : v.evaluateKeyword (v.evaluateIn (depth + 1)) .items n path
      (.array (ns.map fun i => .string (toString i))) = .ok (.array (ns.map Json.ofInt)) := by
    unfold evaluateKeyword
    rw [hdialect]
    exact (n.applyItems_eq_ok_iff _ path _ _).mpr
      ⟨_, v.judge_integers hdialect hconverts depth n hn path ns hns 0, rfl⟩
  rw [v.evaluateIn_succ n₀ n hderef hobject]
  unfold evaluateKeywords
  simp only [hkeywords, List.foldlM_cons, List.foldlM_nil, bind_pure]
  rw [htype]
  exact hitems

end Validator

namespace Serialization

variable (s : Serialization)

theorem delimiter_not_numeral : s.delimiter ≠ '-' ∧ s.delimiter.isDigit = false := by
  unfold delimiter
  split <;> decide

/-- A text shows where the name ends, if the name is written there. -/
structure ShowsName : Prop where
  /-- The name ends at the equals sign. -/
  named : s.namesItems = true ∨ s.namesList = true → s.name ≠ "" ∧ '=' ∉ s.name.toList
  /-- A name inside of parts does not hold what stands between them. -/
  inside : s.namesItems = true → s.delimiter ∉ s.name.toList

/-- Integers can be told from their text, if the name can. -/
theorem fitsItems_integers (hname : s.ShowsName) (ns : List Int) (hns : ns ≠ []) :
    s.FitsItems s.name (ns.map toString) where
  nonempty := fun hnil => hns (List.map_eq_nil_iff.mp hnil)
  filled := by
    refine Or.inr (Or.inr fun hempty => ?_)
    rcases ns with _ | ⟨i, rest⟩
    · exact hns rfl
    · exact Decimal.toString_ne_empty i (List.cons.inj hempty).1
  -- A number is written with digits and a minus sign, and no delimiter is one of these.
  apart := by
    intro item hitem hmem
    obtain ⟨i, _, rfl⟩ := List.mem_map.mp hitem
    obtain ⟨hminus, hdigit⟩ := s.delimiter_not_numeral
    rcases Decimal.mem_toString i _ hmem with h | h
    · exact hminus h
    · exact Bool.eq_false_iff.mp hdigit h
  named := by
    intro hcarries
    obtain ⟨hne, hequals⟩ := hname.named hcarries
    refine ⟨hne, hequals, fun item hitem hmem => ?_⟩
    obtain ⟨i, _, rfl⟩ := List.mem_map.mp hitem
    rcases Decimal.mem_toString i _ hmem with h | h
    · exact absurd h (by decide)
    · exact absurd h (by decide)
  inside := hname.inside

/-- Integers are decoded to their spellings, none of which is missing. -/
theorem decode_integers (hstyle : s.style ≠ .deepObject) (hname : s.ShowsName) (ns : List Int)
    (hns : ns ≠ []) :
    s.decode (s.arrayText s.name (ns.map toString)) .array
      = .ok (some (.array (ns.map fun i => some (toString i)))) := by
  have hfits := s.fitsItems_integers hname ns hns
  have hreturned : ∀ i : Int, s.returnedItem (toString i) = some (toString i) := by
    intro i
    unfold returnedItem orMissing
    rw [if_neg (Decimal.toString_ne_empty i), ite_self]
  rw [(decode_of_ne_nil hstyle _ (FitsItems.arrayText_ne _ hfits)).1, array?_layOut hfits hstyle,
    List.map_map, Option.map_some]
  exact congrArg (fun items => Except.ok (some (Decoded.array items)))
    (List.map_congr_left fun i _ => hreturned i)

end Serialization

/-- A schema of arrays of integers converts their spellings if that is asked for. -/
theorem Schema.validate_spelled (schema : Schema) (n : Node) (hresolved : schema.resolved = .ok n)
    (hn : n.IsIntegerArray) (ns : List Int) (hns : ∀ i ∈ ns, i.natAbs ≤ 2 ^ 53)
    (o : ValidationOptions) (ho : o.converts false = true) :
    schema.validate (.array (ns.map fun i => .string (toString i))) o
      = .ok (.array (ns.map Json.ofInt)) := by
  obtain ⟨n₀, hnode, hderef⟩ := (bind_eq_ok_iff _ _ n).mp hresolved
  -- Two levels are enough, and no greater depth changes the outcome.
  have hdepth : 0 + 2 ≤ Validator.maxDepth := by
    unfold Validator.maxDepth
    omega
  have houtcome := (schema.validator o).evaluateIn_ok_of_le n₀ "" _ _ _ hdepth _
    ((schema.validator o).evaluateIn_integers rfl ho 0 n₀ n hderef hn "" ns hns)
  unfold validate validateAt
  rw [hnode]
  exact houtcome

namespace Parameter

/-- The text of integers is decoded, and an array is not converted itself. -/
theorem valueOfText_integers (p : Parameter) (hstyle : p.serialization.style ≠ .deepObject)
    (hname : p.serialization.ShowsName) (ns : List Int) (hne : ns ≠ []) :
    p.valueOfText (p.serialization.arrayText p.serialization.name (ns.map toString)) .array
        ValidationOptions.default
      = .ok (some (.array (ns.map fun i => .string (toString i)))) := by
  have hdecoded : p.decode (p.serialization.arrayText p.serialization.name (ns.map toString)) .array
      = .ok (some (.array (ns.map fun i => .string (toString i)))) := by
    unfold decode
    rw [p.serialization.decode_integers hstyle hname ns hne]
    simp only [Option.map_some, Decoded.toJson, List.map_map]
    rfl
  unfold valueOfText
  rw [hdecoded]
  rfl

/-- Integers come back from the text that they are laid out as, in any style that
    has room for arrays, whatever the name of the parameter, as long as the text
    shows where the name ends. -/
theorem validate_integers (r : Registry) (address : String) (settings : Settings) (p : Parameter)
    (hp : find r address settings = .ok p) (hstyle : p.serialization.style ≠ .deepObject)
    (schema : Schema) (hschema : p.schema? = some schema) (n : Node)
    (hresolved : schema.resolved = .ok n) (hn : n.IsIntegerArray)
    (hname : p.serialization.ShowsName) (ns : List Int) (hne : ns ≠ [])
    (hns : ∀ i ∈ ns, i.natAbs ≤ 2 ^ 53) :
    p.validate
        (some (.string (p.serialization.arrayText p.serialization.name (ns.map toString))))
        ValidationOptions.default
      = .ok (some (.array (ns.map Json.ofInt))) := by
  have hcontent : p.content.isEmpty = true := by
    rw [content_of_find r address settings p hp schema hschema]
    rfl
  rw [p.validate_of_isEmpty _ hcontent, hschema, Option.elim_some]
  have htype : typeOf n = .ok (some .array) := by
    unfold typeOf
    rw [hn.type]
    rfl
  -- The text is not empty, so the list is not taken for one that is absent.
  have hne' : p.serialization.arrayText p.serialization.name (ns.map toString) ≠ "" := fun h =>
    Serialization.FitsItems.arrayText_ne _ (p.serialization.fitsItems_integers hname ns hne)
      (String.toList_eq_nil_iff.mpr h)
  rw [p.validateSchema_of_text _ schema n hresolved .array htype _ hne',
    p.valueOfText_integers hstyle hname ns hne]
  change ((schema.validate _ _).mapError Error.failure >>= _) = _
  rw [schema.validate_spelled n hresolved hn ns hns _ rfl]
  rfl

/-- The schema of arrays of integers, as it is written. -/
def integersSchema : Json :=
  .object [("type", .string "array"), ("items", .object [("type", .string "integer")])]

/-- The description of a parameter with integers. -/
def integersDescription (name place style : String) (explode required : Bool) : Json :=
  .object [("name", .string name), ("in", .string place), ("style", .string style),
    ("explode", .bool explode), ("required", .bool required), ("schema", integersSchema)]

theorem isIntegerArray_of_value (n : Node) (h : n.value = integersSchema) : n.IsIntegerArray where
  type := by
    unfold Node.get?
    rw [h]
    rfl
  items := by
    unfold Node.get?
    rw [h]
    rfl
  only := by
    intro k hk
    unfold Node.has at hk
    rw [h] at hk
    cases k with
    | type => exact Or.inl rfl
    | items => exact Or.inr rfl
    | _ => exact absurd hk (by decide)

/-- Two integers in a path, each behind the name. -/
theorem validate_integers_ids :
    ∃ p, Parameter.ofJson (integersDescription "ids" "path" "matrix" true true) = .ok p
      ∧ p.validate (some (.string ";ids=7;ids=-1")) ValidationOptions.default
        = .ok (some (.array [.ofInt 7, .ofInt (-1)])) := by
  obtain ⟨p, r, address, schema, n, hread, hfind, hlayout, hschema, hresolved, hn⟩ :=
    exists_of_layoutAndSchema? (integersDescription "ids" "path" "matrix" true true)
      ("ids", .matrix, true) integersSchema (by decide +kernel)
  have hn := isIntegerArray_of_value n hn
  have hvalue := validate_integers r address Settings.default p hfind (by rw [hlayout]; decide)
    schema hschema n hresolved hn (by rw [hlayout]; exact ⟨by decide, by decide⟩) [7, -1]
    (by decide) (by decide)
  rw [hlayout] at hvalue
  exact ⟨p, hread, hvalue⟩

/-- Behind a name with an equals sign the integers do not come back. -/
theorem validate_integers_unnamed :
    ∃ p r address schema n,
      Parameter.ofJson (integersDescription "a=b" "query" "form" false false) = .ok p
      ∧ find r address Settings.default = .ok p ∧ p.serialization = ⟨"a=b", .form, false⟩
      ∧ p.schema? = some schema ∧ schema.resolved = .ok n ∧ n.IsIntegerArray
      ∧ p.serialization.arrayText p.serialization.name ([1, 2].map toString) = "a=b=1,2"
      ∧ p.validate (some (.string "a=b=1,2")) ValidationOptions.default
        ≠ .ok (some (.array ([1, 2].map Json.ofInt))) := by
  obtain ⟨p, r, address, schema, n, hread, hfind, hlayout, hschema, hresolved, hn⟩ :=
    exists_of_layoutAndSchema? (integersDescription "a=b" "query" "form" false false)
      ("a=b", .form, false) integersSchema (by decide +kernel)
  have hn := isIntegerArray_of_value n hn
  refine ⟨p, r, address, schema, n, hread, hfind, hlayout, hschema, hresolved, hn, ?_, ?_⟩
  · rw [hlayout]
    decide
  · have hrejected :
        ((Parameter.ofJson (integersDescription "a=b" "query" "form" false false)).toOption.bind
          fun p => (p.validate (some (.string "a=b=1,2")) ValidationOptions.default).toOption)
            = none := by decide +kernel
    have hok : (Except.ok p : Except Error Parameter).toOption = some p := rfl
    rw [hread, hok, Option.bind_some] at hrejected
    intro h
    rw [h] at hrejected
    exact nomatch hrejected

end Parameter

end OpenApi
