import Mathlib.Data.List.TakeWhile
import OpenApi.Proofs.Parameter.Layout

/-!
# Single Values

The text of a single value, and what is decoded from it. Without any style the
value is the whole text; other styles put a mark in front of it, or the name and an
equals sign. What stands behind an equals sign is read up to its end, other equals
signs and all, if it is one line.

A label is different. Its dot is also what stands between the items of an array, so
a single value ends at the next dot, and a decimal number loses its fraction.

With a name in front the same text can be read as an array or an object that is not
exploded. Whatever it is read as, it is the line feed alone that decides whether
there is anything to decode.

## Main definitions

* `Serialization.singleText`: The text of a single value.
* `Serialization.returnedSingle`: What is decoded from it.

## Theorems

* `decode_singleText`: A single value comes back, up to the next dot in a label.
* `exists_decode_named`: Whether there is anything to decode behind a name.
-/

namespace OpenApi

namespace Text

/-- The first part ends at the first separator. -/
theorem head?_splitBy (stop : Char → Bool) (cs : List Char) :
    (splitBy stop cs).head? = some (cs.takeWhile fun c => !stop c) := by
  induction cs with
  | nil => rfl
  | cons c rest ih =>
      rw [splitBy, List.takeWhile_cons]
      rcases hrest : splitBy stop rest with _ | ⟨part, parts⟩
      · exact absurd hrest (splitBy_ne_nil stop rest)
      · rw [hrest, List.head?_cons, Option.some.injEq] at ih
        dsimp only
        by_cases hc : stop c = true
        · rw [if_pos hc, hc]
          rfl
        · rw [if_neg hc, Bool.eq_false_iff.mpr hc, ih]
          rfl

end Text

namespace Serialization

variable (s : Serialization)

/-- The text of a single value. -/
def singleText (name text : String) : String :=
  match s.style with
  | .matrix => ";" ++ (name ++ "=" ++ text)
  | .label => "." ++ text
  | .form => name ++ "=" ++ text
  | _ => text

/-- A single value as it comes back: in a label, up to the next dot. -/
def returnedSingle (text : String) : String :=
  if s.style = .label then String.ofList (text.toList.takeWhile (· != '.')) else text

/-- A single value is lost in part only where it holds what ends a label. -/
theorem returnedSingle_eq_iff (text : String) :
    s.returnedSingle text = text ↔ (s.style = .label → '.' ∉ text.toList) := by
  unfold returnedSingle
  by_cases hlabel : s.style = .label
  · have hkept : String.ofList (text.toList.takeWhile (· != '.')) = text
        ↔ ∀ c ∈ text.toList, (c != '.') = true := by
      rw [← List.takeWhile_eq_self_iff, ← String.toList_inj, String.toList_ofList]
    rw [if_pos hlabel, hkept]
    constructor
    · exact fun h _ hdot => absurd (h '.' hdot) (by decide)
    · exact fun h c hc => bne_iff_ne.mpr fun hdot => h hlabel (hdot ▸ hc)
  · rw [if_neg hlabel]
    exact iff_of_true rfl fun h => absurd h hlabel

section Names

variable {s} {name : String} (text : String)

/-- What stands behind the name, in either of the styles that write it. -/
theorem valueAfterName?_named (hname : name ≠ "") (hequals : '=' ∉ name.toList) :
    valueAfterName? (name ++ "=" ++ text).toList
      = if '\n' ∈ text.toList then none else some text.toList := by
  have hlist : (name ++ "=" ++ text).toList = name.toList ++ '=' :: text.toList := by
    rw [String.toList_append, String.toList_append, List.append_assoc]
    rfl
  rw [hlist]
  exact valueAfterName?_equals name.toList text.toList
    (fun h => hname (String.toList_eq_nil_iff.mp h)) hequals

theorem afterSemicolon?_append :
    afterSemicolon? (";" ++ text).toList = some text.toList := by
  rw [String.toList_append]
  rfl

end Names

section Decoding

variable {s} {name text : String} (hne : text ≠ "")

include hne

theorem singleText_ne : s.singleText name text ≠ "" := by
  have hbehind : ∀ front : String, front ++ text ≠ "" := by
    intro front h
    have hnil : (front ++ text).toList = [] := String.toList_eq_nil_iff.mpr h
    rw [String.toList_append] at hnil
    exact hne (String.toList_eq_nil_iff.mp (List.append_eq_nil_iff.mp hnil).2)
  unfold singleText
  split
  · rw [← String.append_assoc]
    exact hbehind _
  · exact hbehind _
  · exact hbehind _
  · exact hne

theorem decode_scalar (t : SchemaType) (hscalar : t ≠ .array ∧ t ≠ .object)
    (hroom : s.style.supports t = true) :
    s.decode text t = .ok ((s.primitive? text.toList).map .primitive) := by
  have hempty : text.toList.isEmpty = false :=
    List.isEmpty_eq_false_iff.mpr fun h => hne (String.toList_eq_nil_iff.mp h)
  unfold decode
  dsimp only
  rw [hroom, hempty]
  cases t with
  | array => exact absurd rfl hscalar.1
  | object => exact absurd rfl hscalar.2
  | _ => rfl

/-- A name in front of a value ends at the equals sign, and the value is one line. -/
theorem primitive?_named (hstyle : s.style = .matrix ∨ s.style = .form) (hname : name ≠ "")
    (hequals : '=' ∉ name.toList) :
    s.primitive? (s.singleText name text).toList
      = if '\n' ∈ text.toList then none else some text := by
  have hvalue := valueAfterName?_named text hname hequals
  unfold primitive? singleText
  rcases hstyle with hstyle | hstyle
  · rw [hstyle]
    dsimp only
    rw [afterSemicolon?_append, Option.bind_some, hvalue]
    split
    · rfl
    · rw [Option.map_some, String.ofList_toList]
  · rw [hstyle]
    dsimp only
    rw [hvalue]
    split
    · rfl
    · rw [present?_of_ne_nil _ fun h => hne (String.toList_eq_nil_iff.mp h), Option.map_some,
        String.ofList_toList]

/-- The parts behind a name are those of one line, too. -/
theorem parts?_named (hstyle : s.style = .matrix ∨ s.style = .form) (hexplode : s.explode = false)
    (hname : name ≠ "") (hequals : '=' ∉ name.toList) :
    s.parts? (s.singleText name text).toList
      = if '\n' ∈ text.toList then none else some (commaParts text.toList) := by
  have hvalue := valueAfterName?_named text hname hequals
  have hpresent : (present? (if '\n' ∈ text.toList then none else some text.toList)).map commaParts
      = if '\n' ∈ text.toList then none else some (commaParts text.toList) := by
    split
    · rfl
    · rw [present?_of_ne_nil _ fun h => hne (String.toList_eq_nil_iff.mp h), Option.map_some]
  unfold parts? singleText
  rcases hstyle with hstyle | hstyle
  · rw [hstyle, hexplode]
    dsimp only
    rw [afterSemicolon?_append, Option.bind_some, hvalue, hpresent]
  · rw [hstyle, hexplode]
    dsimp only
    rw [hvalue, hpresent]

/-- What stands behind a name is a single text, or the items or members of an array
    or an object that is not exploded. It has to be one line for all of them. -/
theorem exists_decode_named (hstyle : s.style = .matrix ∨ s.style = .form)
    (hexplode : s.explode = false) (hname : name ≠ "") (hequals : '=' ∉ name.toList)
    (t : SchemaType) :
    ∃ decoded?, s.decode (s.singleText name text) t = .ok decoded?
      ∧ (decoded? = none ↔ '\n' ∈ text.toList) := by
  have hdeep : s.style ≠ .deepObject := by
    rintro h
    rcases hstyle with hs | hs
    · exact nomatch h.symm.trans hs
    · exact nomatch h.symm.trans hs
  have hroom : s.style.supports t = true := by
    rcases hstyle with hs | hs
    · rw [hs]
      cases t <;> decide
    · rw [hs]
      cases t <;> decide
  have hparts := parts?_named hne hstyle hexplode hname hequals
  have htext : (s.singleText name text).toList ≠ [] :=
    fun h => singleText_ne hne (String.toList_eq_nil_iff.mp h)
  have hdecode := decode_of_ne_nil hdeep _ htext
  -- In each case nothing is found exactly if the text behind the name is more than one line.
  cases t with
  | array =>
      refine ⟨_, hdecode.1, ?_⟩
      unfold array?
      rw [Option.map_eq_none_iff, Option.map_eq_none_iff, hparts]
      simp only [ite_eq_left_iff, reduceCtorEq, imp_false, not_not]
  | object =>
      refine ⟨_, hdecode.2, ?_⟩
      unfold object?
      rw [if_neg hdeep, Option.map_eq_none_iff, Option.map_eq_none_iff, hparts]
      simp only [ite_eq_left_iff, reduceCtorEq, imp_false, not_not]
  | _ =>
      refine ⟨_, decode_scalar (singleText_ne hne) _ (by decide) hroom, ?_⟩
      rw [Option.map_eq_none_iff, primitive?_named hne hstyle hname hequals]
      simp only [ite_eq_left_iff, reduceCtorEq, imp_false, not_not]

/-- A single value ends at the next dot in a label and nowhere else. -/
theorem primitive?_singleText (hstyle : s.style ∈ [.matrix, .label, .form, .simple])
    (hname : name ≠ "") (hequals : '=' ∉ name.toList) (hline : '\n' ∉ text.toList) :
    s.primitive? (s.singleText name text).toList = some (s.returnedSingle text) := by
  have hnamed := fun hs => primitive?_named (s := s) hne hs hname hequals
  rw [if_neg hline] at hnamed
  unfold returnedSingle
  simp only [List.mem_cons, List.not_mem_nil, or_false] at hstyle
  rcases hstyle with hs | hs | hs | hs
  · rw [hnamed (Or.inl hs), if_neg (by rw [hs]; decide)]
  · -- The dot in front makes an empty part, and the value is the part behind it.
    have hsplit := Text.splitBy_append (· == '.') '.' rfl [] text.toList
    have hhead := Text.head?_splitBy (· == '.') text.toList
    unfold primitive? singleText
    rw [hs, if_pos rfl]
    dsimp only
    rw [String.toList_append]
    change ((Text.splitBy (· == '.') ([] ++ '.' :: text.toList))[1]?).map String.ofList = _
    rw [hsplit]
    change ((Text.splitBy (· == '.') text.toList)[0]?).map String.ofList = _
    rw [← List.head?_eq_getElem?, hhead]
    rfl
  · rw [hnamed (Or.inr hs), if_neg (by rw [hs]; decide)]
  · unfold primitive? singleText
    rw [hs, if_neg (by decide)]
    dsimp only
    rw [Option.map_some, String.ofList_toList]

end Decoding

/-- A single value comes back from its text, whatever other signs of the style it
    holds. Only in a label it ends at the next dot, so it comes back there exactly if
    it has none. -/
theorem decode_singleText (name text : String) (hne : text ≠ "")
    (hstyle : s.style ∈ [.matrix, .label, .form, .simple]) (hname : name ≠ "")
    (hequals : '=' ∉ name.toList) (hline : '\n' ∉ text.toList) (t : SchemaType)
    (hscalar : t ≠ .array ∧ t ≠ .object) :
    s.decode (s.singleText name text) t = .ok (some (.primitive (s.returnedSingle text)))
      ∧ (s.decode (s.singleText name text) t = .ok (some (.primitive text))
        ↔ (s.style = .label → '.' ∉ text.toList)) := by
  have hroom : s.style.supports t = true := by
    have hall : ∀ style ∈ [ParameterStyle.matrix, .label, .form, .simple],
        style.supports t = true := by
      cases t <;> decide
    exact hall s.style hstyle
  have hdecoded : s.decode (s.singleText name text) t = _ :=
    decode_scalar (singleText_ne hne) t hscalar hroom
  rw [primitive?_singleText hne hstyle hname hequals hline, Option.map_some] at hdecoded
  refine ⟨hdecoded, ?_⟩
  rw [hdecoded, ← s.returnedSingle_eq_iff, Except.ok.injEq, Option.some.injEq,
    Decoded.primitive.injEq]

/-- A size in a path, by label style. -/
def labelledSize : Serialization := ⟨"size", .label, false⟩

/-- The same by matrix style. -/
def namedSize : Serialization := ⟨"size", .matrix, true⟩

/-- Behind a name a size comes back with its equals sign, its semicolon and its dot, and
    in a label as far as the dot. -/
theorem decode_singleText_sizes :
    namedSize.decode ";size=a=b;3.14" .string = .ok (some (.primitive "a=b;3.14"))
      ∧ labelledSize.decode ".3.14" .number = .ok (some (.primitive "3"))
      ∧ labelledSize.decode ".3,14" .string = .ok (some (.primitive "3,14")) := by
  refine ⟨?_, ?_, ?_⟩
  · exact (decode_singleText namedSize "size" "a=b;3.14" (by decide) (by decide) (by decide)
      (by decide) (by decide) .string (by decide)).1
  · exact (decode_singleText labelledSize "size" "3.14" (by decide) (by decide) (by decide)
      (by decide) (by decide) .number (by decide)).1
  · exact (decode_singleText labelledSize "size" "3,14" (by decide) (by decide) (by decide)
      (by decide) (by decide) .string (by decide)).2.mpr (by decide)

/-- A decimal number does not come back from a label. -/
theorem decode_fraction :
    "3.14" ≠ "" ∧ '\n' ∉ "3.14".toList ∧ labelledSize.singleText "size" "3.14" = ".3.14"
      ∧ labelledSize.decode ".3.14" .number = .ok (some (.primitive "3"))
      ∧ labelledSize.decode ".3.14" .number ≠ .ok (some (.primitive "3.14")) := by
  have hcut : labelledSize.decode ".3.14" .number = .ok (some (.primitive "3")) := rfl
  refine ⟨by decide, by decide, rfl, hcut, fun hwhole => ?_⟩
  exact absurd (hcut.symm.trans hwhole) (by decide)

end Serialization

end OpenApi
