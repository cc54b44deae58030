import OpenApi.Proofs.Evaluation.Rewriting
import OpenApi.SchemaType

/-!
# Instances After Conversions

The conversions that types demand make truth values and numbers out of texts,
wherever in an instance the texts stand. Nothing else becomes of anything: arrays
and objects keep their shape, and a text that is there afterwards was there
before. So the items and members of an instance come from those of the original,
and no property gets a text it did not have.

These are the facts that keep an evaluation from being led astray by the
conversions on its way.

## Main definitions

* `Json.Converted`: What conversions may make of an instance.

## Theorems

* `rewriting_converted`: Conversions are a rewriting.
* `converted_convert`: The conversion to a type is one.
* `get?_of_converted`: Conversions make no texts.
-/

namespace OpenApi

/-- What conversions of texts, inside or at the top, may make of an instance. -/
inductive Json.Converted : Json → Json → Prop where
  /-- Nothing is converted. -/
  | same (x : Json) : Converted x x
  /-- A text spells a truth value. -/
  | bool (text : String) (value : Bool) : Converted (.string text) (.bool value)
  /-- A text spells a number. -/
  | number (text : String) (value : Number) : Converted (.string text) (.number value)
  /-- Items are converted in their places. -/
  | array (xs ys : List Json) : List.Forall₂ Converted xs ys → Converted (.array xs) (.array ys)
  /-- Members are converted under their keys. -/
  | object (xs ys : Ordered Json) : Ordered.keys xs = Ordered.keys ys →
      List.Forall₂ Converted (xs.map Prod.snd) (ys.map Prod.snd) →
        Converted (.object xs) (.object ys)

namespace Json

-- The constructor for objects has keys and values apart, because an inductive relation
-- cannot stand inside of a pair.
theorem forall₂_snd_iff (R : Json → Json → Prop) :
    ∀ xs ys : Ordered Json, (Ordered.keys xs = Ordered.keys ys
      ∧ List.Forall₂ R (xs.map Prod.snd) (ys.map Prod.snd)) ↔ Rewritten R xs ys := by
  intro xs
  induction xs with
  | nil =>
      intro ys
      constructor
      · rintro ⟨hkeys, _⟩
        rw [List.map_eq_nil_iff.mp hkeys.symm]
        exact List.Forall₂.nil
      · intro h
        rw [List.forall₂_nil_left_iff.mp h]
        exact ⟨rfl, List.Forall₂.nil⟩
  | cons x xs ih =>
      intro ys
      constructor
      · rintro ⟨hkeys, hvalues⟩
        cases ys with
        | nil => exact absurd hkeys (List.cons_ne_nil _ _)
        | cons y ys =>
            rw [Ordered.keys, Ordered.keys, List.map_cons, List.map_cons] at hkeys
            rw [List.map_cons, List.map_cons, List.forall₂_cons] at hvalues
            exact List.Forall₂.cons ⟨(List.cons.inj hkeys).1, hvalues.1⟩
              ((ih ys).mp ⟨(List.cons.inj hkeys).2, hvalues.2⟩)
      · intro h
        cases h with
        | @cons _ y _ ys hxy hrest =>
            rcases (ih ys).mpr hrest with ⟨hkeys, hvalues⟩
            refine ⟨?_, List.Forall₂.cons hxy.2 hvalues⟩
            rw [Ordered.keys, List.map_cons, hxy.1, Ordered.keys, List.map_cons]
            exact congrArg (y.1 :: ·) hkeys

theorem converted_array (items : List Json) (y : Json) (h : Converted (.array items) y) :
    ∃ items', y = .array items' ∧ List.Forall₂ Converted items items' := by
  cases h with
  | same => exact ⟨items, rfl, List.forall₂_same.mpr fun x _ => .same x⟩
  | array _ items' hitems => exact ⟨items', rfl, hitems⟩

theorem converted_object (members : Ordered Json) (y : Json) (h : Converted (.object members) y) :
    ∃ members', y = .object members' ∧ Rewritten Converted members members' := by
  cases h with
  | same => exact ⟨members, rfl, List.forall₂_same.mpr fun entry _ => ⟨rfl, .same entry.2⟩⟩
  | object _ members' hkeys hvalues =>
      exact ⟨members', rfl, (forall₂_snd_iff Converted members members').mp ⟨hkeys, hvalues⟩⟩

/-- An array comes from an array. -/
theorem array_of_converted (x : Json) (items' : List Json) (h : Converted x (.array items')) :
    ∃ items, x = .array items ∧ List.Forall₂ Converted items items' := by
  cases h with
  | same => exact ⟨items', rfl, List.forall₂_same.mpr fun x _ => .same x⟩
  | array items _ hitems => exact ⟨items, rfl, hitems⟩

/-- An object comes from an object. -/
theorem object_of_converted (x : Json) (members' : Ordered Json)
    (h : Converted x (.object members')) :
    ∃ members, x = .object members ∧ Rewritten Converted members members' := by
  cases h with
  | same => exact ⟨members', rfl, List.forall₂_same.mpr fun entry _ => ⟨rfl, .same entry.2⟩⟩
  | object members _ hkeys hvalues =>
      exact ⟨members, rfl, (forall₂_snd_iff Converted members members').mp ⟨hkeys, hvalues⟩⟩

theorem converted_of_rewritten (members members' : Ordered Json)
    (h : Rewritten Converted members members') : Converted (.object members) (.object members') := by
  rcases (forall₂_snd_iff Converted members members').mpr h with ⟨hkeys, hvalues⟩
  exact .object members members' hkeys hvalues

theorem converted_trans (x : Json) : ∀ y z, Converted x y → Converted y z → Converted x z := by
  induction x using induct with
  | array items ih =>
      intro y z hxy hyz
      rcases converted_array items y hxy with ⟨items', rfl, hitems⟩
      rcases converted_array items' z hyz with ⟨items'', rfl, hitems'⟩
      exact .array items items'' (forall₂_trans_of_mem items items' hitems ih items'' hitems')
  | object members ih =>
      intro y z hxy hyz
      rcases converted_object members y hxy with ⟨members', rfl, hmembers⟩
      rcases converted_object members' z hyz with ⟨members'', rfl, hmembers'⟩
      refine converted_of_rewritten members members''
        (forall₂_trans_of_mem members members' hmembers (fun a ha b c hab hbc => ?_) _ hmembers')
      exact ⟨hab.1.trans hbc.1, ih a ha b.2 c.2 hab.2 hbc.2⟩
  | string text =>
      intro y z hxy hyz
      -- What a text is converted to is no text, so it is not converted again.
      cases hxy with
      | same => exact hyz
      | bool => cases hyz with
          | same => exact .bool _ _
      | number => cases hyz with
          | same => exact .number _ _
  | _ =>
      intro y z hxy hyz
      cases hxy with
      | same => exact hyz

theorem wellFormed_of_converted (x : Json) :
    ∀ y, Converted x y → x.WellFormed → y.WellFormed := by
  induction x using induct with
  | array items ih =>
      intro y hxy hx z hz
      rcases converted_array items y hxy with ⟨items', rfl, hitems⟩
      rcases (mem_parts_array items' z).mp hz with rfl | ⟨b, hb, hzb⟩
      · exact List.nodup_nil
      · -- A part of an item of the result is a part of what that item was converted from.
        rcases exists_of_forall₂ items items' hitems b hb with ⟨a, ha, hab⟩
        exact ih a ha b hab (wellFormed_of_mem_parts _ a hx (mem_parts_item items a ha)) z hzb
  | object members ih =>
      intro y hxy hx z hz
      rcases converted_object members y hxy with ⟨members', rfl, hmembers⟩
      rcases (mem_parts_object members' z).mp hz with rfl | ⟨b, hb, hzb⟩
      · -- Conversion replaces values and keeps the keys.
        rw [keys, keys_rewritten members members' hmembers]
        exact hx _ (mem_parts_self _)
      · rcases exists_of_forall₂ members members' hmembers b hb with ⟨a, ha, hab⟩
        exact ih a ha b.2 hab.2 (wellFormed_of_mem_parts _ a.2 hx (mem_parts_member members a ha)) z
          hzb
  | string text =>
      intro y hxy hx z hz
      cases hxy with
      | same => exact hx z hz
      | bool =>
          rw [List.mem_singleton.mp hz]
          exact List.nodup_nil
      | number =>
          rw [List.mem_singleton.mp hz]
          exact List.nodup_nil
  | _ =>
      intro y hxy hx
      cases hxy with
      | same => exact hx

theorem rewriting_converted : Rewriting Converted where
  refl := .same
  trans := converted_trans
  array := .array
  object := converted_of_rewritten
  wellFormed := wellFormed_of_converted

theorem converted_getD_bool (text : String) (value? : Option Bool) :
    Converted (.string text) ((value?.map Json.bool).getD (.string text)) := by
  cases value? with
  | none => exact .same _
  | some value => exact .bool text value

theorem converted_getD_number (text : String) (value? : Option Number) :
    Converted (.string text) ((value?.map Json.number).getD (.string text)) := by
  cases value? with
  | none => exact .same _
  | some value => exact .number text value

/-- The conversion to a type makes a truth value or a number of a text, or nothing. -/
theorem converted_convert (t : SchemaType) (x : Json) : Converted x (t.convert x) := by
  cases x with
  | string text =>
      cases t with
      | boolean => exact converted_getD_bool text _
      | number => exact converted_getD_number text _
      | integer => exact converted_getD_number text _
      | _ => exact .same _
  | _ => exact .same _

theorem get?_rewritten (key : String) (members members' : Ordered Json)
    (h : Rewritten Converted members members') (y : Json)
    (hy : Ordered.get? members' key = some y) :
    ∃ x, Ordered.get? members key = some x ∧ Converted x y := by
  obtain ⟨x, hx, _, hconverted⟩ :=
    exists_get?_of_forall₂ (fun _ _ hab => hab.1) members members' h key y hy
  exact ⟨x, hx, hconverted⟩

/-- A property that has a text after conversions had it before. -/
theorem get?_of_converted (x y : Json) (h : Converted x y) (key text : String)
    (hy : y.get? key = some (.string text)) : x.get? key = some (.string text) := by
  cases y with
  | object members' =>
      rcases object_of_converted x members' h with ⟨members, rfl, hmembers⟩
      rcases get?_rewritten key members members' hmembers _ hy with ⟨value, hvalue, hconverted⟩
      cases hconverted with
      | same => exact hvalue
  | _ => exact absurd hy (by simp only [get?, reduceCtorEq, not_false_eq_true])

end Json

end OpenApi
