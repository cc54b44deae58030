import Mathlib.Data.List.Perm.Subperm
import OpenApi.Proofs.Evaluation.Growth

/-!
# Checks of Grown Instances

What becomes of the keywords that look at an instance as a whole when members
are added inside of it. Most of them cannot tell: a type, a lower bound or a
required member is not lost when an instance grows, and numbers and texts do not
grow. Four of them can, and are called fragile: the two that compare whole
values, the one that compares items with each other, and the upper bound on
members.

In the dialect of JSON Schema `type` is such a keyword as well, because nothing
is converted.

## Main definitions

* `Keyword.isCheck`: The keywords that look at an instance as a whole.
* `Keyword.isFragile`: Those that may reject an instance that has grown.

## Theorems

* `evaluateKeyword_eq_of_check`, `eq_of_check`: A check does not depend on how
  subschemas are evaluated, and returns its instance.
* `evaluateKeyword_of_extends`: A check that is not fragile accepts what has
  grown.
-/

namespace OpenApi

/-- The keywords that accept or reject an instance without subschemas, as JSON Schema
    has them. -/
def Keyword.isCheck : Keyword → Bool
  | .items | .additionalItems | .properties | .additionalProperties => false
  | .discriminator | .allOf | .anyOf | .oneOf | .not => false
  | _ => true

theorem Keyword.isAssertion_or_type (k : Keyword) (hk : k.isCheck = true) :
    k.isAssertion = true ∨ k = .type := by
  cases k with
  | type => exact Or.inr rfl
  | items | additionalItems | properties | additionalProperties => exact absurd hk Bool.false_ne_true
  | discriminator | allOf | anyOf | oneOf | not => exact absurd hk Bool.false_ne_true
  | _ => exact Or.inl rfl

/-- The keywords that look at all an instance has, so that what is added to it
    may matter to them. -/
def Keyword.isFragile : Keyword → Bool
  | .enum | .const | .uniqueItems | .maxProperties => true
  | _ => false

namespace Node

section Grown

variable (n : Node) (path : String)

theorem satisfied_of_accept (kind : ViolationKind) (x : Json) (satisfied : Bool)
    (h : n.accept path kind x satisfied = .ok x) : satisfied = true := by
  unfold accept at h
  split at h
  · assumption
  · cases h

theorem hasTypeAmong_congr (x y : Json) (h : ∀ t : SchemaType, t.admits y = t.admits x)
    (names : List String) : hasTypeAmong y names = hasTypeAmong x names := by
  induction names with
  | nil => rfl
  | cons name rest ih =>
      unfold hasTypeAmong
      split
      · rfl
      · rw [h, ih]

/-- The type of an array or an object is not lost when it grows. -/
theorem checkType_of_admits (x y : Json) (hadmits : ∀ t : SchemaType, t.admits y = t.admits x)
    (h : n.checkType path x = .ok x) : n.checkType path y = .ok y := by
  unfold checkType at h ⊢
  split at h
  · cases h
  · rw [hasTypeAmong_congr x y hadmits]
    split at h
    · cases h
    · rw [n.satisfied_of_accept path .type x _ h]
      rfl

section NotNumber

variable (x : Json) (hx : x.double? = none)

include hx

theorem checkNumber_of_not_number (key : String) (kind : ViolationKind)
    (satisfied : Binary64 → Binary64 → Bool) : n.checkNumber key path kind x satisfied = .ok x := by
  unfold checkNumber
  rw [hx]

theorem checkMaximum_of_not_number : n.checkMaximum path x = .ok x := by
  unfold checkMaximum
  split
  · exact n.checkNumber_of_not_number path x hx _ _ _
  · exact n.checkNumber_of_not_number path x hx _ _ _

theorem checkMinimum_of_not_number : n.checkMinimum path x = .ok x := by
  unfold checkMinimum
  split
  · exact n.checkNumber_of_not_number path x hx _ _ _
  · exact n.checkNumber_of_not_number path x hx _ _ _

end NotNumber

/-- A size passes where a size passed that it is as good as. -/
theorem checkMeasure_of_imp (key : String) (kind : ViolationKind) (x y : Json) (size size' : Nat)
    (satisfied : Nat → Nat → Bool)
    (himp : ∀ limit, satisfied size limit = true → satisfied size' limit = true)
    (h : n.checkMeasure key path kind x (some size) satisfied = .ok x) :
    n.checkMeasure key path kind y (some size') satisfied = .ok y := by
  unfold checkMeasure at h ⊢
  rcases hlimit : (n.get? key).bind Json.nat? with _ | limit
  · rfl
  · rw [hlimit] at h
    change n.accept path kind y (satisfied size' limit) = .ok y
    rw [himp limit (n.satisfied_of_accept path kind x _ h)]
    rfl

/-- Nothing is missing exactly if each name is a key. -/
theorem checkRequired_eq_ok_iff (names : List Json)
    (hnames : n.get? "required" = some (.array names)) (members : Ordered Json) :
    n.checkRequired path (.object members) = .ok (.object members)
      ↔ ∀ name ∈ names.filterMap Json.string?, name ∈ Ordered.keys members := by
  have hmissing : ((names.filterMap Json.string?).filter
      fun name => !Ordered.contains members name).isEmpty = true
        ↔ ∀ name ∈ names.filterMap Json.string?, name ∈ Ordered.keys members := by
    rw [List.isEmpty_iff, List.filter_eq_nil_iff]
    refine forall₂_congr fun name _ => ?_
    rw [Bool.not_eq_true, Bool.not_eq_false', Ordered.contains, Option.isSome_iff_ne_none, Ne,
      Ordered.get?_eq_none_iff, not_not]
  unfold checkRequired
  rw [hnames, ← hmissing]
  dsimp only
  split
  · rename_i hempty
    exact iff_of_true rfl hempty
  · rename_i hempty
    refine iff_of_false (fun h => ?_) hempty
    cases h

theorem checkRequired_of_subset (xs ys : Ordered Json) (hkeys : Ordered.keys xs ⊆ Ordered.keys ys)
    (h : n.checkRequired path (.object xs) = .ok (.object xs)) :
    n.checkRequired path (.object ys) = .ok (.object ys) := by
  by_cases hnames : ∃ names, n.get? "required" = some (.array names)
  · obtain ⟨names, hnames⟩ := hnames
    rw [n.checkRequired_eq_ok_iff path names hnames] at h ⊢
    exact fun name hname => hkeys (h name hname)
  · unfold checkRequired
    split
    · rename_i names _ heq
      exact absurd ⟨_, heq⟩ hnames
    · rfl

end Grown

end Node

namespace Validator

section Checks

variable (v : Validator) (hdialect : v.dialect = .jsonSchema) (evaluate evaluate' : Evaluation)
  (k : Keyword) (hk : k.isCheck = true) (n : Node) (path : String)

include hdialect hk

theorem evaluateKeyword_eq_of_check (x : Json) :
    v.evaluateKeyword evaluate k n path x = v.evaluateKeyword evaluate' k n path x := by
  unfold evaluateKeyword
  rw [hdialect]
  cases k with
  | items | additionalItems | properties | additionalProperties => exact absurd hk Bool.false_ne_true
  | discriminator | allOf | anyOf | oneOf | not => exact absurd hk Bool.false_ne_true
  | _ => rfl

theorem eq_of_check (x y : Json) (h : v.evaluateKeyword evaluate k n path x = .ok y) : x = y := by
  rcases k.isAssertion_or_type hk with hk | rfl
  · have hpromise := v.promises_of_isAssertion True evaluate k hk n path x
    rwa [h] at hpromise
  · have hpromise := n.promises_checkType path x True
    unfold evaluateKeyword at h
    rw [hdialect] at h
    rwa [show n.checkType path x = .ok y from h] at hpromise

variable (hfragile : k.isFragile = false)

include hfragile

/-- An array of the same length is as good. -/
theorem evaluateKeyword_array (xs ys : List Json) (hlength : ys.length = xs.length)
    (h : v.evaluateKeyword evaluate k n path (.array xs) = .ok (.array xs)) :
    v.evaluateKeyword evaluate k n path (.array ys) = .ok (.array ys) := by
  unfold evaluateKeyword at h ⊢
  rw [hdialect] at h ⊢
  -- Checks that are not named here are about numbers, texts or objects.
  cases k with
  | type => exact n.checkType_of_admits path _ _ (fun t => by cases t <;> rfl) h
  | maximum => exact n.checkMaximum_of_not_number path _ rfl
  | minimum => exact n.checkMinimum_of_not_number path _ rfl
  | maxItems =>
      exact n.checkMeasure_of_imp path _ .maxItems _ _ xs.length ys.length _
        (fun limit hlimit => hlength ▸ hlimit) h
  | minItems =>
      exact n.checkMeasure_of_imp path _ .minItems _ _ xs.length ys.length _
        (fun limit hlimit => hlength ▸ hlimit) h
  | enum | const | uniqueItems | maxProperties => exact absurd hfragile.symm Bool.false_ne_true
  | items | additionalItems | properties | additionalProperties => exact absurd hk Bool.false_ne_true
  | discriminator | allOf | anyOf | oneOf | not => exact absurd hk Bool.false_ne_true
  | _ => rfl

/-- An object with more members is as good. -/
theorem evaluateKeyword_object (xs ys : Ordered Json) (hnodup : (Ordered.keys xs).Nodup)
    (hkeys : Ordered.keys xs ⊆ Ordered.keys ys)
    (h : v.evaluateKeyword evaluate k n path (.object xs) = .ok (.object xs)) :
    v.evaluateKeyword evaluate k n path (.object ys) = .ok (.object ys) := by
  have hlength : xs.length ≤ ys.length := by
    have hle := (hnodup.subperm hkeys).length_le
    rwa [Ordered.keys, Ordered.keys, List.length_map, List.length_map] at hle
  unfold evaluateKeyword at h ⊢
  rw [hdialect] at h ⊢
  -- Checks that are not named here are about numbers, texts or arrays.
  cases k with
  | type => exact n.checkType_of_admits path _ _ (fun t => by cases t <;> rfl) h
  | maximum => exact n.checkMaximum_of_not_number path _ rfl
  | minimum => exact n.checkMinimum_of_not_number path _ rfl
  | minProperties =>
      refine n.checkMeasure_of_imp path _ .minProperties _ _ xs.length ys.length _
        (fun limit hlimit => ?_) h
      rw [decide_eq_true_eq] at hlimit ⊢
      exact Nat.le_trans hlimit hlength
  | required => exact n.checkRequired_of_subset path xs ys hkeys h
  | enum | const | uniqueItems | maxProperties => exact absurd hfragile.symm Bool.false_ne_true
  | items | additionalItems | properties | additionalProperties => exact absurd hk Bool.false_ne_true
  | discriminator | allOf | anyOf | oneOf | not => exact absurd hk Bool.false_ne_true
  | _ => rfl

/-- A check that accepts an instance accepts it when it has grown, unless it is
    fragile. -/
theorem evaluateKeyword_of_extends (x y : Json) (hx : x.WellFormed)
    (hextends : Json.Extends false x y)
    (h : v.evaluateKeyword evaluate k n path x = .ok x) :
    v.evaluateKeyword evaluate k n path y = .ok y := by
  cases hextends with
  | same => exact h
  | text text _ hconverts => exact absurd hconverts Bool.false_ne_true
  | items xs ys hlength =>
      exact v.evaluateKeyword_array hdialect evaluate k hk n path hfragile xs ys hlength h
  | members xs ys hkeys =>
      exact v.evaluateKeyword_object hdialect evaluate k hk n path hfragile xs ys
        ((Json.wellFormed_object_iff xs).mp hx).1 hkeys h

end Checks

end Validator

end OpenApi
