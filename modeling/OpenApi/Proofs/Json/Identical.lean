import OpenApi.Proofs.Json.Parts
import OpenApi.Registry.Node

/-!
# Identity of Values

Two values are identical when they are the same term: the same members in the
same order, and the same sign of a zero. This is finer than the equality that
instances are compared by. It is what is meant by an instance that comes back
unchanged, and it can be decided, so that nodes can be compared as well.

## Main definitions

* `Json.identical`: Decides identity.

## Theorems

* `identical_iff`: Identical values are equal terms.
-/

namespace OpenApi

namespace Json

mutual

/-- Whether two values are the same term. -/
def identical : Json → Json → Bool
  | .null, .null => true
  | .bool a, .bool b => a == b
  | .number m, .number n => decide (m = n)
  | .string s, .string t => s == t
  | .array xs, .array ys => identicalItems xs ys
  | .object xs, .object ys => identicalMembers xs ys
  | _, _ => false

/-- Whether two lists of values are the same. -/
def identicalItems : List Json → List Json → Bool
  | [], [] => true
  | x :: xs, y :: ys => identical x y && identicalItems xs ys
  | _, _ => false

/-- Whether two lists of members are the same. -/
def identicalMembers : List (String × Json) → List (String × Json) → Bool
  | [], [] => true
  | (k, x) :: xs, (l, y) :: ys => k == l && identical x y && identicalMembers xs ys
  | _, _ => false

end

theorem identicalItems_iff (xs : List Json)
    (h : ∀ x ∈ xs, ∀ y, identical x y = true ↔ x = y) :
    ∀ ys, identicalItems xs ys = true ↔ xs = ys := by
  induction xs with
  | nil =>
      intro ys
      cases ys with
      | nil => simp only [identicalItems]
      | cons y ys => simp only [identicalItems, Bool.false_eq_true, List.nil_eq, reduceCtorEq]
  | cons x xs ih =>
      intro ys
      cases ys with
      | nil => simp only [identicalItems, Bool.false_eq_true, reduceCtorEq]
      | cons y ys =>
          rw [identicalItems, Bool.and_eq_true, List.cons.injEq, h x List.mem_cons_self y,
            ih (fun z hz => h z (List.mem_cons_of_mem x hz)) ys]

theorem identicalMembers_iff (xs : List (String × Json))
    (h : ∀ entry ∈ xs, ∀ y, identical entry.2 y = true ↔ entry.2 = y) :
    ∀ ys, identicalMembers xs ys = true ↔ xs = ys := by
  induction xs with
  | nil =>
      intro ys
      cases ys with
      | nil => simp only [identicalMembers]
      | cons y ys => simp only [identicalMembers, Bool.false_eq_true, List.nil_eq, reduceCtorEq]
  | cons x xs ih =>
      intro ys
      cases ys with
      | nil => simp only [identicalMembers, Bool.false_eq_true, reduceCtorEq]
      | cons y ys =>
          rw [identicalMembers, Bool.and_eq_true, Bool.and_eq_true, List.cons.injEq, Prod.ext_iff,
            h x List.mem_cons_self y.2, ih (fun z hz => h z (List.mem_cons_of_mem x hz)) ys,
            beq_iff_eq]

theorem identical_iff (x : Json) : ∀ y, identical x y = true ↔ x = y := by
  induction x using induct with
  | array xs ih =>
      intro y
      cases y with
      | array ys => rw [identical, identicalItems_iff xs ih ys, array.injEq]
      | _ => simp only [identical, Bool.false_eq_true, reduceCtorEq]
  | object xs ih =>
      intro y
      cases y with
      | object ys => rw [identical, identicalMembers_iff xs ih ys, object.injEq]
      | _ => simp only [identical, Bool.false_eq_true, reduceCtorEq]
  | null =>
      intro y
      cases y with
      | null => simp only [identical]
      | _ => simp only [identical, Bool.false_eq_true, reduceCtorEq]
  | bool a =>
      intro y
      cases y with
      | bool b => rw [identical, beq_iff_eq, bool.injEq]
      | _ => simp only [identical, Bool.false_eq_true, reduceCtorEq]
  | number m =>
      intro y
      cases y with
      | number n => rw [identical, decide_eq_true_eq, number.injEq]
      | _ => simp only [identical, Bool.false_eq_true, reduceCtorEq]
  | string s =>
      intro y
      cases y with
      | string t => rw [identical, beq_iff_eq, string.injEq]
      | _ => simp only [identical, Bool.false_eq_true, reduceCtorEq]

instance : DecidableEq Json := fun x y => decidable_of_iff _ (identical_iff x y)

end Json

deriving instance DecidableEq for Node

end OpenApi
