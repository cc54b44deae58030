import OpenApi.Proofs.Evaluation.Acceptance
import OpenApi.Proofs.Evaluation.Dialect
import OpenApi.Proofs.Json.Identical

/-!
# Schemas as Boolean Functions

A schema without defaults is a conjunction of its keywords, and the combinators
are the connectives they are named for. Neither is how the evaluation goes: it
hands one instance through the keywords and stops at the first that fails, so a
different order of the keywords might reach an error in a schema that the other
one never came to. Where every keyword and every branch gives a verdict on the
instance by itself, there is no such error, and no keyword changes the instance,
so that only the verdicts count.

Verdicts are given at some depth, and a larger depth does not change them. So
all comparisons are made at a depth that is large enough for the finitely many
keywords and branches of one schema.

## Main definitions

* `Decided`: An outcome is a verdict.
* `ExactlyOne`: One place of a list holds an item with a property, and no other.
* `Validator.DecidesAlone`: Each keyword and each branch gives a verdict.

## Theorems

* `foldlM_decided`: A loop whose steps give verdicts and change nothing.
* `exists_firstAccepted_iff`, `exists_applyOneOf_iff`: Combinators at one depth.
* `rejected_iff_not_accepted`: What gives a verdict rejects or accepts.
* `accepts_iff_keywords`: Keywords are a conjunction in any order, and
  combinators are their connectives.
-/

namespace OpenApi

section Verdicts

variable {α β : Type}

/-- An outcome is a verdict: the instance is accepted or rejected. -/
def Decided (r : Except Failure α) : Prop := (∃ y, r = .ok y) ∨ ∃ w, r = .error (.violation w)

/-- Whether an outcome is a verdict can be told of any. -/
instance (r : Except Failure α) : Decidable (Decided r) :=
  match r with
  | .ok y => .isTrue (Or.inl ⟨y, rfl⟩)
  | .error (.violation w) => .isTrue (Or.inr ⟨w, rfl⟩)
  | .error (.schema _) => .isFalse (by simp only [Decided, reduceCtorEq, Except.error.injEq,
      exists_false, or_self, not_false_eq_true])
  | .error .depth => .isFalse (by simp only [Decided, reduceCtorEq, Except.error.injEq,
      exists_false, or_self, not_false_eq_true])

theorem ne_depth_of_decided (r : Except Failure α) (h : Decided r) : r ≠ .error .depth := by
  rcases h with ⟨y, rfl⟩ | ⟨w, rfl⟩
  · exact fun h => nomatch h
  · exact fun h => nomatch h

/-- A loop whose steps give verdicts and cannot change the state gives one. -/
theorem foldlM_decided (step : β → α → Except Failure β) (state : β) (items : List α)
    (hsame : ∀ item ∈ items, ∀ state', step state item = .ok state' → state' = state)
    (h : ∀ item ∈ items, Decided (step state item)) : Decided (items.foldlM step state) := by
  induction items with
  | nil => exact Or.inl ⟨state, rfl⟩
  | cons first rest ih =>
      rw [List.foldlM_cons]
      rcases h first List.mem_cons_self with ⟨next, hnext⟩ | ⟨w, hw⟩
      · -- The rest of the loop starts from the same state.
        rw [hnext, hsame first List.mem_cons_self next hnext]
        exact ih (fun item hitem => hsame item (List.mem_cons_of_mem first hitem))
          fun item hitem => h item (List.mem_cons_of_mem first hitem)
      · rw [hw]
        exact Or.inr ⟨w, rfl⟩

/-- Where a larger depth keeps verdicts and some depth gives one, an instance is
    rejected at some depth exactly if it is accepted at none. -/
theorem rejected_iff_not_accepted (outcome : Nat → Except Failure α)
    (hbelow : ∀ depth depth', depth ≤ depth' → Below (outcome depth) (outcome depth'))
    (h : ∃ depth, Decided (outcome depth)) :
    (∃ depth w, outcome depth = .error (.violation w))
      ↔ ¬ ∃ depth y, outcome depth = .ok y := by
  constructor
  · rintro ⟨depth, w, hw⟩ ⟨depth', y, hy⟩
    -- Both verdicts would be those of the larger depth.
    have hlarge := eq_of_below _ _ (hbelow depth _ (Nat.le_max_left depth depth'))
      (by rw [hw]; exact fun h => nomatch h)
    have hlarge' := eq_of_below _ _ (hbelow depth' _ (Nat.le_max_right depth depth'))
      (by rw [hy]; exact fun h => nomatch h)
    rw [hw] at hlarge
    rw [hy, ← hlarge] at hlarge'
    exact nomatch hlarge'
  · intro hnone
    obtain ⟨depth, ⟨y, hy⟩ | ⟨w, hw⟩⟩ := h
    · exact absurd ⟨depth, y, hy⟩ hnone
    · exact ⟨depth, w, hw⟩

/-- One place of a list holds an item with a property, and no other place does. -/
def ExactlyOne (P : α → Prop) (items : List α) : Prop :=
  ∃ before item after, items = before ++ item :: after ∧ P item
    ∧ ∀ other ∈ before ++ after, ¬ P other

theorem exactlyOne_congr (P Q : α → Prop) (items : List α) (h : ∀ item ∈ items, P item ↔ Q item) :
    ExactlyOne P items ↔ ExactlyOne Q items := by
  refine exists_congr fun before => exists_congr fun item => exists_congr fun after => ?_
  refine and_congr_right fun hitems => ?_
  rw [hitems] at h
  refine and_congr (h item List.mem_append_cons_self) (forall₂_congr fun other hother => ?_)
  exact not_congr (h other (List.mem_append.mpr
    ((List.mem_append.mp hother).imp_right (List.mem_cons_of_mem item))))

/-- A list has one value left exactly if one place gives a value. -/
theorem exists_filterMap_eq_singleton_iff (f : α → Option β) (items : List α) :
    (∃ value, items.filterMap f = [value]) ↔ ExactlyOne (fun item => ∃ value, f item = some value)
      items := by
  have hnone : ∀ item, ¬ (∃ value, f item = some value) ↔ f item = none := by
    intro item
    rw [Option.eq_none_iff_forall_ne_some, not_exists]
  constructor
  · rintro ⟨value, hvalue⟩
    obtain ⟨before, item, after, rfl, hbefore, hitem, hafter⟩ := List.filterMap_eq_cons_iff.mp hvalue
    refine ⟨before, item, after, rfl, ⟨value, hitem⟩, fun other hother => (hnone other).mpr ?_⟩
    rcases List.mem_append.mp hother with hother | hother
    · exact hbefore other hother
    · exact List.filterMap_eq_nil_iff.mp hafter other hother
  · rintro ⟨before, item, after, rfl, ⟨value, hitem⟩, hothers⟩
    refine ⟨value, List.filterMap_eq_cons_iff.mpr ⟨before, item, after, rfl, ?_, hitem, ?_⟩⟩
    · exact fun other hother => (hnone other).mp (hothers other (List.mem_append_left after hother))
    · exact List.filterMap_eq_nil_iff.mpr fun other hother =>
        (hnone other).mp (hothers other (List.mem_append_right before hother))

end Verdicts

namespace Node

section Combinators

variable (n : Node) (evaluate : Evaluation) (path : String) (x : Json)

/-- Some branch is the first to accept exactly if any of them accepts. -/
theorem exists_firstAccepted_iff (branches : List Node)
    (h : ∀ m ∈ branches, Decided (evaluate m path x)) :
    (∃ y, firstAccepted evaluate path x branches = .ok (.ok y))
      ↔ ∃ m ∈ branches, ∃ y, evaluate m path x = .ok y := by
  induction branches with
  | nil =>
      constructor
      · rintro ⟨y, hy⟩
        cases hy
      · rintro ⟨m, hm, _⟩
        exact absurd hm List.not_mem_nil
  | cons m rest ih =>
      have hrest := ih fun m' hm' => h m' (List.mem_cons_of_mem m hm')
      unfold firstAccepted
      rcases h m List.mem_cons_self with ⟨y, hy⟩ | ⟨w, hw⟩
      · refine iff_of_true ⟨y, ?_⟩ ⟨m, List.mem_cons_self, y, hy⟩
        rw [hy]
        rfl
      · -- Behind a branch that rejects, it is for the rest to accept.
        have hnot : ¬ ∃ y, evaluate m path x = .ok y := by
          rw [hw]
          rintro ⟨y, hy⟩
          cases hy
        rw [hw, List.exists_mem_cons_iff, or_iff_right hnot, ← hrest]
        change (∃ y, (firstAccepted evaluate path x rest >>= fun others =>
          (.ok (others.mapError fun vs => w :: vs) : Except Failure (Except (List Violation) Json)))
            = .ok (.ok y)) ↔ _
        rcases firstAccepted evaluate path x rest with e | others
        · constructor <;> (rintro ⟨y, hy⟩; cases hy)
        · cases others with
          | ok value => exact Iff.rfl
          | error ws => constructor <;> (rintro ⟨y, hy⟩; cases hy)

theorem exists_applyAnyOf_iff (h : ∀ m ∈ n.branches "anyOf", Decided (evaluate m path x)) :
    (∃ y, n.applyAnyOf evaluate path x = .ok y)
      ↔ ∃ m ∈ n.branches "anyOf", ∃ y, evaluate m path x = .ok y := by
  rw [← exists_firstAccepted_iff evaluate path x _ h]
  unfold applyAnyOf
  rcases firstAccepted evaluate path x (n.branches "anyOf") with e | outcome
  · constructor <;> (rintro ⟨y, hy⟩; cases hy)
  · cases outcome with
    | ok value => exact iff_of_true ⟨value, rfl⟩ ⟨value, rfl⟩
    | error ws => constructor <;> (rintro ⟨y, hy⟩; cases hy)

/-- The verdicts of branches have the values of those that accept. -/
theorem exists_verdicts (branches : List Node) (h : ∀ m ∈ branches, Decided (evaluate m path x)) :
    ∃ verdicts, branches.mapM (fun m => verdict (evaluate m path x)) = .ok verdicts
      ∧ verdicts.filterMap Verdict.value?
        = branches.filterMap fun m => (evaluate m path x).toOption := by
  induction branches with
  | nil => exact ⟨[], rfl, rfl⟩
  | cons m rest ih =>
      obtain ⟨verdicts, hverdicts, hvalues⟩ := ih fun m' hm' => h m' (List.mem_cons_of_mem m hm')
      rcases h m List.mem_cons_self with ⟨y, hy⟩ | ⟨w, hw⟩
      · refine ⟨.ok y :: verdicts, ?_, ?_⟩
        · rw [List.mapM_cons, hverdicts, hy]
          rfl
        · simp only [List.filterMap_cons, Verdict.value?, hvalues, hy, Except.toOption]
      · refine ⟨.error w :: verdicts, ?_, ?_⟩
        · rw [List.mapM_cons, hverdicts, hw]
          rfl
        · simp only [List.filterMap_cons, Verdict.value?, hvalues, hw, Except.toOption]

theorem exists_applyOneOf_iff (h : ∀ m ∈ n.branches "oneOf", Decided (evaluate m path x)) :
    (∃ y, n.applyOneOf evaluate path x = .ok y)
      ↔ ExactlyOne (fun m => ∃ y, evaluate m path x = .ok y) (n.branches "oneOf") := by
  obtain ⟨verdicts, hverdicts, hvalues⟩ := exists_verdicts evaluate path x _ h
  have hok : ∀ m, (∃ y, evaluate m path x = .ok y) ↔ ∃ y, (evaluate m path x).toOption = some y := by
    intro m
    rcases evaluate m path x with e | y
    · constructor <;> (rintro ⟨y, hy⟩; cases hy)
    · exact iff_of_true ⟨y, rfl⟩ ⟨y, rfl⟩
  rw [exactlyOne_congr _ _ _ fun m _ => hok m, ← exists_filterMap_eq_singleton_iff, ← hvalues]
  unfold applyOneOf
  rw [hverdicts]
  dsimp only [bind, Except.bind]
  rcases verdicts.filterMap Verdict.value? with _ | ⟨value, _ | ⟨value', rest⟩⟩
  · constructor <;> (rintro ⟨y, hy⟩; cases hy)
  · exact iff_of_true ⟨value, rfl⟩ ⟨value, rfl⟩
  · constructor <;> (rintro ⟨y, hy⟩; cases hy)

theorem exists_applyNot_iff (m : Node) (hm : n.child? ["not"] = some m) :
    (∃ y, n.applyNot evaluate path x = .ok y) ↔ ∃ w, evaluate m path x = .error (.violation w) := by
  unfold applyNot
  rw [hm]
  dsimp only
  rcases evaluate m path x with e | y
  · cases e with
    | schema e => constructor <;> (rintro ⟨z, hz⟩; cases hz)
    | violation w => exact iff_of_true ⟨x, rfl⟩ ⟨w, rfl⟩
    | depth => constructor <;> (rintro ⟨z, hz⟩; cases hz)
  · constructor <;> (rintro ⟨z, hz⟩; cases hz)

end Combinators

end Node

namespace Validator

variable (v : Validator)

section Depths

variable (n : Node) (path : String) (x : Json)

/-- Each keyword of a schema and each branch it chooses among, taken alone, gives
    a verdict: it ends, and meets no error in a schema. -/
structure DecidesAlone : Prop where
  /-- Each keyword gives a verdict. -/
  keyword : ∀ k ∈ v.dialect.keywords, n.has k.name = true →
    ∃ depth, Decided (v.evaluateKeyword (v.evaluateIn depth) k n path x)
  /-- Each branch gives a verdict. -/
  branch : ∀ key ∈ ["anyOf", "oneOf"], ∀ m ∈ n.branches key,
    ∃ depth, Decided (v.evaluateIn depth m path x)

theorem decided_mono (depth depth' : Nat) (hle : depth ≤ depth')
    (h : Decided (v.evaluateIn depth n path x)) : Decided (v.evaluateIn depth' n path x) := by
  have hbelow := v.evaluateIn_below depth depth' hle n path x
  rwa [← eq_of_below _ _ hbelow (ne_depth_of_decided _ h)]

theorem decided_keyword_mono (k : Keyword) (depth depth' : Nat) (hle : depth ≤ depth')
    (h : Decided (v.evaluateKeyword (v.evaluateIn depth) k n path x)) :
    Decided (v.evaluateKeyword (v.evaluateIn depth') k n path x) := by
  have hbelow := v.evaluateKeyword_below _ _ (v.evaluateIn_below depth depth' hle) k n path x
  rwa [← eq_of_below _ _ hbelow (ne_depth_of_decided _ h)]

/-- Where there is a verdict, it is the one that any depth gives. -/
theorem accepts_iff_of_decided (depth : Nat) (h : Decided (v.evaluateIn depth n path x)) :
    v.Accepts n path x ↔ ∃ y, v.evaluateIn depth n path x = .ok y := by
  refine ⟨fun haccepts => ?_, fun ⟨y, hy⟩ => ⟨depth, y, hy⟩⟩
  rcases h with hy | ⟨w, hw⟩
  · exact hy
  · exact absurd ⟨depth, hw⟩ (v.not_rejects_of_accepts n path x haccepts w)

/-- A keyword that applies branches accepts, if it does so at the depths where
    the branches give their verdicts. -/
theorem acceptsKeyword_iff_of_decided (k : Keyword) (branches : List Node)
    (h : ∀ m ∈ branches, ∃ depth, Decided (v.evaluateIn depth m path x)) (P : Prop)
    (hP : ∀ depth, (∀ m ∈ branches, Decided (v.evaluateIn depth m path x)) →
      ((∃ y, v.evaluateKeyword (v.evaluateIn depth) k n path x = .ok y) ↔ P)) :
    v.AcceptsKeyword k n path x ↔ P := by
  obtain ⟨enough, henough⟩ := exists_depth (fun depth m => Decided (v.evaluateIn depth m path x))
    (fun depth depth' m hle hm => v.decided_mono m path x depth depth' hle hm) branches h
  constructor
  · rintro ⟨depth, y, hy⟩
    -- At the larger of both depths the keyword still accepts, and the branches are decided.
    refine (hP (max depth enough) fun m hm => ?_).mp ⟨y, ?_⟩
    · exact v.decided_mono m path x enough _ (Nat.le_max_right depth enough) (henough m hm)
    · exact v.evaluateKeyword_ok_of_le n path x k depth _ (Nat.le_max_left depth enough) y hy
  · intro hholds
    obtain ⟨y, hy⟩ := (hP enough henough).mpr hholds
    exact ⟨enough, y, hy⟩

theorem acceptsKeyword_anyOf_iff
    (h : ∀ m ∈ n.branches "anyOf", ∃ depth, Decided (v.evaluateIn depth m path x)) :
    v.AcceptsKeyword .anyOf n path x ↔ ∃ m ∈ n.branches "anyOf", v.Accepts m path x := by
  refine v.acceptsKeyword_iff_of_decided n path x .anyOf _ h _ fun depth hdecided => ?_
  refine (n.exists_applyAnyOf_iff (v.evaluateIn depth) path x hdecided).trans ?_
  refine exists_congr fun m => and_congr_right fun hm => ?_
  exact (v.accepts_iff_of_decided m path x depth (hdecided m hm)).symm

theorem acceptsKeyword_oneOf_iff (hdialect : v.dialect = .jsonSchema)
    (h : ∀ m ∈ n.branches "oneOf", ∃ depth, Decided (v.evaluateIn depth m path x)) :
    v.AcceptsKeyword .oneOf n path x
      ↔ ExactlyOne (fun m => v.Accepts m path x) (n.branches "oneOf") := by
  refine v.acceptsKeyword_iff_of_decided n path x .oneOf _ h _ fun depth hdecided => ?_
  have hkeyword : v.evaluateKeyword (v.evaluateIn depth) .oneOf n path x
      = n.applyOneOf (v.evaluateIn depth) path x := by
    unfold evaluateKeyword
    rw [hdialect]
  rw [hkeyword, n.exists_applyOneOf_iff (v.evaluateIn depth) path x hdecided]
  exact exactlyOne_congr _ _ _ fun m hm =>
    (v.accepts_iff_of_decided m path x depth (hdecided m hm)).symm

theorem acceptsKeyword_not_iff (m : Node) (hm : n.child? ["not"] = some m) :
    v.AcceptsKeyword .not n path x ↔ ∃ w, v.Rejects m path x w := by
  refine Iff.trans ?_ exists_comm
  exact exists_congr fun depth => n.exists_applyNot_iff (v.evaluateIn depth) path x m hm

end Depths

section Rows

variable (hconvert : v.converts = false)
  (hlacks : ∀ entry ∈ v.registry.documents, entry.2.Lacks "default")
  (n : Node) (hn : v.registry.Holds n) (path : String) (x : Json) (hx : x.WellFormed)

include hconvert hlacks hn hx

/-- Keywords in any row accept at some depth exactly if each of them does. -/
theorem exists_evaluateKeywords_iff (keywords : List Keyword) :
    (∃ depth y, v.evaluateKeywords (v.evaluateIn depth) keywords n path x = .ok y)
      ↔ ∀ k ∈ keywords, n.has k.name = true → v.AcceptsKeyword k n path x := by
  have hrow := fun depth =>
    v.evaluateKeywords_eq_ok_iff hconvert hlacks n hn x hx depth keywords path
  constructor
  · rintro ⟨depth, y, hy⟩ k hk hhas
    exact ⟨depth, x, (hrow depth).mp ⟨y, hy⟩ k hk hhas⟩
  · intro hall
    obtain ⟨depth, hdepth⟩ :=
      v.exists_depth_of_keywords hconvert hlacks n hn x hx path keywords hall
    exact ⟨depth, (hrow depth).mpr hdepth⟩

/-- Keywords that give verdicts alone give one in any row. -/
theorem exists_decided_keywords (keywords : List Keyword)
    (h : ∀ k ∈ keywords, n.has k.name = true →
      ∃ depth, Decided (v.evaluateKeyword (v.evaluateIn depth) k n path x)) :
    ∃ depth, Decided (v.evaluateKeywords (v.evaluateIn depth) keywords n path x) := by
  have hsome : ∀ k ∈ keywords, ∃ depth, n.has k.name = true →
      Decided (v.evaluateKeyword (v.evaluateIn depth) k n path x) := by
    intro k hk
    by_cases hhas : n.has k.name = true
    · obtain ⟨depth, hdepth⟩ := h k hk hhas
      exact ⟨depth, fun _ => hdepth⟩
    · exact ⟨0, fun hc => absurd hc hhas⟩
  obtain ⟨depth, hdepth⟩ := exists_depth (fun depth (k : Keyword) => n.has k.name = true →
      Decided (v.evaluateKeyword (v.evaluateIn depth) k n path x))
    (fun depth depth' k hle hk hhas =>
      v.decided_keyword_mono n path x k depth depth' hle (hk hhas)) keywords hsome
  refine ⟨depth, foldlM_decided _ x _ (fun k _ y hy => ?_) fun k hk => ?_⟩
  · exact v.eq_of_evaluateKeyword hconvert hlacks n hn x hx depth k path y hy
  · obtain ⟨hmem, hhas⟩ := List.mem_filter.mp hk
    exact hdepth k hmem hhas

/-- A dereferenced schema whose keywords and branches give verdicts on an
    instance is a conjunction of its keywords, in whatever order they are
    evaluated, and its combinators are the connectives they are named for. -/
theorem accepts_iff_keywords (hdialect : v.dialect = .jsonSchema)
    (hderef : v.registry.deref n = .ok n) (hobject : ∃ members, n.value = .object members)
    (hexclusion : n.exclusion = none) (hdecides : v.DecidesAlone n path x) :
    v.Decides n path x
    ∧ (v.Accepts n path x
        ↔ ∀ k ∈ v.dialect.keywords, n.has k.name = true → v.AcceptsKeyword k n path x)
    ∧ (∀ keywords, List.Perm keywords v.dialect.keywords →
        ((∃ depth y, v.evaluateKeywords (v.evaluateIn depth) keywords n path x = .ok y)
            ↔ v.Accepts n path x)
        ∧ ((∃ depth w, v.evaluateKeywords (v.evaluateIn depth) keywords n path x
              = .error (.violation w))
            ↔ ∃ w, v.Rejects n path x w))
    ∧ (v.AcceptsKeyword .allOf n path x ↔ ∀ m ∈ n.branches "allOf", v.Accepts m path x)
    ∧ (v.AcceptsKeyword .anyOf n path x ↔ ∃ m ∈ n.branches "anyOf", v.Accepts m path x)
    ∧ (v.AcceptsKeyword .oneOf n path x
        ↔ ExactlyOne (fun m => v.Accepts m path x) (n.branches "oneOf"))
    ∧ ∀ m, n.child? ["not"] = some m →
        (v.AcceptsKeyword .not n path x ↔ ∃ w, v.Rejects m path x w) := by
  have haccepts := v.accepts_iff hconvert hlacks n n hderef hn hobject path x hx
  have hrow := v.exists_evaluateKeywords_iff hconvert hlacks n hn path x hx
  have hverdict := v.exists_decided_keywords hconvert hlacks n hn path x hx
  -- The schema itself is evaluated by the row of the dialect.
  obtain ⟨depth, hdepth⟩ := hverdict v.dialect.keywords hdecides.keyword
  rw [← v.evaluateIn_succ n n hderef hobject depth path x] at hdepth
  have hrejects : (∃ w, v.Rejects n path x w) ↔ ¬ v.Accepts n path x :=
    exists_comm.trans (rejected_iff_not_accepted _ (fun depth depth' hle =>
      v.evaluateIn_below depth depth' hle n path x) ⟨depth + 1, hdepth⟩)
  refine ⟨?_, haccepts, fun keywords hperm => ?_, ?_, ?_, ?_, ?_⟩
  · rcases hdepth with ⟨y, hy⟩ | ⟨w, hw⟩
    · exact Or.inl ⟨depth + 1, y, hy⟩
    · exact Or.inr ⟨w, depth + 1, hw⟩
  · -- Each order has the same keywords, so it accepts together with the one of the dialect.
    have hsame : (∃ depth y, v.evaluateKeywords (v.evaluateIn depth) keywords n path x = .ok y)
        ↔ v.Accepts n path x := by
      rw [hrow, haccepts]
      exact forall_congr' fun k => imp_congr_left hperm.mem_iff
    refine ⟨hsame, ?_⟩
    rw [hrejects, ← hsame]
    refine rejected_iff_not_accepted _ (fun depth depth' hle => v.evaluateKeywords_below _ _
      (v.evaluateIn_below depth depth' hle) keywords n path x) (hverdict keywords fun k hk => ?_)
    exact hdecides.keyword k (hperm.mem_iff.mp hk)
  · rw [v.acceptsKeyword_allOf_iff hconvert hlacks n hn path x hx]
    have hkept : ∀ m, n.isExcluded v.registry m = .ok false := by
      intro m
      unfold Node.isExcluded
      rw [hexclusion]
    simp only [hkept, Except.ok.injEq, Bool.false_eq_true, false_or, true_and]
  · exact v.acceptsKeyword_anyOf_iff n path x (hdecides.branch "anyOf" (by decide))
  · exact v.acceptsKeyword_oneOf_iff n path x hdialect (hdecides.branch "oneOf" (by decide))
  · exact fun m hm => v.acceptsKeyword_not_iff n path x m hm

end Rows

/-- The address of the document with the schema of a contact. -/
def contactAddress : Uri := ⟨"http", some (.ofHost "shop"), .segments ["contact"], none, none⟩

/-- The schema of a contact, with every combinator. -/
def contactSchema : Json :=
  let requires (name : String) : Json := .object [("required", .array [.string name])]
  .object [("type", .string "object"), ("required", .array [.string "name"]),
    ("allOf", .array [.object [("minProperties", .ofInt 1)]]),
    ("anyOf", .array [requires "phone", requires "mail"]),
    ("oneOf", .array [requires "fax", requires "mail"]), ("not", requires "blocked")]

/-- The node of the schema of a contact. -/
def contactNode : Node := ⟨contactSchema, contactAddress, "", contactAddress, none⟩

/-- The evaluation of a contact. -/
def contacts : Validator := strict ⟨[(contactAddress, contactSchema)], [], []⟩ .jsonSchema

/-- A contact with an address for mail. -/
def contact : Json := .object [("name", .string "Ann"), ("mail", .string "ann@shop")]

/-- The keywords may be evaluated the other way round, and `oneOf` has just one
    branch that accepts. -/
theorem accepts_iff_keywords_contact :
    (∃ depth y, contacts.evaluateKeywords (contacts.evaluateIn depth)
        contacts.dialect.keywords.reverse contactNode "" contact = .ok y)
      ∧ ExactlyOne (fun m => contacts.Accepts m "" contact) (contactNode.branches "oneOf") := by
  have hholds : contacts.registry.Holds contactNode :=
    ⟨(contactAddress, contactSchema), List.mem_singleton_self _, Json.mem_parts_self contactSchema⟩
  have hkeyword : ∀ k ∈ contacts.dialect.keywords, contactNode.has k.name = true →
      Decided (contacts.evaluateKeyword (contacts.evaluateIn 2) k contactNode "" contact) := by
    decide +kernel
  have hbranch : ∀ key ∈ ["anyOf", "oneOf"], ∀ m ∈ contactNode.branches key,
      Decided (contacts.evaluateIn 2 m "" contact) := by decide +kernel
  have haccepts : contacts.Accepts contactNode "" contact :=
    ⟨3, contact, eq_ok_of_toOption _ _ (by decide +kernel)⟩
  obtain ⟨_, hkeywords, hrows, _, _, hone, _⟩ := contacts.accepts_iff_keywords rfl (by decide +kernel)
    contactNode hholds "" contact (by decide +kernel) rfl rfl ⟨_, rfl⟩ rfl
    ⟨fun k hk hhas => ⟨2, hkeyword k hk hhas⟩, fun key hkey m hm => ⟨2, hbranch key hkey m hm⟩⟩
  refine ⟨(hrows _ (List.reverse_perm _)).1.mpr haccepts, hone.mp ?_⟩
  exact hkeywords.mp haccepts .oneOf (by decide) (by decide +kernel)

end Validator

end OpenApi
