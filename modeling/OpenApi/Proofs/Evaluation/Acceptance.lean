import OpenApi.Proofs.Evaluation.Depth
import OpenApi.Proofs.Evaluation.Unchanged

/-!
# Acceptance

Whether a schema accepts an instance, whatever the depth that takes. An outcome
other than a lack of depth is the same for all larger depths, so a schema cannot
both accept and reject, and finitely many schemas that each accept at some depth
all accept at one depth.

Where nothing is converted and no schema has a default, all keywords see the
instance as it came. Then the order of the keywords does not matter for
acceptance: a schema accepts exactly if each of its keywords accepts on its own,
`allOf` accepts exactly if each branch is skipped or accepts, and the discriminator
exactly if the selected schema does.

## Main definitions

* `Validator.Accepts`, `Validator.Rejects`: The outcome at some depth.
* `Validator.Decides`: One or the other, and no schema error.
* `Validator.AcceptsKeyword`: A keyword accepts on its own.

## Theorems

* `outcome_unique`, `not_rejects_of_accepts`: There is one outcome.
* `accepts_congr`: References do not matter.
* `accepts_iff`: A schema accepts by its keywords.
* `acceptsKeyword_allOf_iff`, `acceptsKeyword_discriminator_iff`: Keywords
  accept by the schemas they apply.
-/

namespace OpenApi

section Sequences

variable {α β ε : Type}

/-- A loop whose steps leave the state as it is. -/
theorem foldlM_eq_self (step : β → α → Except ε β) (state : β) (items : List α)
    (h : ∀ item ∈ items, step state item = .ok state) : items.foldlM step state = .ok state := by
  induction items with
  | nil => rfl
  | cons first rest ih =>
      rw [List.foldlM_cons, h first List.mem_cons_self]
      exact ih fun item hitem => h item (List.mem_cons_of_mem first hitem)

/-- A loop whose steps cannot change the state ends well exactly if each step does. -/
theorem foldlM_eq_ok_iff (step : β → α → Except ε β) (state : β) (items : List α)
    (h : ∀ item ∈ items, ∀ state', step state item = .ok state' → state' = state) :
    (∃ state', items.foldlM step state = .ok state')
      ↔ ∀ item ∈ items, step state item = .ok state := by
  refine ⟨?_, fun hall => ⟨state, foldlM_eq_self step state items hall⟩⟩
  induction items with
  | nil => exact fun _ item hitem => absurd hitem List.not_mem_nil
  | cons first rest ih =>
      rw [List.foldlM_cons]
      rintro ⟨last, hlast⟩ item hitem
      obtain ⟨next, hnext, htail⟩ := (bind_eq_ok_iff _ _ last).mp hlast
      -- The first step changed nothing, so the rest of the loop starts where this one did.
      have hsame := h first List.mem_cons_self next hnext
      rw [hsame] at hnext htail
      rcases List.mem_cons.mp hitem with rfl | hitem
      · exact hnext
      · exact ih (fun item hitem => h item (List.mem_cons_of_mem first hitem)) ⟨last, htail⟩ item
          hitem

/-- What holds of each item from some depth on holds of all from some depth on. -/
theorem exists_depth (P : Nat → α → Prop)
    (hmono : ∀ depth depth' item, depth ≤ depth' → P depth item → P depth' item)
    (items : List α) (h : ∀ item ∈ items, ∃ depth, P depth item) :
    ∃ depth, ∀ item ∈ items, P depth item := by
  induction items with
  | nil => exact ⟨0, fun item hitem => absurd hitem List.not_mem_nil⟩
  | cons first rest ih =>
      obtain ⟨d, hd⟩ := h first List.mem_cons_self
      obtain ⟨d', hd'⟩ := ih fun item hitem => h item (List.mem_cons_of_mem first hitem)
      -- The larger depth is enough for the first item and for all others.
      refine ⟨max d d', fun item hitem => ?_⟩
      rcases List.mem_cons.mp hitem with rfl | hitem
      · exact hmono d _ item (Nat.le_max_left d d') hd
      · exact hmono d' _ item (Nat.le_max_right d d') (hd' item hitem)

end Sequences

namespace Node

variable (n : Node) (r : Registry) (evaluate : Evaluation) (path : String) (x : Json) (m : Node)

/-- A branch of `allOf` is skipped or accepts. -/
theorem applyMember_eq_ok_iff (y : Json) :
    n.applyMember r evaluate path x m = .ok y
      ↔ (n.isExcluded r m = .ok true ∧ y = x)
        ∨ (n.isExcluded r m = .ok false ∧ evaluate m path x = .ok y) := by
  unfold applyMember
  rcases n.isExcluded r m with e | excluded
  · simp only [bind, Except.bind, reduceCtorEq, false_and, or_self]
  · cases excluded with
    | true =>
        simp only [bind, Except.bind, if_true, Except.ok.injEq, Bool.true_eq_false, true_and,
          false_and, or_false]
        exact eq_comm
    | false =>
        simp only [bind, Except.bind, Bool.false_eq_true, if_false, Except.ok.injEq, false_and,
          true_and, false_or]
        rcases evaluate m path x with e | value
        · cases e with
          | schema e => simp only [verdict, reduceCtorEq]
          | violation w => simp only [verdict, Failure.ofCauses, reduceCtorEq]
          | depth => simp only [verdict, reduceCtorEq]
        · simp only [verdict]

/-- A violation of `allOf` has the violation of one branch as its only cause. -/
theorem exists_of_applyAllOf_violation (w : Violation)
    (h : n.applyAllOf r evaluate path x = .error (.violation w)) :
    ∃ inner, w = ⟨path, n.scope, .allOf, [inner]⟩ := by
  have hreports : Reports (fun w => ∃ inner, w = ⟨path, n.scope, .allOf, [inner]⟩)
      (n.applyAllOf r evaluate path x) := by
    refine reports_foldlM _ (fun _ => True) _ _ (fun _ _ _ _ _ _ => trivial) (fun y m _ _ => ?_) x
      trivial
    refine reports_bind _ _ _ (n.reports_isExcluded _ r m) fun excluded _ => ?_
    cases excluded with
    | true => exact reports_ok _ y
    | false =>
        refine reports_bind _ _ _ (reports_verdict _ _) fun outcome _ => ?_
        cases outcome with
        | ok value => exact reports_ok _ value
        | error inner => exact reports_causes _ _ _ _ _ ⟨inner, rfl⟩
  exact hreports w h

end Node

namespace Validator

variable (v : Validator)

/-- A schema accepts an instance at some depth. -/
def Accepts (n : Node) (path : String) (x : Json) : Prop :=
  ∃ depth y, v.evaluateIn depth n path x = .ok y

/-- A schema rejects an instance at some depth. -/
def Rejects (n : Node) (path : String) (x : Json) (w : Violation) : Prop :=
  ∃ depth, v.evaluateIn depth n path x = .error (.violation w)

/-- An evaluation ends without a schema error. -/
def Decides (n : Node) (path : String) (x : Json) : Prop :=
  v.Accepts n path x ∨ ∃ w, v.Rejects n path x w

/-- A keyword of a schema accepts an instance at some depth. -/
def AcceptsKeyword (k : Keyword) (n : Node) (path : String) (x : Json) : Prop :=
  ∃ depth y, v.evaluateKeyword (v.evaluateIn depth) k n path x = .ok y

section Outcomes

variable (n : Node) (path : String) (x : Json)

/-- Two outcomes at different depths are the same, or one of them is a lack of depth. -/
theorem outcome_unique (depth depth' : Nat) (h : v.evaluateIn depth n path x ≠ .error .depth)
    (h' : v.evaluateIn depth' n path x ≠ .error .depth) :
    v.evaluateIn depth n path x = v.evaluateIn depth' n path x := by
  rcases Nat.le_total depth depth' with hle | hle
  · exact (v.evaluateIn_eq_of_le depth depth' hle n path x h).symm
  · exact v.evaluateIn_eq_of_le depth' depth hle n path x h'

theorem not_rejects_of_accepts (h : v.Accepts n path x) (w : Violation) :
    ¬ v.Rejects n path x w := by
  rintro ⟨depth', hrejects⟩
  obtain ⟨depth, y, haccepts⟩ := h
  have hsame := v.outcome_unique n path x depth depth' (by rw [haccepts]; exact fun h => nomatch h)
    (by rw [hrejects]; exact fun h => nomatch h)
  rw [haccepts, hrejects] at hsame
  exact nomatch hsame

theorem evaluateIn_ok_of_le (depth depth' : Nat) (hle : depth ≤ depth') (y : Json)
    (h : v.evaluateIn depth n path x = .ok y) : v.evaluateIn depth' n path x = .ok y := by
  rw [v.evaluateIn_eq_of_le depth depth' hle n path x (by rw [h]; exact fun h => nomatch h), h]

theorem evaluateIn_violation_of_le (depth depth' : Nat) (hle : depth ≤ depth') (w : Violation)
    (h : v.evaluateIn depth n path x = .error (.violation w)) :
    v.evaluateIn depth' n path x = .error (.violation w) := by
  rw [v.evaluateIn_eq_of_le depth depth' hle n path x (by rw [h]; exact fun h => nomatch h), h]

theorem applyMember_ok_of_le (m : Node) (depth depth' : Nat) (hle : depth ≤ depth') (y : Json)
    (h : n.applyMember v.registry (v.evaluateIn depth) path x m = .ok y) :
    n.applyMember v.registry (v.evaluateIn depth') path x m = .ok y := by
  rw [n.applyMember_eq_ok_iff] at h ⊢
  rcases h with hskip | ⟨hkeep, h⟩
  · exact Or.inl hskip
  · exact Or.inr ⟨hkeep, v.evaluateIn_ok_of_le m path x depth depth' hle y h⟩

theorem evaluateKeyword_ok_of_le (k : Keyword) (depth depth' : Nat) (hle : depth ≤ depth')
    (y : Json) (h : v.evaluateKeyword (v.evaluateIn depth) k n path x = .ok y) :
    v.evaluateKeyword (v.evaluateIn depth') k n path x = .ok y := by
  have hbelow := v.evaluateKeyword_below _ _ (v.evaluateIn_below depth depth' hle) k n path x
  rw [← eq_of_below _ _ hbelow (by rw [h]; exact fun h => nomatch h), h]

/-- Nodes that lead to the same schema have the same outcomes. -/
theorem evaluateIn_congr (m : Node) (h : v.registry.follow n = v.registry.follow m) (depth : Nat) :
    v.evaluateIn depth n path x = v.evaluateIn depth m path x := by
  cases depth with
  | zero => rfl
  | succ depth =>
      unfold evaluateIn evaluateWith
      rw [h]

theorem accepts_congr (t : Node) (h : v.registry.deref n = .ok t) :
    v.Accepts n path x ↔ v.Accepts t path x := by
  have hfollow : v.registry.follow n = v.registry.follow t := by
    rw [(v.registry.follow_eq_ok_iff n t).mpr h,
      (v.registry.follow_eq_ok_iff t t).mpr (v.registry.deref_of_deref n t h)]
  constructor
  · rintro ⟨depth, y, haccepts⟩
    exact ⟨depth, y, (v.evaluateIn_congr n path x t hfollow depth).symm.trans haccepts⟩
  · rintro ⟨depth, y, haccepts⟩
    exact ⟨depth, y, (v.evaluateIn_congr n path x t hfollow depth).trans haccepts⟩

/-- What accepts leads to a schema. -/
theorem exists_deref_of_accepts (h : v.Accepts n path x) : ∃ t, v.registry.deref n = .ok t := by
  obtain ⟨depth, y, haccepts⟩ := h
  rcases depth with _ | depth
  · exact nomatch haccepts
  · unfold evaluateIn evaluateWith at haccepts
    obtain ⟨t, ht, _⟩ := (bind_eq_ok_iff _ _ y).mp haccepts
    exact ⟨t, (v.registry.follow_eq_ok_iff n t).mp ht⟩

end Outcomes

/-- The evaluation of a schema that is an object goes through its keywords. -/
theorem evaluateIn_succ (n t : Node) (ht : v.registry.deref n = .ok t)
    (hobject : ∃ members, t.value = .object members) (depth : Nat) (path : String) (x : Json) :
    v.evaluateIn (depth + 1) n path x
      = v.evaluateKeywords (v.evaluateIn depth) v.dialect.keywords t path x := by
  obtain ⟨members, hobject⟩ := hobject
  exact v.evaluateWith_object _ n t members path x ((v.registry.follow_eq_ok_iff n t).mpr ht) hobject

section Unconverted

variable (hconvert : v.converts = false)
  (hlacks : ∀ entry ∈ v.registry.documents, entry.2.Lacks "default")

include hconvert hlacks

/-- A keyword that accepts an instance returns it. -/
theorem eq_of_evaluateKeyword (n : Node) (hn : v.registry.Holds n) (x : Json) (hx : x.WellFormed)
    (depth : Nat) (k : Keyword) (path : String) (y : Json)
    (h : v.evaluateKeyword (v.evaluateIn depth) k n path x = .ok y) : y = x := by
  have hkeeps := evaluateKeyword_promises Json.rewriting_eq True v (v.evaluateIn depth)
    (fun hconverts => absurd (hconvert.symm.trans hconverts) Bool.false_ne_true) n
    (v.registry.addsNothing_of_lacks hlacks n hn) k path x hx (fun m y₀ y hm hy => ?_)
  · rw [h] at hkeeps
    exact hkeeps.symm
  · -- The subschemas are applied to parts of the instance, since that was not changed before.
    have hmem := Node.mem_parts_of_applies v.registry n m x y₀ hm
    have hy₀ := Json.wellFormed_of_mem_parts x y₀ hx hmem
    exact v.keeps_evaluateIn hconvert hlacks depth m y
      (v.registry.closed_holds.applies _ n m x y₀ hn hm) (hy ▸ hy₀)

theorem eq_of_evaluateIn (n : Node) (hn : v.registry.Holds n) (x : Json) (hx : x.WellFormed)
    (depth : Nat) (path : String) (y : Json) (h : v.evaluateIn depth n path x = .ok y) : y = x := by
  have hkeeps := v.keeps_evaluateIn hconvert hlacks depth n x hn hx path
  rw [h] at hkeeps
  exact hkeeps.symm

/-- Keywords in a row accept exactly if each of them accepts. -/
theorem evaluateKeywords_eq_ok_iff (n : Node) (hn : v.registry.Holds n) (x : Json)
    (hx : x.WellFormed) (depth : Nat) (keywords : List Keyword) (path : String) :
    (∃ y, v.evaluateKeywords (v.evaluateIn depth) keywords n path x = .ok y)
      ↔ ∀ k ∈ keywords, n.has k.name = true →
          v.evaluateKeyword (v.evaluateIn depth) k n path x = .ok x := by
  unfold evaluateKeywords
  rw [foldlM_eq_ok_iff _ x _ fun k _ y hy =>
    v.eq_of_evaluateKeyword hconvert hlacks n hn x hx depth k path y hy]
  constructor
  · exact fun h k hk hhas => h k (List.mem_filter.mpr ⟨hk, hhas⟩)
  · intro h k hk
    obtain ⟨hk, hhas⟩ := List.mem_filter.mp hk
    exact h k hk hhas

/-- One depth is enough for finitely many keywords. -/
theorem exists_depth_of_keywords (n : Node) (hn : v.registry.Holds n) (x : Json)
    (hx : x.WellFormed) (path : String) (keywords : List Keyword)
    (h : ∀ k ∈ keywords, n.has k.name = true → v.AcceptsKeyword k n path x) :
    ∃ depth, ∀ k ∈ keywords, n.has k.name = true →
      v.evaluateKeyword (v.evaluateIn depth) k n path x = .ok x := by
  refine exists_depth (fun depth (k : Keyword) => n.has k.name = true →
      v.evaluateKeyword (v.evaluateIn depth) k n path x = .ok x)
    (fun depth depth' k hle hk hhas =>
      v.evaluateKeyword_ok_of_le n path x k depth depth' hle x (hk hhas)) keywords ?_
  intro k hk
  by_cases hhas : n.has k.name = true
  · obtain ⟨depth, y, hy⟩ := h k hk hhas
    have hsame := v.eq_of_evaluateKeyword hconvert hlacks n hn x hx depth k path y hy
    exact ⟨depth, fun _ => hsame ▸ hy⟩
  · exact ⟨0, fun hc => absurd hc hhas⟩

/-- Keywords that accept do so at any depth that is not too small. -/
theorem evaluateKeywords_of_accepts (n : Node) (hn : v.registry.Holds n) (x : Json)
    (hx : x.WellFormed) (path : String) (keywords : List Keyword)
    (h : ∀ k ∈ keywords, n.has k.name = true → v.AcceptsKeyword k n path x) (depth : Nat) :
    v.evaluateKeywords (v.evaluateIn depth) keywords n path x = .error .depth
      ∨ v.evaluateKeywords (v.evaluateIn depth) keywords n path x = .ok x := by
  obtain ⟨enough, henough⟩ :=
    v.exists_depth_of_keywords hconvert hlacks n hn x hx path keywords h
  have hlarge : v.evaluateKeywords (v.evaluateIn (max depth enough)) keywords n path x = .ok x := by
    refine foldlM_eq_self _ x _ fun k hk => ?_
    obtain ⟨hmem, hhas⟩ := List.mem_filter.mp hk
    exact v.evaluateKeyword_ok_of_le n path x k enough _ (Nat.le_max_right depth enough) x
      (henough k hmem hhas)
  -- The outcome at the given depth is that of the larger one, or there is none yet.
  rcases v.evaluateKeywords_below _ _ (v.evaluateIn_below depth _ (Nat.le_max_left depth enough))
    keywords n path x with hshort | hsame
  · exact Or.inl hshort
  · exact Or.inr (hsame.trans hlarge)

/-- A schema accepts exactly if all its keywords do. -/
theorem accepts_iff (n t : Node) (ht : v.registry.deref n = .ok t) (hholds : v.registry.Holds t)
    (hobject : ∃ members, t.value = .object members) (path : String) (x : Json)
    (hx : x.WellFormed) :
    v.Accepts n path x
      ↔ ∀ k ∈ v.dialect.keywords, t.has k.name = true → v.AcceptsKeyword k t path x := by
  have hstep := fun depth => v.evaluateIn_succ n t ht hobject depth path x
  have hkeywords := fun depth =>
    v.evaluateKeywords_eq_ok_iff hconvert hlacks t hholds x hx depth v.dialect.keywords path
  constructor
  · rintro ⟨depth, y, haccepts⟩ k hk hhas
    rcases depth with _ | depth
    · exact nomatch haccepts
    · rw [hstep] at haccepts
      exact ⟨depth, x, (hkeywords depth).mp ⟨y, haccepts⟩ k hk hhas⟩
  · intro hall
    obtain ⟨depth, hdepth⟩ :=
      v.exists_depth_of_keywords hconvert hlacks t hholds x hx path v.dialect.keywords hall
    obtain ⟨y, hy⟩ := (hkeywords depth).mpr hdepth
    exact ⟨depth + 1, y, (hstep depth).trans hy⟩

/-- `allOf` accepts exactly if each branch is skipped or accepts. -/
theorem acceptsKeyword_allOf_iff (n : Node) (hn : v.registry.Holds n) (path : String) (x : Json)
    (hx : x.WellFormed) :
    v.AcceptsKeyword .allOf n path x
      ↔ ∀ m ∈ n.branches "allOf", n.isExcluded v.registry m = .ok true
          ∨ (n.isExcluded v.registry m = .ok false ∧ v.Accepts m path x) := by
  have hholds : ∀ m ∈ n.branches "allOf", v.registry.Holds m := fun m hm =>
    v.registry.closed_holds.branches _ n m "allOf" hn hm
  -- For one depth this is a loop that cannot change the instance.
  have hfold : ∀ depth, (∃ y, v.evaluateKeyword (v.evaluateIn depth) .allOf n path x = .ok y)
      ↔ ∀ m ∈ n.branches "allOf",
          n.applyMember v.registry (v.evaluateIn depth) path x m = .ok x := by
    intro depth
    refine foldlM_eq_ok_iff _ x (n.branches "allOf") fun m hm y hy => ?_
    rcases (n.applyMember_eq_ok_iff v.registry _ path x m y).mp hy with ⟨_, rfl⟩ | ⟨_, hy⟩
    · rfl
    · exact v.eq_of_evaluateIn hconvert hlacks m (hholds m hm) x hx depth path y hy
  constructor
  · rintro ⟨depth, y, hy⟩ m hm
    have hmember := (hfold depth).mp ⟨y, hy⟩ m hm
    rcases (n.applyMember_eq_ok_iff v.registry _ path x m x).mp hmember with hskip | ⟨hkeep, hx⟩
    · exact Or.inl hskip.1
    · exact Or.inr ⟨hkeep, depth, x, hx⟩
  · -- Every branch accepts at a depth of its own, and the largest of them does for all.
    intro hall
    have hsome : ∀ m ∈ n.branches "allOf", ∃ depth,
        n.applyMember v.registry (v.evaluateIn depth) path x m = .ok x := by
      intro m hm
      rcases hall m hm with hskip | ⟨hkeep, depth, y, hy⟩
      · exact ⟨0, (n.applyMember_eq_ok_iff v.registry _ path x m x).mpr (Or.inl ⟨hskip, rfl⟩)⟩
      · have hsame := v.eq_of_evaluateIn hconvert hlacks m (hholds m hm) x hx depth path y hy
        exact ⟨depth, (n.applyMember_eq_ok_iff v.registry _ path x m x).mpr
          (Or.inr ⟨hkeep, hsame ▸ hy⟩)⟩
    obtain ⟨depth, hdepth⟩ := exists_depth _ (fun depth depth' m hle =>
      v.applyMember_ok_of_le n path x m depth depth' hle x) (n.branches "allOf") hsome
    obtain ⟨y, hy⟩ := (hfold depth).mpr hdepth
    exact ⟨depth, y, hy⟩

end Unconverted

/-- The discriminator accepts exactly if the schema it selects does. -/
theorem acceptsKeyword_discriminator_iff (hdialect : v.dialect = .openApi) (n m target : Node)
    (path : String) (x : Json) (uri : Uri) (hchoice : (n.has "anyOf" || n.has "oneOf") = false)
    (hselected : n.selected path x = .ok uri) (hm : v.registry.node? uri = some m)
    (htarget : v.registry.follow m = .ok target) (hother : target.scope ≠ n.scope) :
    v.AcceptsKeyword .discriminator n path x ↔ v.Accepts (m.excluding n.scope) path x := by
  have hstep : ∀ depth y, v.evaluateKeyword (v.evaluateIn depth) .discriminator n path x = .ok y
      ↔ v.evaluateIn depth (m.excluding n.scope) path x = .ok y := by
    intro depth y
    rw [v.evaluateKeyword_discriminator _ hdialect n m target path x uri hchoice hselected hm
      htarget hother]
    rcases v.evaluateIn depth (m.excluding n.scope) path x with e | value
    · cases e with
      | schema e => exact Iff.rfl
      | violation w => exact iff_of_false (fun h => nomatch h) (fun h => nomatch h)
      | depth => exact Iff.rfl
    · exact Iff.rfl
  exact exists_congr fun depth => exists_congr (hstep depth)

end Validator

end OpenApi
