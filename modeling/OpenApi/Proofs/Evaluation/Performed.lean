import OpenApi.Proofs.Evaluation.Conjunction

/-!
# Evaluations that Keywords Come To

A keyword that applies subschemas comes to their evaluations one after the other, and
not always to all of them: a branch of `anyOf` is evaluated if all in front of it reject,
and a discriminator has to select a schema first. `Performs` lists for every keyword which
evaluations it comes to, given what the ones before ended with. Each clause keeps to the
way that is actually taken.

Two facts make the list what it claims to be. A keyword that comes to an evaluation takes
over its outcome, unless that is a verdict; so nothing on the list is left out. And a
keyword ends alike with any two evaluations that agree on the list; so nothing is missing
there.

## Main definitions

* `Validator.Performs`: A keyword comes to the evaluation of a subschema.
* `Node.PassesOver`: A search for the selected branch goes on behind a branch.

## Theorems

* `mapM_congr_of_reached`, `foldlM_congr_of_reached`: Loops depend on the steps they get to.
* `exists_verdict_iff`, `exists_judge_iff` and its companions: When members are decided.
* `firstAccepted_error`, `chooseBranch_error`: Searches end at what is no verdict.
* `firstAccepted_congr`, `chooseBranch_congr`: They depend on the branches they get to.
* `evaluateKeyword_of_performs`: So a keyword ends at what is no verdict.
* `evaluateKeyword_congr`: And it depends on what it comes to.
-/

namespace OpenApi

section Loops

variable {α β ε : Type}

/-- Loops that collect results end alike if their steps agree as far as the first one
    gets. -/
theorem mapM_congr_of_reached (step step' : α → Except ε β) (items : List α)
    (h : ∀ before item after, items = before ++ item :: after →
      (∀ b ∈ before, ∃ value, step b = .ok value) → step item = step' item) :
    items.mapM step = items.mapM step' := by
  induction items with
  | nil => rfl
  | cons first rest ih =>
      rw [List.mapM_cons, List.mapM_cons, ← h [] first rest rfl nofun]
      rcases hfirst : step first with e | value
      · rfl
      · -- Only now does the first loop get to the others.
        rw [ih fun before item after hrest hbefore => ?_]
        exact h (first :: before) item after (congrArg (List.cons first) hrest)
          (List.forall_mem_cons.mpr ⟨⟨value, hfirst⟩, hbefore⟩)

/-- So do loops that carry a state. -/
theorem foldlM_congr_of_reached (step step' : β → α → Except ε β) (items : List α) :
    ∀ state, (∀ before item after state', items = before ++ item :: after →
      before.foldlM step state = .ok state' → step state' item = step' state' item) →
      items.foldlM step state = items.foldlM step' state := by
  induction items with
  | nil => exact fun _ _ => rfl
  | cons first rest ih =>
      intro state h
      rw [List.foldlM_cons, List.foldlM_cons, ← h [] first rest state rfl rfl]
      rcases hfirst : step state first with e | next
      · rfl
      · -- Both loops go on from the same state.
        refine ih next fun before item after state' hrest hbefore => ?_
        refine h (first :: before) item after state' (congrArg (List.cons first) hrest) ?_
        rw [List.foldlM_cons, hfirst]
        exact hbefore

/-- A loop over the items of an array, each with its place, ends with the first step
    that fails. -/
theorem mapM_zipIdx_error (step : α × Nat → Except ε β) (e : ε) (before : List α) (x : α)
    (after : List α) (hbefore : ∀ (i : Nat) x', before[i]? = some x' →
      ∃ value, step (x', i) = .ok value)
    (hx : step (x, before.length) = .error e) :
    (before ++ x :: after).zipIdx.mapM step = .error e := by
  refine (mapM_eq_error_iff step e _).mpr ⟨before.zipIdx, (x, before.length),
    after.zipIdx (before.length + 1), ?_, fun pair hpair => ?_, hx⟩
  · rw [List.zipIdx_append, List.zipIdx_cons, Nat.zero_add]
  · exact hbefore pair.2 pair.1 (List.mem_zipIdx_iff_getElem?.mp hpair)

theorem mapM_zipIdx_congr (step step' : α × Nat → Except ε β) (items : List α)
    (h : ∀ before x after, items = before ++ x :: after →
      (∀ (i : Nat) x', before[i]? = some x' → ∃ value, step (x', i) = .ok value) →
      step (x, before.length) = step' (x, before.length)) :
    items.zipIdx.mapM step = items.zipIdx.mapM step' := by
  refine mapM_congr_of_reached step step' _ fun pairs pair pairs' hsplit hpairs => ?_
  obtain ⟨before, rest, hitems, rfl, hrest⟩ := List.zipIdx_eq_append_iff.mp hsplit
  obtain ⟨x, after, rfl, rfl, _⟩ := List.zipIdx_eq_cons_iff.mp hrest.symm
  rw [Nat.zero_add]
  exact h before x after hitems fun i x' hx' =>
    hpairs (x', i) (List.mem_zipIdx_iff_getElem?.mpr hx')

theorem exists_verdict_iff (r : Except Failure α) :
    (∃ outcome, verdict r = .ok outcome) ↔ Decided r := by
  constructor
  · rintro ⟨outcome, h⟩
    cases outcome with
    | ok y => exact Or.inl ⟨y, (Node.verdict_eq_ok_iff r y).mp h⟩
    | error w => exact Or.inr ⟨w, (Node.verdict_eq_error_iff r w).mp h⟩
  · rintro (⟨y, rfl⟩ | ⟨w, rfl⟩)
    · exact ⟨.ok y, rfl⟩
    · exact ⟨.error w, rfl⟩

/-- What is no verdict of an outcome is that outcome. -/
theorem eq_of_verdict_eq_error (r : Except Failure α) (failure : Failure)
    (h : verdict r = .error failure) : r = .error failure := by
  rcases r with e | y
  · cases e with
    | schema e => exact congrArg Except.error (Except.error.inj h)
    | violation w => exact nomatch h
    | depth => exact congrArg Except.error (Except.error.inj h)
  · exact nomatch h

end Loops

/-- A branch leads somewhere and is decided, and if that is the schema at `scope` it
    rejects. The search for the branch that a discriminator selects goes on then. -/
def Node.PassesOver (evaluate : Evaluation) (path : String) (x : Json) (r : Registry)
    (scope : String) (b : Node) : Prop :=
  ∃ t, r.follow b = .ok t ∧ Decided (evaluate b path x)
    ∧ (t.scope = scope → ∃ w, evaluate b path x = .error (.violation w))

namespace Validator

variable (v : Validator) (evaluate : Evaluation) (n : Node) (path : String)

/-- On an instance a keyword comes to the evaluation of a subschema, at some path and on
    some value. All evaluations before that one have ended with a value or a violation. -/
inductive Performs : Keyword → Json → Node → String → Json → Prop where
  /-- `items` comes to an item if the ones before are decided. -/
  | item (before : List Json) (x : Json) (after : List Json) (m : Node) :
      n.itemSchema? before.length = some m →
      (∀ (i : Nat) x' m', before[i]? = some x' → n.itemSchema? i = some m' →
        Decided (evaluate m' (Pointer.push path (toString i)) x')) →
      Performs .items (.array (before ++ x :: after)) m
        (Pointer.push path (toString before.length)) x
  /-- `additionalItems` comes to an item that no schema in the list under `items` covers. -/
  | additionalItem (schemas before : List Json) (x : Json) (after : List Json) (m : Node) :
      n.get? "items" = some (.array schemas) → schemas.length ≤ before.length →
      n.isFalse "additionalItems" = false → n.child? ["additionalItems"] = some m →
      (∀ (i : Nat) x', before[i]? = some x' → schemas.length ≤ i →
        Decided (evaluate m (Pointer.push path (toString i)) x')) →
      Performs .additionalItems (.array (before ++ x :: after)) m
        (Pointer.push path (toString before.length)) x
  /-- `properties` comes to a member that it declares once the declarations before are
      dealt with. -/
  | property (declared members : Ordered Json) (before : List String) (name : String)
      (after : List String) (p : Node.Progress) (x : Json) (m : Node) :
      n.get? "properties" = some (.object declared) →
      Ordered.keys declared = before ++ name :: after →
      before.foldlM (n.applyProperty v.registry evaluate path) ⟨members, []⟩ = .ok p →
      Ordered.get? p.members name = some x → n.child? ["properties", name] = some m →
      Performs .properties (.object members) m (Pointer.push path name) x
  /-- `additionalProperties` comes to a member that is not declared. -/
  | additionalProperty (before : Ordered Json) (name : String) (x : Json) (after : Ordered Json)
      (m : Node) :
      n.declares name = false → n.isFalse "additionalProperties" = false →
      n.child? ["additionalProperties"] = some m →
      (∀ entry ∈ before, n.declares entry.1 = false →
        Decided (evaluate m (Pointer.push path entry.1) entry.2)) →
      Performs .additionalProperties (.object (before ++ (name, x) :: after)) m
        (Pointer.push path name) x
  /-- `allOf` comes to a member that is not excluded with what the ones before return. -/
  | member (before : List Node) (m : Node) (after : List Node) (x y : Json) :
      n.branches "allOf" = before ++ m :: after →
      before.foldlM (n.applyMember v.registry evaluate path) x = .ok y →
      n.isExcluded v.registry m = .ok false → Performs .allOf x m path y
  /-- `anyOf` comes to a branch if the ones before reject. -/
  | choice (before : List Node) (m : Node) (after : List Node) (x : Json) :
      n.branches "anyOf" = before ++ m :: after →
      (∀ b ∈ before, ∃ w, evaluate b path x = .error (.violation w)) →
      Performs .anyOf x m path x
  /-- `oneOf` comes to all branches. -/
  | branch (before : List Node) (m : Node) (after : List Node) (x : Json) :
      v.dialect = .jsonSchema ∨ n.has "discriminator" = false →
      n.branches "oneOf" = before ++ m :: after →
      (∀ b ∈ before, Decided (evaluate b path x)) → Performs .oneOf x m path x
  /-- Beside a discriminator it comes to a branch if no selected one before accepts. -/
  | selectedBranch (uri : Uri) (before : List Node) (m target : Node) (after : List Node)
      (x : Json) :
      v.dialect = .openApi → n.has "discriminator" = true → n.selected path x = .ok uri →
      n.branches "oneOf" = before ++ m :: after →
      (∀ b ∈ before, Node.PassesOver evaluate path x v.registry uri.text b) →
      v.registry.follow m = .ok target → Performs .oneOf x m path x
  /-- `not` comes to its schema. -/
  | negation (m : Node) (x : Json) : n.child? ["not"] = some m → Performs .not x m path x
  /-- `discriminator` comes to the schema it selects, unless a combinator beside it does or
      that is the schema with the discriminator. -/
  | selection (uri : Uri) (m target : Node) (x : Json) :
      v.dialect = .openApi → n.has "anyOf" = false → n.has "oneOf" = false →
      n.selected path x = .ok uri → v.registry.node? uri = some m →
      v.registry.follow m = .ok target → target.scope ≠ n.scope →
      Performs .discriminator x (m.excluding n.scope) path x

end Validator

namespace Node

section Members

variable (n : Node) (evaluate evaluate' : Evaluation) (path : String)

theorem exists_judge_iff (schema? : Option Node) (segment : String) (x : Json) :
    (∃ outcome, judge evaluate schema? path segment x = .ok outcome)
      ↔ ∀ m, schema? = some m → Decided (evaluate m (Pointer.push path segment) x) := by
  cases schema? with
  | none => exact iff_of_true ⟨.ok x, rfl⟩ fun m hm => absurd hm.symm (Option.some_ne_none m)
  | some m =>
      refine (exists_verdict_iff _).trans ⟨fun h m' hm' => ?_, fun h => h m rfl⟩
      rwa [← Option.some.inj hm']

theorem judge_congr (schema? : Option Node) (segment : String) (x : Json)
    (h : ∀ m, schema? = some m → evaluate m (Pointer.push path segment) x
      = evaluate' m (Pointer.push path segment) x) :
    judge evaluate schema? path segment x = judge evaluate' schema? path segment x := by
  cases schema? with
  | none => rfl
  | some m => exact congrArg verdict (h m rfl)

/-- A schema that is `false` judges without being evaluated. -/
theorem exists_judgeAdditional_iff (key : String) (kind : ViolationKind) (segment : String)
    (x : Json) :
    (∃ outcome, n.judgeAdditional evaluate key kind path segment x = .ok outcome)
      ↔ (n.isFalse key = false → ∀ m, n.child? [key] = some m →
        Decided (evaluate m (Pointer.push path segment) x)) := by
  unfold judgeAdditional
  cases n.isFalse key with
  | true => exact iff_of_true ⟨_, rfl⟩ fun hfalse => nomatch hfalse
  | false =>
      refine (exists_judge_iff evaluate path _ segment x).trans ?_
      exact ⟨fun h _ => h, fun h => h rfl⟩

theorem judgeAdditional_congr (key : String) (kind : ViolationKind) (segment : String) (x : Json)
    (h : n.isFalse key = false → ∀ m, n.child? [key] = some m →
      evaluate m (Pointer.push path segment) x = evaluate' m (Pointer.push path segment) x) :
    n.judgeAdditional evaluate key kind path segment x
      = n.judgeAdditional evaluate' key kind path segment x := by
  unfold judgeAdditional
  cases hfalse : n.isFalse key with
  | true => rfl
  | false => exact judge_congr evaluate evaluate' path _ segment x (h hfalse)

/-- Nothing is asked about a member that `properties` declares. -/
theorem exists_judgeUndeclared_iff (name : String) (x : Json) :
    (∃ outcome, n.judgeUndeclared evaluate path name x = .ok outcome)
      ↔ (n.declares name = false → n.isFalse "additionalProperties" = false →
        ∀ m, n.child? ["additionalProperties"] = some m →
          Decided (evaluate m (Pointer.push path name) x)) := by
  unfold judgeUndeclared
  cases n.declares name with
  | true => exact iff_of_true ⟨_, rfl⟩ fun hdeclares => nomatch hdeclares
  | false =>
      refine (n.exists_judgeAdditional_iff evaluate path _ _ name x).trans ?_
      exact ⟨fun h _ => h, fun h => h rfl⟩

theorem judgeUndeclared_congr (name : String) (x : Json)
    (h : n.declares name = false → n.isFalse "additionalProperties" = false →
      ∀ m, n.child? ["additionalProperties"] = some m →
        evaluate m (Pointer.push path name) x = evaluate' m (Pointer.push path name) x) :
    n.judgeUndeclared evaluate path name x = n.judgeUndeclared evaluate' path name x := by
  unfold judgeUndeclared
  cases hdeclares : n.declares name with
  | true => rfl
  | false => exact n.judgeAdditional_congr evaluate evaluate' path _ _ name x (h hdeclares)

end Members

section Branches

variable (evaluate evaluate' : Evaluation) (path : String) (x : Json)

/-- The search for a branch that accepts ends with the first one that is not decided. -/
theorem firstAccepted_error (failure : Failure) (before : List Node) (m : Node)
    (after : List Node) (hbefore : ∀ b ∈ before, ∃ w, evaluate b path x = .error (.violation w))
    (hm : verdict (evaluate m path x) = .error failure) :
    firstAccepted evaluate path x (before ++ m :: after) = .error failure := by
  induction before with
  | nil =>
      rw [List.nil_append, firstAccepted, hm]
      rfl
  | cons b rest ih =>
      obtain ⟨⟨w, hw⟩, hrest⟩ := List.forall_mem_cons.mp hbefore
      rw [List.cons_append, firstAccepted, hw]
      change (firstAccepted evaluate path x (rest ++ m :: after) >>= _) = _
      rw [ih hrest]
      rfl

theorem firstAccepted_congr (branches : List Node)
    (h : ∀ before m after, branches = before ++ m :: after →
      (∀ b ∈ before, ∃ w, evaluate b path x = .error (.violation w)) →
      evaluate m path x = evaluate' m path x) :
    firstAccepted evaluate path x branches = firstAccepted evaluate' path x branches := by
  induction branches with
  | nil => rfl
  | cons b rest ih =>
      unfold firstAccepted
      rw [← h [] b rest rfl fun b' hb' => absurd hb' List.not_mem_nil]
      rcases houtcome : evaluate b path x with failure | y
      · cases failure with
        | schema e => rfl
        | violation w =>
            -- The search goes on behind a branch that rejects, and only there.
            rw [ih fun before m after hrest hbefore => ?_]
            exact h (b :: before) m after (congrArg (List.cons b) hrest)
              (List.forall_mem_cons.mpr ⟨⟨w, houtcome⟩, hbefore⟩)
        | depth => rfl
      · rfl

/-- All branches are evaluated where exactly one has to accept. -/
theorem applyOneOf_error (n : Node) (failure : Failure) (before : List Node) (m : Node)
    (after : List Node) (hbranches : n.branches "oneOf" = before ++ m :: after)
    (hbefore : ∀ b ∈ before, Decided (evaluate b path x))
    (hm : verdict (evaluate m path x) = .error failure) :
    n.applyOneOf evaluate path x = .error failure := by
  refine (bind_eq_error_iff _ _ failure).mpr (Or.inl ((mapM_eq_error_iff _ failure _).mpr
    ⟨before, m, after, hbranches, fun b hb => ?_, hm⟩))
  exact (exists_verdict_iff _).mpr (hbefore b hb)

theorem applyOneOf_congr (n : Node)
    (h : ∀ before m after, n.branches "oneOf" = before ++ m :: after →
      (∀ b ∈ before, Decided (evaluate b path x)) → evaluate m path x = evaluate' m path x) :
    n.applyOneOf evaluate path x = n.applyOneOf evaluate' path x := by
  unfold applyOneOf
  rw [mapM_congr_of_reached _ (fun m => verdict (evaluate' m path x)) _
    fun before m after hsplit hbefore => ?_]
  exact congrArg verdict (h before m after hsplit fun b hb =>
    (exists_verdict_iff _).mp (hbefore b hb))

variable (r : Registry) (scope : String)

/-- The search for the selected branch ends there as well, if it gets that far. -/
theorem chooseBranch_error (failure : Failure) (before : List Node) (m target : Node)
    (after : List Node) (hbefore : ∀ b ∈ before, PassesOver evaluate path x r scope b)
    (htarget : r.follow m = .ok target) (hm : verdict (evaluate m path x) = .error failure) :
    ∀ known : Choice, chooseBranch r evaluate scope path x (before ++ m :: after) known
      = .error failure := by
  induction before with
  | nil =>
      intro known
      rw [List.nil_append, chooseBranch, htarget, hm]
      rfl
  | cons b rest ih =>
      intro known
      obtain ⟨⟨t, ht, hdecided, hselected⟩, hrest⟩ := List.forall_mem_cons.mp hbefore
      rw [List.cons_append, chooseBranch, ht]
      rcases hdecided with ⟨y, hy⟩ | ⟨w, hw⟩
      · -- A selected branch that accepted would have ended the search.
        have hother : t.scope ≠ scope := by
          intro hscope
          obtain ⟨w, hw⟩ := hselected hscope
          exact nomatch hy.symm.trans hw
        rw [hy]
        change (if t.scope = scope then _ else _) = _
        rw [if_neg hother]
        exact ih hrest _
      · rw [hw]
        exact ih hrest _

theorem chooseBranch_congr (branches : List Node)
    (h : ∀ before m after target, branches = before ++ m :: after →
      (∀ b ∈ before, PassesOver evaluate path x r scope b) → r.follow m = .ok target →
      evaluate m path x = evaluate' m path x) :
    ∀ known : Choice, chooseBranch r evaluate scope path x branches known
      = chooseBranch r evaluate' scope path x branches known := by
  induction branches with
  | nil => exact fun _ => rfl
  | cons b rest ih =>
      intro known
      unfold chooseBranch
      rcases ht : r.follow b with failure | t
      · rfl
      · rw [← h [] b rest t rfl (fun b' hb' => absurd hb' List.not_mem_nil) ht]
        -- What is known by now does not matter for the others.
        have hrest : PassesOver evaluate path x r scope b → ∀ known : Choice,
            chooseBranch r evaluate scope path x rest known
              = chooseBranch r evaluate' scope path x rest known := by
          intro hb
          refine ih fun before m after target hsplit hbefore htarget => ?_
          exact h (b :: before) m after target (congrArg (List.cons b) hsplit)
            (List.forall_mem_cons.mpr ⟨hb, hbefore⟩) htarget
        rcases houtcome : evaluate b path x with failure | y
        · cases failure with
          | schema e => rfl
          | violation w =>
              exact hrest ⟨t, ht, Or.inr ⟨w, houtcome⟩, fun _ => ⟨w, houtcome⟩⟩ _
          | depth => rfl
        · change (if t.scope = scope then _ else _) = (if t.scope = scope then _ else _)
          by_cases hscope : t.scope = scope
          · rw [if_pos hscope, if_pos hscope]
          · rw [if_neg hscope, if_neg hscope]
            exact hrest ⟨t, ht, Or.inl ⟨y, houtcome⟩, fun hsame => absurd hsame hscope⟩ _

end Branches

end Node

namespace Validator

section Met

/-! Whatever a keyword comes to is its outcome, unless it is a verdict. -/

variable (v : Validator) (evaluate : Evaluation) (n m : Node) (path q : String) (x y : Json)
  (failure : Failure) (hverdict : verdict (evaluate m q y) = .error failure)

include hverdict

theorem applyItems_of_performs (h : v.Performs evaluate n path .items x m q y) :
    n.applyItems evaluate path x = .error failure := by
  cases h with
  | item before _ after _ hm hbefore =>
      refine (bind_eq_error_iff _ _ failure).mpr
        (Or.inl (mapM_zipIdx_error _ failure before y after (fun i x' hx' => ?_) ?_))
      · exact (Node.exists_judge_iff evaluate path _ _ x').mpr fun m' hm' => hbefore i x' m' hx' hm'
      · dsimp only
        rw [hm]
        exact hverdict

theorem applyAdditionalItems_of_performs
    (h : v.Performs evaluate n path .additionalItems x m q y) :
    n.applyAdditionalItems evaluate path x = .error failure := by
  cases h with
  | additionalItem schemas before _ after _ hschemas hbehind hallowed hm hbefore =>
      unfold Node.applyAdditionalItems
      rw [hschemas]
      refine (bind_eq_error_iff _ _ failure).mpr
        (Or.inl (mapM_zipIdx_error _ failure before y after (fun i x' hx' => ?_) ?_))
      · -- Items that the list covers are handed on, and those behind it are decided.
        dsimp only
        by_cases hcovered : i < schemas.length
        · exact ⟨.ok x', if_pos hcovered⟩
        · rw [if_neg hcovered]
          refine (n.exists_judgeAdditional_iff evaluate path _ _ _ x').mpr fun _ m' hm' => ?_
          rw [← Option.some.inj (hm.symm.trans hm')]
          exact hbefore i x' hx' (Nat.not_lt.mp hcovered)
      · dsimp only
        rw [if_neg (Nat.not_lt.mpr hbehind), Node.judgeAdditional, hallowed, hm]
        exact hverdict

theorem applyProperties_of_performs (h : v.Performs evaluate n path .properties x m q y) :
    n.applyProperties v.registry evaluate path x = .error failure := by
  cases h with
  | property declared members before name after p _ _ hdeclared hnames hloop hx hm =>
      -- The member is still there when the loop comes to its name.
      have hstep : n.applyProperty v.registry evaluate path p name = .error failure := by
        unfold Node.applyProperty
        rw [hm]
        dsimp only
        rw [hx]
        change (verdict (evaluate m (Pointer.push path name) y) >>= _) = _
        rw [hverdict]
        rfl
      rw [n.applyProperties_eq v.registry evaluate path declared hdeclared]
      exact (bind_eq_error_iff _ _ failure).mpr (Or.inl ((foldlM_eq_error_iff _ failure _ _).mpr
        ⟨before, name, after, p, hnames, hloop, hstep⟩))

theorem applyAdditionalProperties_of_performs
    (h : v.Performs evaluate n path .additionalProperties x m q y) :
    n.applyAdditionalProperties evaluate path x = .error failure := by
  cases h with
  | additionalProperty before name _ after _ hother hallowed hm hbefore =>
      have hstep : n.judgeUndeclared evaluate path name y = .error failure := by
        unfold Node.judgeUndeclared
        rw [hother, if_neg Bool.false_ne_true, Node.judgeAdditional, hallowed, hm]
        exact hverdict
      rw [n.applyAdditionalProperties_eq]
      -- A step puts the name back beside the verdict, so it fails where the verdict does.
      refine (bind_eq_error_iff _ _ failure).mpr (Or.inl ((mapM_eq_error_iff _ failure _).mpr
        ⟨before, (name, y), after, rfl, fun entry hentry => ?_, ?_⟩))
      · obtain ⟨outcome, houtcome⟩ :=
          (n.exists_judgeUndeclared_iff evaluate path entry.1 entry.2).mpr fun hentry' _ m' hm' => by
            rw [← Option.some.inj (hm.symm.trans hm')]
            exact hbefore entry hentry hentry'
        exact ⟨_, (bind_eq_ok_iff _ _ _).mpr ⟨outcome, houtcome, rfl⟩⟩
      · exact (bind_eq_error_iff _ _ failure).mpr (Or.inl hstep)

theorem applyAllOf_of_performs (h : v.Performs evaluate n path .allOf x m q y) :
    n.applyAllOf v.registry evaluate path x = .error failure := by
  cases h with
  | member before _ after _ _ hbranches hloop hkept =>
      refine (foldlM_eq_error_iff _ failure _ x).mpr ⟨before, m, after, y, hbranches, hloop, ?_⟩
      unfold Node.applyMember
      rw [hkept]
      change (verdict (evaluate m path y) >>= _) = _
      rw [hverdict]
      rfl

theorem applyAnyOf_of_performs (h : v.Performs evaluate n path .anyOf x m q y) :
    n.applyAnyOf evaluate path x = .error failure := by
  cases h with
  | choice before _ after _ hbranches hbefore =>
      unfold Node.applyAnyOf
      rw [hbranches, Node.firstAccepted_error evaluate path x failure before m after hbefore hverdict]
      rfl

theorem evaluateKeyword_oneOf_of_performs (h : v.Performs evaluate n path .oneOf x m q y) :
    v.evaluateKeyword evaluate .oneOf n path x = .error failure := by
  unfold evaluateKeyword
  cases h with
  | branch before _ after _ hplain hbranches hbefore =>
      have hone := n.applyOneOf_error evaluate path x failure before m after hbranches hbefore
        hverdict
      -- Both dialects choose among the branches alike if nothing selects one.
      cases hdialect : v.dialect with
      | jsonSchema => exact hone
      | openApi =>
          rcases hplain with hjson | hnone
          · exact nomatch hjson.symm.trans hdialect
          · dsimp only
            rw [hnone]
            exact hone
  | selectedBranch uri before _ target after _ hdialect hdiscriminator huri hbranches hbefore
      htarget =>
      rw [hdialect]
      dsimp only
      rw [hdiscriminator, if_pos rfl]
      unfold Node.applySelectedOneOf
      have hchoice := Node.chooseBranch_error evaluate path x v.registry uri.text failure before m
        target after hbefore htarget hverdict ⟨none, []⟩
      rw [← hbranches] at hchoice
      exact (bind_eq_error_iff _ _ failure).mpr
        (Or.inr ⟨uri, huri, (bind_eq_error_iff _ _ failure).mpr (Or.inl hchoice)⟩)

theorem applyNot_of_performs (h : v.Performs evaluate n path .not x m q y) :
    n.applyNot evaluate path x = .error failure := by
  cases h with
  | negation _ _ hm =>
      unfold Node.applyNot
      rw [hm]
      change (verdict (evaluate m path x) >>= _) = _
      rw [hverdict]
      rfl

theorem applyDiscriminator_of_performs
    (h : v.Performs evaluate n path .discriminator x m q y) :
    n.applyDiscriminator v.registry evaluate path x = .error failure := by
  cases h with
  | selection uri m target _ hdialect hanyOf honeOf huri hfound htarget hscope =>
      unfold Node.applyDiscriminator
      rw [huri, hanyOf, honeOf]
      simp only [bind, Except.bind, Bool.or_self, Bool.false_eq_true, if_false, hfound, htarget,
        if_neg hscope, hverdict]

/-- A keyword that comes to an evaluation without a verdict ends as that does. -/
theorem evaluateKeyword_of_performs (k : Keyword) (h : v.Performs evaluate n path k x m q y) :
    v.evaluateKeyword evaluate k n path x = .error failure := by
  cases k with
  | items => exact v.applyItems_of_performs evaluate n m path q x y failure hverdict h
  | additionalItems =>
      exact v.applyAdditionalItems_of_performs evaluate n m path q x y failure hverdict h
  | properties => exact v.applyProperties_of_performs evaluate n m path q x y failure hverdict h
  | additionalProperties =>
      exact v.applyAdditionalProperties_of_performs evaluate n m path q x y failure hverdict h
  | allOf => exact v.applyAllOf_of_performs evaluate n m path q x y failure hverdict h
  | anyOf => exact v.applyAnyOf_of_performs evaluate n m path q x y failure hverdict h
  | oneOf => exact v.evaluateKeyword_oneOf_of_performs evaluate n m path q x y failure hverdict h
  | not => exact v.applyNot_of_performs evaluate n m path q x y failure hverdict h
  | discriminator =>
      have hdialect : v.dialect = .openApi := by
        cases h with
        | selection _ _ _ _ hdialect _ _ _ _ _ _ => exact hdialect
      unfold evaluateKeyword
      rw [hdialect]
      exact v.applyDiscriminator_of_performs evaluate n m path q x y failure hverdict h
  -- The other keywords come to nothing.
  | _ => cases h

end Met

section Unmet

/-! What a keyword does not come to has no influence on its outcome. -/

variable (v : Validator) (evaluate evaluate' : Evaluation) (n : Node) (path : String) (x : Json)

theorem applyItems_congr (h : ∀ m q y, v.Performs evaluate n path .items x m q y →
    evaluate m q y = evaluate' m q y) :
    n.applyItems evaluate path x = n.applyItems evaluate' path x := by
  cases x with
  | array items =>
      refine congrArg (· >>= _) (mapM_zipIdx_congr _ _ items fun before x after hitems hbefore => ?_)
      refine Node.judge_congr evaluate evaluate' path _ _ x fun m hm => h m _ x ?_
      rw [hitems]
      refine .item before x after m hm fun i x' m' hx' hm' => ?_
      exact (Node.exists_judge_iff evaluate path _ _ x').mp (hbefore i x' hx') m' hm'
  | _ => rfl

theorem applyAdditionalItems_congr
    (h : ∀ m q y, v.Performs evaluate n path .additionalItems x m q y →
      evaluate m q y = evaluate' m q y) :
    n.applyAdditionalItems evaluate path x = n.applyAdditionalItems evaluate' path x := by
  by_cases hlist : (∃ items, x = .array items) ∧ ∃ tuple, n.get? "items" = some (.array tuple)
  · obtain ⟨⟨items, rfl⟩, tuple, htuple⟩ := hlist
    unfold Node.applyAdditionalItems
    rw [htuple]
    refine congrArg (· >>= _) (mapM_zipIdx_congr _ _ items fun before x after hitems hbefore => ?_)
    dsimp only at hbefore ⊢
    -- Nothing is evaluated for an item that the list covers.
    by_cases hcovered : before.length < tuple.length
    · rw [if_pos hcovered, if_pos hcovered]
    · rw [if_neg hcovered, if_neg hcovered]
      refine n.judgeAdditional_congr evaluate evaluate' path _ _ _ x fun hallowed m hm => h m _ x ?_
      rw [hitems]
      refine .additionalItem tuple before x after m htuple (Nat.not_lt.mp hcovered) hallowed hm
        fun i x' hx' hbehind => ?_
      have hjudged := hbefore i x' hx'
      rw [if_neg (Nat.not_lt.mpr hbehind)] at hjudged
      exact (n.exists_judgeAdditional_iff evaluate path _ _ _ x').mp hjudged hallowed m hm
  · rw [n.applyAdditionalItems_of_not_array evaluate path x hlist,
      n.applyAdditionalItems_of_not_array evaluate' path x hlist]

theorem applyProperties_congr (h : ∀ m q y, v.Performs evaluate n path .properties x m q y →
    evaluate m q y = evaluate' m q y) :
    n.applyProperties v.registry evaluate path x = n.applyProperties v.registry evaluate' path x := by
  by_cases hobject : (∃ members, x = .object members)
      ∧ ∃ declared, n.get? "properties" = some (.object declared)
  · obtain ⟨⟨members, rfl⟩, declared, hdeclared⟩ := hobject
    rw [n.applyProperties_eq v.registry evaluate path declared hdeclared,
      n.applyProperties_eq v.registry evaluate' path declared hdeclared]
    -- The loops are the same as long as the evaluations that they reach are, and so is what
    -- follows.
    refine congrArg (· >>= _)
      (foldlM_congr_of_reached _ _ _ _ fun before name after p hnames hloop => ?_)
    unfold Node.applyProperty
    rcases hm : n.child? ["properties", name] with _ | m
    · rfl
    · dsimp only
      rcases hx : Ordered.get? p.members name with _ | x
      · rfl
      · have hsame := h m _ x (.property declared members before name after p x m hdeclared hnames
          hloop hx hm)
        dsimp only [Node.judge]
        rw [hsame]
  · rw [n.applyProperties_of_not_object v.registry evaluate path x hobject,
      n.applyProperties_of_not_object v.registry evaluate' path x hobject]

theorem applyAdditionalProperties_congr
    (h : ∀ m q y, v.Performs evaluate n path .additionalProperties x m q y →
      evaluate m q y = evaluate' m q y) :
    n.applyAdditionalProperties evaluate path x = n.applyAdditionalProperties evaluate' path x := by
  cases x with
  | object members =>
      rw [n.applyAdditionalProperties_eq, n.applyAdditionalProperties_eq]
      refine congrArg (· >>= _)
        (mapM_congr_of_reached _ _ members fun before entry after hmembers hbefore => ?_)
      refine congrArg (· >>= _) (n.judgeUndeclared_congr evaluate evaluate' path entry.1 entry.2
        fun hother hallowed m hm => h m _ entry.2 ?_)
      rw [hmembers]
      refine .additionalProperty before entry.1 entry.2 after m hother hallowed hm
        fun entry' hentry' hother' => ?_
      obtain ⟨value, hvalue⟩ := hbefore entry' hentry'
      obtain ⟨outcome, houtcome, _⟩ := (bind_eq_ok_iff _ _ value).mp hvalue
      exact (n.exists_judgeUndeclared_iff evaluate path entry'.1 entry'.2).mp ⟨outcome, houtcome⟩
        hother' hallowed m hm
  | _ => rfl

theorem applyAllOf_congr (h : ∀ m q y, v.Performs evaluate n path .allOf x m q y →
    evaluate m q y = evaluate' m q y) :
    n.applyAllOf v.registry evaluate path x = n.applyAllOf v.registry evaluate' path x := by
  refine foldlM_congr_of_reached _ _ _ x fun before m after y hbranches hloop => ?_
  unfold Node.applyMember
  rcases hkept : n.isExcluded v.registry m with failure | excluded
  · rfl
  · cases excluded with
    | true => rfl
    | false => rw [h m path y (.member before m after x y hbranches hloop hkept)]

theorem applyNot_congr (h : ∀ m q y, v.Performs evaluate n path .not x m q y →
    evaluate m q y = evaluate' m q y) :
    n.applyNot evaluate path x = n.applyNot evaluate' path x := by
  unfold Node.applyNot
  rcases hm : n.child? ["not"] with _ | m
  · rfl
  · dsimp only
    rw [h m path x (.negation m x hm)]

theorem applyDiscriminator_congr (hdialect : v.dialect = .openApi)
    (h : ∀ m q y, v.Performs evaluate n path .discriminator x m q y →
      evaluate m q y = evaluate' m q y) :
    n.applyDiscriminator v.registry evaluate path x
      = n.applyDiscriminator v.registry evaluate' path x := by
  -- What is in front of the evaluation goes the same way on both sides.
  unfold Node.applyDiscriminator
  rcases huri : n.selected path x with failure | uri
  · rfl
  · change (if _ then _ else _) = (if _ then _ else _)
    by_cases hbeside : (n.has "anyOf" || n.has "oneOf") = true
    · rw [if_pos hbeside, if_pos hbeside]
    · rw [if_neg hbeside, if_neg hbeside]
      obtain ⟨hanyOf, honeOf⟩ := Bool.or_eq_false_iff.mp (eq_false_of_ne_true hbeside)
      rcases hfound : v.registry.node? uri with _ | m
      · rfl
      · dsimp only
        rcases htarget : v.registry.follow m with failure | target
        · rfl
        · change (if _ then _ else _) = (if _ then _ else _)
          by_cases hscope : target.scope = n.scope
          · rw [if_pos hscope, if_pos hscope]
          · rw [if_neg hscope, if_neg hscope, h (m.excluding n.scope) path x
              (.selection uri m target x hdialect hanyOf honeOf huri hfound htarget hscope)]

theorem evaluateKeyword_oneOf_congr (h : ∀ m q y, v.Performs evaluate n path .oneOf x m q y →
    evaluate m q y = evaluate' m q y) :
    v.evaluateKeyword evaluate .oneOf n path x = v.evaluateKeyword evaluate' .oneOf n path x := by
  have hplain : v.dialect = .jsonSchema ∨ n.has "discriminator" = false →
      n.applyOneOf evaluate path x = n.applyOneOf evaluate' path x := fun hplain =>
    n.applyOneOf_congr evaluate evaluate' path x fun before m after hbranches hbefore =>
      h m path x (.branch before m after x hplain hbranches hbefore)
  unfold evaluateKeyword
  cases hdialect : v.dialect with
  | jsonSchema => exact hplain (Or.inl hdialect)
  | openApi =>
      dsimp only
      cases hdiscriminator : n.has "discriminator" with
      | false => exact hplain (Or.inr hdiscriminator)
      | true =>
          rw [if_pos rfl, if_pos rfl]
          unfold Node.applySelectedOneOf
          rcases huri : n.selected path x with failure | uri
          · rfl
          · -- Both sides go on alike with what they chose.
            change (Node.chooseBranch v.registry evaluate uri.text path x _ _ >>= _)
              = (Node.chooseBranch v.registry evaluate' uri.text path x _ _ >>= _)
            rw [Node.chooseBranch_congr evaluate evaluate' path x v.registry uri.text _
              fun before m after target hbranches hbefore htarget => h m path x
                (.selectedBranch uri before m target after x hdialect hdiscriminator huri hbranches
                  hbefore htarget)]

/-- The outcome of a keyword depends on those of the evaluations that it comes to. -/
theorem evaluateKeyword_congr (k : Keyword) (h : ∀ m q y, v.Performs evaluate n path k x m q y →
    evaluate m q y = evaluate' m q y) :
    v.evaluateKeyword evaluate k n path x = v.evaluateKeyword evaluate' k n path x := by
  cases k with
  | items => exact v.applyItems_congr evaluate evaluate' n path x h
  | additionalItems => exact v.applyAdditionalItems_congr evaluate evaluate' n path x h
  | properties => exact v.applyProperties_congr evaluate evaluate' n path x h
  | additionalProperties => exact v.applyAdditionalProperties_congr evaluate evaluate' n path x h
  | allOf => exact v.applyAllOf_congr evaluate evaluate' n path x h
  | anyOf =>
      change n.applyAnyOf evaluate path x = n.applyAnyOf evaluate' path x
      unfold Node.applyAnyOf
      rw [Node.firstAccepted_congr evaluate evaluate' path x _ fun before m after hsplit hbefore =>
        h m path x (.choice before m after x hsplit hbefore)]
  | oneOf => exact v.evaluateKeyword_oneOf_congr evaluate evaluate' n path x h
  | not => exact v.applyNot_congr evaluate evaluate' n path x h
  | discriminator =>
      unfold evaluateKeyword
      cases hdialect : v.dialect with
      | jsonSchema => rfl
      | openApi => exact v.applyDiscriminator_congr evaluate evaluate' n path x hdialect h
  | type | format =>
      unfold evaluateKeyword
      cases v.dialect with
      | jsonSchema => rfl
      | openApi => rfl
  | _ => rfl

end Unmet

end Validator

end OpenApi
