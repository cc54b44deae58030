import Mathlib.Data.List.Forall2
import OpenApi.Schema.Verdict

/-!
# Outcomes of Evaluations

Three ways to speak about the outcome of an evaluation without following it step
by step.

`Promises` is about one outcome: what is known of the value if there is one,
and whether the bound on the depth may be what ended the evaluation. Schema
errors and violations are always allowed. With `deep` false a promise says that
the depth sufficed, and with `deep` true it only speaks about values, so the
same lemmas serve for termination and for partial correctness.

`Below` compares two outcomes. Running out of depth is an answer that has not
been found yet, so it is below every outcome, and any other outcome is below
itself alone. No keyword looks at that failure, so evaluating subschemas deeper
can only replace it, and what was answered once stays the answer.

`Reports` is about the violation that an outcome may be.

All of them pass through the sequencing of steps, through loops over lists and through
the sorting of outcomes into verdicts.

## Main definitions

* `Promises`: What is known of one outcome.
* `Below`: The second outcome is the first one or replaces its lack of depth.
* `Reports`: What is known of the violation of an outcome.

## Theorems

* `bind_eq_ok_iff`, `mapM_eq_ok_iff`: When sequences end well.
* `bind_eq_error_iff`, `mapM_eq_error_iff`, `foldlM_eq_error_iff`: When they fail.
* `promises_bind`, `promises_mapM`, `promises_foldlM`: Promises of sequences.
* `promises_verdict`: A promise about an outcome, said of its verdict.
* `below_bind`, `below_foldlM`: Sequences keep the order.
* `below_verdict`: Verdicts keep the order.
* `promises_follow`: Following references needs no depth.
* `reports_bind`, `reports_mapM`, `reports_foldlM`: Violations of sequences.
-/

namespace OpenApi

variable {α β : Type}

theorem eq_ok_of_toOption {ε : Type} (r : Except ε α) (value : α) (h : r.toOption = some value) :
    r = .ok value := by
  rcases r with e | value'
  · exact absurd h.symm (Option.some_ne_none value)
  · exact congrArg Except.ok (Option.some.inj h)

theorem mapError_eq_ok_iff {ε ε' : Type} (f : ε → ε') (r : Except ε α) (value : α) :
    r.mapError f = .ok value ↔ r = .ok value := by
  cases r with
  | error e => exact iff_of_false nofun nofun
  | ok value' => simp only [Except.mapError, Except.ok.injEq]

/-- A step that ends well hands on its value. -/
theorem ok_bind {ε : Type} (a : α) (next : α → Except ε β) : (Except.ok a >>= next) = next a := rfl

theorem bind_eq_ok_iff {ε : Type} (r : Except ε α) (next : α → Except ε β) (b : β) :
    (r >>= next) = .ok b ↔ ∃ a, r = .ok a ∧ next a = .ok b := by
  rcases r with e | a
  · constructor
    · exact fun h => nomatch h
    · rintro ⟨a, ha, _⟩
      exact nomatch ha
  · constructor
    · exact fun h => ⟨a, rfl, h⟩
    · rintro ⟨a', ha, h⟩
      rw [Except.ok.inj ha]
      exact h

theorem bind_eq_error_iff {ε : Type} (r : Except ε α) (next : α → Except ε β) (e : ε) :
    (r >>= next) = .error e ↔ r = .error e ∨ ∃ a, r = .ok a ∧ next a = .error e := by
  rcases r with e' | a
  · constructor
    · exact fun h => Or.inl (congrArg Except.error (Except.error.inj h))
    · rintro (h | ⟨a, ha, _⟩)
      · exact congrArg Except.error (Except.error.inj h)
      · exact nomatch ha
  · constructor
    · exact fun h => Or.inr ⟨a, rfl, h⟩
    · rintro (h | ⟨a', ha, h⟩)
      · exact nomatch h
      · rw [Except.ok.inj ha]
        exact h

/-- A loop that collects results ends well exactly if each step does. -/
theorem mapM_eq_ok_iff {ε : Type} (step : α → Except ε β) (items : List α) :
    ∀ values : List β, items.mapM step = .ok values
      ↔ List.Forall₂ (fun item value => step item = .ok value) items values := by
  induction items with
  | nil =>
      intro values
      rw [List.mapM_nil, List.forall₂_nil_left_iff]
      exact ⟨fun h => (Except.ok.inj h).symm, fun h => h ▸ rfl⟩
  | cons item rest ih =>
      intro values
      rw [List.mapM_cons, bind_eq_ok_iff]
      constructor
      · rintro ⟨value, hvalue, hrest⟩
        obtain ⟨values', hvalues', hcons⟩ := (bind_eq_ok_iff _ _ values).mp hrest
        rw [← Except.ok.inj hcons]
        exact .cons hvalue ((ih values').mp hvalues')
      · intro h
        cases h with
        | cons hvalue hrest =>
            exact ⟨_, hvalue, (bind_eq_ok_iff _ _ _).mpr ⟨_, (ih _).mpr hrest, rfl⟩⟩

/-- A loop that collects results ends with the first step that fails. -/
theorem mapM_eq_error_iff {ε : Type} (step : α → Except ε β) (e : ε) (items : List α) :
    items.mapM step = .error e
      ↔ ∃ before item after, items = before ++ item :: after
        ∧ (∀ b ∈ before, ∃ value, step b = .ok value) ∧ step item = .error e := by
  constructor
  · intro h
    induction items with
    | nil => exact nomatch h
    | cons first rest ih =>
        rw [List.mapM_cons] at h
        rcases (bind_eq_error_iff _ _ e).mp h with hfirst | ⟨value, hvalue, hrest⟩
        · exact ⟨[], first, rest, rfl, nofun, hfirst⟩
        · rcases (bind_eq_error_iff _ _ e).mp hrest with htail | ⟨values, _, hdone⟩
          · obtain ⟨before, item, after, rfl, hbefore, hitem⟩ := ih htail
            exact ⟨first :: before, item, after, rfl,
              List.forall_mem_cons.mpr ⟨⟨value, hvalue⟩, hbefore⟩, hitem⟩
          · exact nomatch hdone
  · rintro ⟨before, item, after, rfl, hbefore, hitem⟩
    induction before with
    | nil =>
        rw [List.nil_append, List.mapM_cons, hitem]
        rfl
    | cons first rest ih =>
        obtain ⟨⟨value, hvalue⟩, hrest⟩ := List.forall_mem_cons.mp hbefore
        rw [List.cons_append, List.mapM_cons, hvalue, ih hrest]
        rfl

/-- So does one that carries a state. -/
theorem foldlM_eq_error_iff {ε : Type} (step : β → α → Except ε β) (e : ε) (items : List α)
    (state : β) :
    items.foldlM step state = .error e
      ↔ ∃ before item after state', items = before ++ item :: after
        ∧ before.foldlM step state = .ok state' ∧ step state' item = .error e := by
  constructor
  · intro h
    induction items generalizing state with
    | nil => exact nomatch h
    | cons first rest ih =>
        rw [List.foldlM_cons] at h
        rcases (bind_eq_error_iff _ _ e).mp h with hfirst | ⟨next, hnext, hrest⟩
        · exact ⟨[], first, rest, state, rfl, rfl, hfirst⟩
        · obtain ⟨before, item, after, state', rfl, hbefore, hitem⟩ := ih next hrest
          refine ⟨first :: before, item, after, state', rfl, ?_, hitem⟩
          rw [List.foldlM_cons, hnext]
          exact hbefore
  · rintro ⟨before, item, after, state', rfl, hbefore, hitem⟩
    rw [List.foldlM_append, hbefore]
    change (item :: after).foldlM step state' = .error e
    rw [List.foldlM_cons, hitem]
    rfl

/-- A value is good, and the depth ran out only if `deep` allows it. -/
def Promises (deep : Prop) (good : α → Prop) : Except Failure α → Prop
  | .ok value => good value
  | .error .depth => deep
  | .error _ => True

/-- Where the depth does not matter, a promise is about values alone. -/
theorem promises_of_ok (good : α → Prop) (r : Except Failure α)
    (h : ∀ value, r = .ok value → good value) : Promises True good r := by
  rcases r with e | value
  · cases e with
    | schema e => exact trivial
    | violation v => exact trivial
    | depth => exact trivial
  · exact h value rfl

theorem promises_mono (deep : Prop) (good good' : α → Prop) (h : ∀ value, good value → good' value)
    (r : Except Failure α) (hr : Promises deep good r) : Promises deep good' r := by
  rcases r with e | value
  · cases e with
    | schema e => exact trivial
    | violation v => exact trivial
    | depth => exact hr
  · exact h value hr

theorem promises_bind (deep : Prop) (good : α → Prop) (good' : β → Prop) (r : Except Failure α)
    (next : α → Except Failure β) (hr : Promises deep good r)
    (hnext : ∀ value, good value → Promises deep good' (next value)) :
    Promises deep good' (r >>= next) := by
  rcases r with e | value
  · cases e with
    | schema e => exact trivial
    | violation v => exact trivial
    | depth => exact hr
  · exact hnext value hr

/-- That the depth suffices, and what is known then, can be shown one after the
    other. -/
theorem promises_of_ne_depth (good : α → Prop) (r : Except Failure α) (hr : r ≠ .error .depth)
    (h : ∀ value, r = .ok value → good value) : Promises False good r := by
  rcases r with e | value
  · cases e with
    | schema e => exact trivial
    | violation v => exact trivial
    | depth => exact hr rfl
  · exact h value rfl

/-- A loop that collects results: each result is good for the item it is for. -/
theorem promises_mapM (deep : Prop) (good : α → β → Prop) (step : α → Except Failure β) :
    ∀ (items : List α), (∀ item ∈ items, Promises deep (good item) (step item)) →
      Promises deep (List.Forall₂ good items) (items.mapM step) := by
  intro items
  induction items with
  | nil => exact fun _ => List.Forall₂.nil
  | cons item rest ih =>
      intro h
      rw [List.mapM_cons]
      refine promises_bind deep (good item) _ _ _ (h item List.mem_cons_self) (fun b hb => ?_)
      refine promises_bind deep (List.Forall₂ good rest) _ _ _
        (ih (fun i hi => h i (List.mem_cons_of_mem item hi))) (fun bs hbs => ?_)
      exact List.Forall₂.cons hb hbs

/-- A loop that carries a state: the invariant holds at its end. -/
theorem promises_foldlM (deep : Prop) (good : β → Prop) (step : β → α → Except Failure β) :
    ∀ (items : List α) (state : β), good state →
      (∀ state item, item ∈ items → good state → Promises deep good (step state item)) →
      Promises deep good (items.foldlM step state) := by
  intro items
  induction items with
  | nil => exact fun state hstate _ => hstate
  | cons item rest ih =>
      intro state hstate h
      rw [List.foldlM_cons]
      refine promises_bind deep good good _ _ (h state item List.mem_cons_self hstate)
        (fun state' hstate' => ?_)
      exact ih state' hstate' (fun s i hi hs => h s i (List.mem_cons_of_mem item hi) hs)

/-- The value of a verdict is good. Nothing is known of its violation. -/
def Verdict.Good (good : α → Prop) : Verdict α → Prop
  | .ok value => good value
  | .error _ => True

theorem promises_verdict (deep : Prop) (good : α → Prop) (r : Except Failure α)
    (hr : Promises deep good r) : Promises deep (Verdict.Good good) (verdict r) := by
  rcases r with e | value
  · cases e with
    | schema e => exact trivial
    | violation v => exact trivial
    | depth => exact hr
  · exact hr

/-- An outcome that does not lack depth promises its own value. -/
theorem promises_self (deep : Prop) (r : Except Failure α) (h : r ≠ .error .depth) :
    Promises deep (fun value => r = .ok value) r := by
  rcases r with e | value
  · cases e with
    | schema e => exact trivial
    | violation v => exact trivial
    | depth => exact absurd rfl h
  · exact rfl

/-- Whether the depth ran out can be told of any outcome. -/
instance (r : Except Failure α) : Decidable (r = .error .depth) :=
  match r with
  | .ok _ => .isFalse (by simp only [reduceCtorEq, not_false_eq_true])
  | .error (.schema _) => .isFalse (by simp only [Except.error.injEq, reduceCtorEq,
      not_false_eq_true])
  | .error (.violation _) => .isFalse (by simp only [Except.error.injEq, reduceCtorEq,
      not_false_eq_true])
  | .error .depth => .isTrue rfl

/-- Whether an outcome is a violation can be told as well. -/
instance (r : Except Failure α) : Decidable (∃ w, r = .error (.violation w)) :=
  match r with
  | .ok _ => .isFalse (by simp only [reduceCtorEq, exists_false, not_false_eq_true])
  | .error (.schema _) => .isFalse (by simp only [Except.error.injEq, reduceCtorEq, exists_false,
      not_false_eq_true])
  | .error (.violation w) => .isTrue ⟨w, rfl⟩
  | .error .depth => .isFalse (by simp only [Except.error.injEq, reduceCtorEq, exists_false,
      not_false_eq_true])

/-- Failures cannot be told apart, but values can. -/
instance decidableEqOk {ε : Type} [DecidableEq α] (r : Except ε α) (x : α) :
    Decidable (r = .ok x) :=
  match r with
  | .ok y => decidable_of_iff (y = x) ⟨congrArg Except.ok, Except.ok.inj⟩
  | .error _ => .isFalse (by simp only [reduceCtorEq, not_false_eq_true])

instance decidableEqVerdictOk [DecidableEq α] (r : Except Failure (Verdict α)) (x : α) :
    Decidable (r = .ok (.ok x)) :=
  match r with
  | .ok verdict => decidable_of_iff (verdict = .ok x) ⟨congrArg Except.ok, Except.ok.inj⟩
  | .error _ => .isFalse (by simp only [reduceCtorEq, not_false_eq_true])

/-- A promise that rules out a lack of depth does so for the outcome. -/
theorem ne_depth_of_promises (good : α → Prop) (r : Except Failure α)
    (hr : Promises False good r) : r ≠ .error .depth := by
  intro h
  rw [h] at hr
  exact hr

theorem bind_ne_depth (r : Except Failure α) (next : α → Except Failure β)
    (hr : r ≠ .error .depth) (hnext : ∀ value, r = .ok value → next value ≠ .error .depth) :
    (r >>= next) ≠ .error .depth := by
  intro h
  rcases (bind_eq_error_iff r next .depth).mp h with h | ⟨value, hvalue, h⟩
  · exact hr h
  · exact hnext value hvalue h

theorem mapM_ne_depth (step : α → Except Failure β) (items : List α)
    (h : ∀ item ∈ items, step item ≠ .error .depth) : items.mapM step ≠ .error .depth :=
  ne_depth_of_promises _ _ (promises_mapM False (fun item value => step item = .ok value) step items
    fun item hitem => promises_self False _ (h item hitem))

/-- The second outcome is the first one, unless that is a lack of depth. -/
def Below (r r' : Except Failure α) : Prop := r = .error .depth ∨ r = r'

theorem below_refl (r : Except Failure α) : Below r r := Or.inr rfl

theorem below_trans (r r' r'' : Except Failure α) (h : Below r r') (h' : Below r' r'') :
    Below r r'' := by
  rcases h with rfl | rfl
  · exact Or.inl rfl
  · exact h'

theorem eq_of_below (r r' : Except Failure α) (h : Below r r') (hr : r ≠ .error .depth) :
    r = r' := by
  rcases h with h | h
  · exact absurd h hr
  · exact h

theorem ok_of_below (r r' : Except Failure α) (h : Below r r') (value : α) (hr : r = .ok value) :
    r' = .ok value := by
  rw [← eq_of_below r r' h (hr ▸ nofun), hr]

theorem below_bind (r r' : Except Failure α) (next next' : α → Except Failure β)
    (hr : Below r r') (hnext : ∀ value, Below (next value) (next' value)) :
    Below (r >>= next) (r' >>= next') := by
  rcases hr with rfl | rfl
  · exact Or.inl rfl
  · rcases r with e | value
    · exact Or.inr rfl
    · exact hnext value

theorem below_foldlM (step step' : β → α → Except Failure β)
    (h : ∀ state item, Below (step state item) (step' state item)) :
    ∀ (items : List α) (state : β), Below (items.foldlM step state) (items.foldlM step' state) := by
  intro items
  induction items with
  | nil => exact fun state => below_refl _
  | cons item rest ih =>
      intro state
      rw [List.foldlM_cons, List.foldlM_cons]
      exact below_bind _ _ _ _ (h state item) (fun state' => ih state')

theorem below_verdict (r r' : Except Failure α) (h : Below r r') :
    Below (verdict r) (verdict r') := by
  rcases h with rfl | rfl
  · exact Or.inl rfl
  · exact below_refl _

/-- Following references fails with schema errors alone. -/
theorem follow_ne_depth (r : Registry) (n : Node) : r.follow n ≠ .error .depth := by
  unfold Registry.follow
  cases r.deref n with
  | ok target => simp only [Except.mapError, ne_eq, reduceCtorEq, not_false_eq_true]
  | error e => simp only [Except.mapError, ne_eq, Except.error.injEq, reduceCtorEq,
      not_false_eq_true]

theorem promises_follow (deep : Prop) (r : Registry) (n : Node) :
    Promises deep (fun target => r.follow n = .ok target) (r.follow n) :=
  promises_self deep _ (follow_ne_depth r n)

section Reports

variable (good : Violation → Prop)

/-- If the outcome is a violation, it is a good one. -/
def Reports (r : Except Failure α) : Prop := ∀ w, r = .error (.violation w) → good w

theorem reports_bind (r : Except Failure α) (next : α → Except Failure β) (hr : Reports good r)
    (hnext : ∀ value, r = .ok value → Reports good (next value)) : Reports good (r >>= next) := by
  intro w hw
  rcases (bind_eq_error_iff _ _ _).mp hw with hw | ⟨value, hvalue, hw⟩
  · exact hr w hw
  · exact hnext value hvalue w hw

theorem reports_ok (value : α) : Reports good (.ok value : Except Failure α) :=
  fun _ hw => nomatch hw

theorem reports_schema (e : SchemaError) :
    Reports good (.error (.schema e) : Except Failure α) :=
  fun _ hw => nomatch hw

theorem reports_causes (path scope : String) (kind : ViolationKind) (causes : List Violation)
    (h : good ⟨path, scope, kind, causes⟩) :
    Reports good (.error (.ofCauses path scope kind causes) : Except Failure α) :=
  fun _ hw => Failure.violation.inj (Except.error.inj hw) ▸ h

/-- A verdict is no violation of its own. -/
theorem reports_verdict (r : Except Failure α) : Reports good (verdict r) := by
  intro w hw
  rcases r with e | value
  · cases e with
    | schema e => exact nomatch hw
    | violation w' => exact nomatch hw
    | depth => exact nomatch Except.error.inj hw
  · exact nomatch hw

theorem reports_follow (r : Registry) (n : Node) : Reports good (r.follow n) := by
  intro w
  unfold Registry.follow
  rcases r.deref n with e | t
  · exact fun hw => nomatch hw
  · exact fun hw => nomatch hw

theorem reports_mapM (step : α → Except Failure β) (items : List α)
    (h : ∀ item ∈ items, Reports good (step item)) : Reports good (items.mapM step) := by
  induction items with
  | nil => exact reports_ok good _
  | cons item rest ih =>
      rw [List.mapM_cons]
      refine reports_bind good _ _ (h item List.mem_cons_self) fun value _ => ?_
      refine reports_bind good _ _ (ih fun i hi => h i (List.mem_cons_of_mem item hi)) fun _ _ => ?_
      exact reports_ok good _

/-- A loop that carries a state: a step may rely on what the steps before it keep. -/
theorem reports_foldlM (inv : β → Prop) (step : β → α → Except Failure β) (items : List α)
    (hkeep : ∀ state item next, item ∈ items → inv state → step state item = .ok next → inv next)
    (h : ∀ state item, item ∈ items → inv state → Reports good (step state item)) :
    ∀ state, inv state → Reports good (items.foldlM step state) := by
  induction items with
  | nil => exact fun state _ => reports_ok good state
  | cons item rest ih =>
      intro state hstate
      rw [List.foldlM_cons]
      refine reports_bind good _ _ (h state item List.mem_cons_self hstate) fun next hnext => ?_
      exact ih (fun s i t hi => hkeep s i t (List.mem_cons_of_mem item hi))
        (fun s i hi => h s i (List.mem_cons_of_mem item hi)) next
        (hkeep state item next List.mem_cons_self hstate hnext)

end Reports

end OpenApi
