import OpenApi.Proofs.Evaluation.Keyword
import OpenApi.Proofs.Evaluation.Members

/-!
# Plans of Evaluations

A keyword that applies subschemas uses their evaluation in one way only: it asks
for the verdict of a subschema on a value, and goes on with the answer. It has no
say in what is no verdict, neither an unusable schema nor a lack of depth; such an
outcome ends the keyword as it is.

So what a keyword does can be laid out before any subschema is evaluated, as a tree
of questions with a branch for each answer. `Plan` is such a tree. `Planned` says
that a computation with an evaluation of subschemas carries out one, and the lemmas
follow the keywords through their loops. What holds of every plan holds of every
keyword then, by one induction on the tree.

The plan also says which schemas may be asked, and which violations there may be at
its end. A keyword asks nodes below its own, which exclude nothing. Only a
discriminator asks for a schema elsewhere, and excludes its own schema there. The
violation that a keyword ends with is its own, at its own path, since those of
subschemas are answers and no more than causes.

## Main definitions

* `Plan`: Questions for verdicts, and what follows from the answers.
* `Plan.run`: Carries out a plan with an evaluation.
* `Plan.Within`: A plan asks allowed schemas alone, and ends with good violations.
* `Planned`: A computation carries out a plan.

## Theorems

* `run_andThen`, `within_andThen`: Plans one after the other.
* `planned_bind`, `planned_mapM`, `planned_foldlM`: Sequences and loops.
* `planned_applyItems` and its companions: Each keyword carries out a plan.
* `planned_evaluateKeyword`: Any keyword.
* `reports_of_planned`, `path_of_evaluateIn`: A violation is about the value that was
  evaluated.
-/

namespace OpenApi

variable {α β : Type}

/-- What there is to do when no subschema has been evaluated yet. -/
inductive Plan (α : Type) where
  /-- No more questions are left. -/
  | done (outcome : Except Failure α)
  /-- The verdict of a schema is asked for, and the answer decides what follows. -/
  | ask (m : Node) (path : String) (x : Json) (next : Verdict Json → Plan α)

namespace Plan

/-- Carries out a plan. An outcome that is no verdict is the last one. -/
def run (evaluate : Evaluation) : Plan α → Except Failure α
  | .done outcome => outcome
  | .ask m path x next => verdict (evaluate m path x) >>= fun answer => run evaluate (next answer)

/-- Whatever the answers, a plan asks allowed schemas alone, and if it ends with a
    violation that is a good one. -/
def Within (allows : Node → Prop) (good : Violation → Prop) : Plan α → Prop
  | .done outcome => Reports good outcome
  | .ask m _ _ next => allows m ∧ ∀ answer, Within allows good (next answer)

/-- One plan after the other. -/
def andThen (plan : Plan α) (next : α → Plan β) : Plan β :=
  match plan with
  | .done (.ok value) => next value
  | .done (.error failure) => .done (.error failure)
  | .ask m path x rest => .ask m path x fun answer => andThen (rest answer) next

theorem run_andThen (evaluate : Evaluation) (next : α → Plan β) (plan : Plan α) :
    (plan.andThen next).run evaluate
      = plan.run evaluate >>= fun value => (next value).run evaluate := by
  induction plan with
  | done outcome =>
      cases outcome with
      | ok value => rfl
      | error failure => rfl
  | ask m path x rest ih =>
      simp only [andThen, run]
      -- A question that gets no verdict ends both sides alike.
      rcases verdict (evaluate m path x) with failure | answer
      · rfl
      · exact ih answer

variable (allows : Node → Prop) (good : Violation → Prop)

theorem within_andThen (next : α → Plan β) (hnext : ∀ value, (next value).Within allows good)
    (plan : Plan α) (hplan : plan.Within allows good) :
    (plan.andThen next).Within allows good := by
  induction plan with
  | done outcome =>
      cases outcome with
      | ok value => exact hnext value
      | error failure =>
          intro w hw
          exact hplan w (congrArg Except.error (Except.error.inj hw))
  | ask m path x rest ih => exact ⟨hplan.1, fun answer => ih answer (hplan.2 answer)⟩

/-- Answers are no violations, so there are none but those at the end. -/
theorem reports_run (evaluate : Evaluation) (plan : Plan α) (hplan : plan.Within allows good) :
    Reports good (plan.run evaluate) := by
  induction plan with
  | done outcome => exact hplan
  | ask m path x rest ih =>
      exact reports_bind good _ _ (reports_verdict good _) fun answer _ => ih answer (hplan.2 answer)

end Plan

/-- A computation with an evaluation of schemas carries out a plan that asks
    allowed schemas alone and ends with good violations. -/
def Planned (allows : Node → Prop) (good : Violation → Prop)
    (compute : Evaluation → Except Failure α) : Prop :=
  ∃ plan : Plan α, plan.Within allows good ∧ ∀ evaluate, compute evaluate = plan.run evaluate

section Sequences

variable (allows : Node → Prop) (good : Violation → Prop)

theorem reports_of_planned (compute : Evaluation → Except Failure α)
    (h : Planned allows good compute) (evaluate : Evaluation) :
    Reports good (compute evaluate) := by
  obtain ⟨plan, hplan, hcompute⟩ := h
  rw [hcompute]
  exact plan.reports_run allows good evaluate hplan

theorem planned_done (outcome : Except Failure α) (h : Reports good outcome) :
    Planned allows good fun _ => outcome :=
  ⟨.done outcome, h, fun _ => rfl⟩

theorem planned_ok (value : α) :
    Planned allows good fun _ => (.ok value : Except Failure α) :=
  planned_done allows good _ (reports_ok good value)

theorem planned_verdict (m : Node) (hm : allows m) (path : String) (x : Json) :
    Planned allows good fun evaluate => verdict (evaluate m path x) := by
  refine ⟨.ask m path x fun answer => .done (.ok answer),
    ⟨hm, fun answer => reports_ok good answer⟩, fun evaluate => ?_⟩
  rcases h : verdict (evaluate m path x) with failure | answer
  · simp only [Plan.run, h, bind, Except.bind]
  · simp only [Plan.run, h, bind, Except.bind]

theorem planned_bind (compute : Evaluation → Except Failure α)
    (next : Evaluation → α → Except Failure β) (h : Planned allows good compute)
    (hnext : ∀ value, Planned allows good fun evaluate => next evaluate value) :
    Planned allows good fun evaluate => compute evaluate >>= next evaluate := by
  obtain ⟨plan, hplan, hcompute⟩ := h
  -- There is a plan for each value, so they can be chosen together.
  choose rest hrest hsame using hnext
  refine ⟨plan.andThen rest, Plan.within_andThen allows good rest hrest plan hplan,
    fun evaluate => ?_⟩
  change compute evaluate >>= next evaluate = _
  rw [Plan.run_andThen, hcompute]
  exact bind_congr fun value => hsame value evaluate

theorem planned_mapM (step : Evaluation → α → Except Failure β) (items : List α)
    (h : ∀ item ∈ items, Planned allows good fun evaluate => step evaluate item) :
    Planned allows good fun evaluate => items.mapM (step evaluate) := by
  induction items with
  | nil => exact planned_ok allows good []
  | cons item rest ih =>
      simp only [List.mapM_cons]
      have hrest := ih fun other hother => h other (List.mem_cons_of_mem item hother)
      refine planned_bind allows good _ _ (h item List.mem_cons_self) fun value => ?_
      exact planned_bind allows good _ _ hrest fun values => planned_ok allows good (value :: values)

theorem planned_foldlM (step : Evaluation → β → α → Except Failure β) (items : List α)
    (h : ∀ state, ∀ item ∈ items, Planned allows good fun evaluate => step evaluate state item) :
    ∀ state, Planned allows good fun evaluate => items.foldlM (step evaluate) state := by
  induction items with
  | nil => exact fun state => planned_ok allows good state
  | cons item rest ih =>
      intro state
      simp only [List.foldlM_cons]
      refine planned_bind allows good _ _ (h state item List.mem_cons_self) fun next => ?_
      exact ih (fun state' item' hitem => h state' item' (List.mem_cons_of_mem item hitem)) next

end Sequences

namespace Node

variable (allows : Node → Prop) (good : Violation → Prop) (n : Node) (path : String)

theorem planned_judge (schema? : Option Node) (h : ∀ m, schema? = some m → allows m)
    (segment : String) (x : Json) :
    Planned allows good fun evaluate => judge evaluate schema? path segment x := by
  cases schema? with
  | none => exact planned_ok allows good (Except.ok x)
  | some m => exact planned_verdict allows good m (h m rfl) _ x

theorem planned_judgeAdditional (hchild : ∀ segments m, n.child? segments = some m → allows m)
    (key : String) (kind : ViolationKind) (segment : String) (x : Json) :
    Planned allows good fun evaluate => n.judgeAdditional evaluate key kind path segment x := by
  unfold judgeAdditional
  cases n.isFalse key with
  | true => exact planned_ok allows good (Except.error _)
  | false => exact planned_judge allows good path _ (hchild _) segment x

theorem planned_firstAccepted (x : Json) (branches : List Node) (h : ∀ m ∈ branches, allows m) :
    Planned allows good fun evaluate => firstAccepted evaluate path x branches := by
  induction branches with
  | nil => exact planned_ok allows good (Except.error [])
  | cons m rest ih =>
      refine planned_bind allows good _ _
        (planned_verdict allows good m (h m List.mem_cons_self) path x) fun outcome => ?_
      cases outcome with
      | ok value => exact planned_ok allows good (Except.ok value)
      | error w =>
          exact planned_bind allows good _ _ (ih fun m' hm' => h m' (List.mem_cons_of_mem m hm'))
            fun others => planned_ok allows good _

theorem planned_chooseBranch (r : Registry) (scope : String) (x : Json) (branches : List Node)
    (h : ∀ m ∈ branches, allows m) :
    ∀ known : Choice, Planned allows good fun evaluate =>
      chooseBranch r evaluate scope path x branches known := by
  induction branches with
  | nil => exact fun known => planned_ok allows good (Except.error known)
  | cons m rest ih =>
      intro known
      have hrest := ih fun m' hm' => h m' (List.mem_cons_of_mem m hm')
      refine planned_bind allows good _ _
        (planned_done allows good _ (reports_follow good r m)) fun target => ?_
      refine planned_bind allows good _ _
        (planned_verdict allows good m (h m List.mem_cons_self) path x) fun outcome => ?_
      cases outcome with
      | ok value =>
          by_cases hscope : target.scope = scope
          · simp only [if_pos hscope]
            exact planned_ok allows good (Except.ok value)
          · simp only [if_neg hscope]
            exact hrest _
      | error w => exact hrest _

theorem reports_isExcluded (r : Registry) (m : Node) : Reports good (n.isExcluded r m) := by
  unfold isExcluded
  split
  · exact reports_ok good false
  · exact reports_bind good _ _ (reports_follow good r m) fun _ _ => reports_ok good _

section Own

variable (hown : ∀ kind causes, good ⟨path, n.scope, kind, causes⟩)

include hown

theorem reports_gather (kind : ViolationKind) (verdicts : List (Verdict α)) :
    Reports good (n.gather path kind verdicts) := by
  unfold gather
  split
  · exact reports_ok good _
  · exact reports_causes good _ _ _ _ (hown kind _)

/-- What is gathered at the end is put together. -/
theorem planned_gather (kind : ViolationKind) (verdicts : List (Verdict α))
    (wrap : List α → Json) :
    Planned allows good fun _ => n.gather path kind verdicts >>= fun values => .ok (wrap values) :=
  planned_done allows good _ (reports_bind good _ _ (n.reports_gather good path hown kind verdicts)
    fun _ _ => reports_ok good _)

theorem reports_own_selected (x : Json) : Reports good (n.selected path x) := by
  unfold selected
  split
  · split
    · refine reports_bind good _ _ ?_ fun target _ => ?_
      · unfold mapped
        dsimp only
        split
        · exact reports_ok good _
        · exact reports_ok good _
        · exact reports_schema good _
      · dsimp only
        split
        · exact reports_ok good _
        · exact reports_schema good _
    · exact reports_causes good _ _ _ _ (hown .discriminator _)
  · exact reports_schema good _

theorem reports_own_of_checks (x : Json) (result : Except Failure Json)
    (h : n.Checks path x result) : Reports good result := by
  cases h with
  | accepted => exact reports_ok good x
  | unusable e => exact reports_schema good e
  | rejected kind _ => exact reports_causes good _ _ _ _ (hown kind [])
  | missing names => exact reports_causes good _ _ _ _ (hown .required _)

theorem reports_own_checkSingleType (converts : Bool) (x : Json) :
    Reports good (n.checkSingleType converts path x) := by
  have hcheck := fun y => n.reports_own_of_checks good path hown y _ (n.checks_checkType path y)
  unfold checkSingleType
  split
  · split
    · exact reports_ok good x
    · split
      · exact hcheck _
      · exact hcheck x
  · exact reports_schema good _

/-- A discriminator asks for the schema it selects, without the way back. -/
theorem planned_applyDiscriminator (hselection : ∀ m : Node, allows (m.excluding n.scope))
    (r : Registry) (x : Json) :
    Planned allows good fun evaluate => n.applyDiscriminator r evaluate path x := by
  refine planned_bind allows good _ _
    (planned_done allows good _ (n.reports_own_selected good path hown x)) fun uri => ?_
  cases n.has "anyOf" || n.has "oneOf" with
  | true => exact planned_ok allows good x
  | false =>
      cases r.node? uri with
      | none => exact planned_done allows good _ (reports_schema good _)
      | some m =>
          refine planned_bind allows good _ _
            (planned_done allows good _ (reports_follow good r m)) fun target => ?_
          -- A selection that leads back to the schema itself asks for nothing.
          by_cases hscope : target.scope = n.scope
          · simp only [if_pos hscope]
            exact planned_ok allows good x
          · simp only [if_neg hscope]
            refine planned_bind allows good _ _ (planned_verdict allows good _ (hselection m) path x)
              fun outcome => ?_
            cases outcome with
            | ok value => exact planned_ok allows good value
            | error w =>
                exact planned_done allows good _ (reports_causes good _ _ _ _ (hown .discriminator [w]))

variable (hchild : ∀ segments m, n.child? segments = some m → allows m)

include hchild

theorem planned_applyItems (x : Json) :
    Planned allows good fun evaluate => n.applyItems evaluate path x := by
  cases x with
  | array items =>
      refine planned_bind allows good _ _ (planned_mapM allows good _ _ fun pair _ => ?_)
        fun verdicts => planned_gather allows good n path hown .items verdicts _
      refine planned_judge allows good path _ (fun m hm => ?_) _ pair.1
      unfold itemSchema? at hm
      split at hm
      · exact hchild _ m hm
      · exact hchild _ m hm
  | _ => exact planned_ok allows good _

theorem planned_applyAdditionalItems (x : Json) :
    Planned allows good fun evaluate => n.applyAdditionalItems evaluate path x := by
  by_cases hlist : (∃ items, x = .array items) ∧ ∃ tuple, n.get? "items" = some (.array tuple)
  · obtain ⟨⟨items, rfl⟩, tuple, htuple⟩ := hlist
    simp only [applyAdditionalItems, htuple]
    refine planned_bind allows good _ _ (planned_mapM allows good _ _ fun pair _ => ?_)
      fun verdicts => planned_gather allows good n path hown .additionalItems verdicts _
    by_cases hcovered : pair.2 < tuple.length
    · simp only [if_pos hcovered]
      exact planned_ok allows good (Except.ok pair.1)
    · simp only [if_neg hcovered]
      exact n.planned_judgeAdditional allows good path hchild _ _ _ pair.1
  · simp only [n.applyAdditionalItems_of_not_array _ path x hlist]
    exact planned_ok allows good x

theorem planned_applyAdditionalProperties (x : Json) :
    Planned allows good fun evaluate => n.applyAdditionalProperties evaluate path x := by
  cases x with
  | object members =>
      refine planned_bind allows good _ _ (planned_mapM allows good _ _ fun entry _ => ?_)
        fun verdicts => planned_gather allows good n path hown .additionalProperties verdicts _
      dsimp only
      cases n.declares entry.1 with
      | true => exact planned_ok allows good _
      | false =>
          exact planned_bind allows good _ _
            (n.planned_judgeAdditional allows good path hchild _ _ _ entry.2) fun outcome =>
              planned_ok allows good _
  | _ => exact planned_ok allows good _

variable (r : Registry)

omit hown in
theorem planned_applyProperty (p : Progress) (name : String) :
    Planned allows good fun evaluate => n.applyProperty r evaluate path p name := by
  unfold applyProperty
  rcases hschema : n.child? ["properties", name] with _ | schema
  · exact planned_ok allows good p
  · cases Ordered.get? p.members name with
    | some value =>
        refine planned_bind allows good _ _ (planned_judge allows good path (some schema)
          (fun m hm => hchild _ m (hschema.trans hm)) name value) fun outcome => ?_
        cases outcome with
        | ok value' => exact planned_ok allows good _
        | error w => exact planned_ok allows good _
    | none =>
        refine planned_done allows good _ (reports_bind good _ _ ?_ fun value? _ => ?_)
        · exact reports_bind good _ _ (reports_follow good r schema) fun _ _ => reports_ok good _
        · cases value? with
          | some value => exact reports_ok good _
          | none => exact reports_ok good _

theorem planned_applyProperties (x : Json) :
    Planned allows good fun evaluate => n.applyProperties r evaluate path x := by
  by_cases hobject : (∃ members, x = .object members)
      ∧ ∃ declared, n.get? "properties" = some (.object declared)
  · obtain ⟨⟨members, rfl⟩, declared, hdeclared⟩ := hobject
    simp only [applyProperties, hdeclared]
    refine planned_bind allows good _ _ (planned_foldlM allows good _ _ (fun p name _ => ?_) _)
      fun p => ?_
    · exact n.planned_applyProperty allows good path hchild r p name
    · refine planned_done allows good _ ?_
      cases p.causes with
      | nil => exact reports_ok good _
      | cons w ws => exact reports_causes good _ _ _ _ (hown .properties _)
  · simp only [n.applyProperties_of_not_object r _ path x hobject]
    exact planned_ok allows good x

theorem planned_applyNot (x : Json) :
    Planned allows good fun evaluate => n.applyNot evaluate path x := by
  unfold applyNot
  rcases hschema : n.child? ["not"] with _ | schema
  · exact planned_ok allows good x
  · refine planned_bind allows good _ _
      (planned_verdict allows good schema (hchild _ schema hschema) path x) fun outcome => ?_
    cases outcome with
    | ok value => exact planned_done allows good _ (reports_causes good _ _ _ _ (hown .not []))
    | error w => exact planned_ok allows good x

omit hown in
/-- The branches of a keyword are below the node. -/
theorem allows_of_branches (key : String) (m : Node) (hm : m ∈ n.branches key) : allows m := by
  obtain ⟨i, _, hi⟩ := List.mem_filterMap.mp hm
  exact hchild _ m hi

theorem planned_applyAllOf (x : Json) :
    Planned allows good fun evaluate => n.applyAllOf r evaluate path x := by
  refine planned_foldlM allows good _ _ (fun y m hm => ?_) x
  refine planned_bind allows good _ _
    (planned_done allows good _ (n.reports_isExcluded good r m)) fun excluded => ?_
  cases excluded with
  | true => exact planned_ok allows good y
  | false =>
      refine planned_bind allows good _ _ (planned_verdict allows good m
        (n.allows_of_branches allows hchild _ m hm) path y) fun outcome => ?_
      cases outcome with
      | ok value => exact planned_ok allows good value
      | error w => exact planned_done allows good _ (reports_causes good _ _ _ _ (hown .allOf [w]))

theorem planned_applyAnyOf (x : Json) :
    Planned allows good fun evaluate => n.applyAnyOf evaluate path x := by
  refine planned_bind allows good _ _ (planned_firstAccepted allows good path x _
    (n.allows_of_branches allows hchild _)) fun outcome => ?_
  cases outcome with
  | ok value => exact planned_ok allows good value
  | error causes => exact planned_done allows good _ (reports_causes good _ _ _ _ (hown .anyOf causes))

theorem planned_applyOneOf (x : Json) :
    Planned allows good fun evaluate => n.applyOneOf evaluate path x := by
  refine planned_bind allows good _ _ (planned_mapM allows good _ _ fun m hm => ?_)
    fun verdicts => planned_done allows good _ ?_
  · exact planned_verdict allows good m (n.allows_of_branches allows hchild _ m hm) path x
  · split
    · exact reports_ok good _
    · exact reports_causes good _ _ _ _ (hown .oneOf _)
    · exact reports_causes good _ _ _ _ (hown .oneOf [])

theorem planned_applySelectedOneOf (x : Json) :
    Planned allows good fun evaluate => n.applySelectedOneOf r evaluate path x := by
  refine planned_bind allows good _ _
    (planned_done allows good _ (n.reports_own_selected good path hown x)) fun uri => ?_
  refine planned_bind allows good _ _ (planned_chooseBranch allows good path r uri.text x _
    (n.allows_of_branches allows hchild _) _) fun outcome => planned_done allows good _ ?_
  cases outcome with
  | ok value => exact reports_ok good value
  | error known =>
      dsimp only
      split
      · exact reports_ok good _
      · exact reports_causes good _ _ _ _ (hown .oneOf _)

end Own

end Node

namespace Validator

variable (v : Validator)

/-- A keyword asks schemas below the node, and a discriminator asks others instead.
    It ends with a violation of its own, if with any. -/
theorem planned_evaluateKeyword (allows : Node → Prop) (good : Violation → Prop) (n : Node)
    (path : String) (k : Keyword)
    (hbelow : k ≠ .discriminator → ∀ segments m, n.child? segments = some m → allows m)
    (hselection : k = .discriminator → ∀ m : Node, allows (m.excluding n.scope))
    (hown : ∀ kind causes, good ⟨path, n.scope, kind, causes⟩) (x : Json) :
    Planned allows good fun evaluate => v.evaluateKeyword evaluate k n path x := by
  -- Assertions ask nothing.
  by_cases hassertion : k.isAssertion = true
  · have hsame : ∀ evaluate, v.evaluateKeyword evaluate k n path x
        = v.evaluateKeyword v.evaluate k n path x := by
      intro evaluate
      cases k with
      | type | items | additionalItems | properties | additionalProperties | discriminator
      | allOf | anyOf | oneOf | not => exact absurd hassertion Bool.false_ne_true
      | format =>
          unfold evaluateKeyword
          cases v.dialect with
          | jsonSchema => rfl
          | openApi => rfl
      | _ => rfl
    simp only [hsame]
    exact planned_done allows good _ (n.reports_own_of_checks good path hown x _
      (v.checks_of_isAssertion _ k hassertion n path x))
  · unfold evaluateKeyword
    cases k with
    | items => exact n.planned_applyItems allows good path hown (hbelow nofun) x
    | additionalItems => exact n.planned_applyAdditionalItems allows good path hown (hbelow nofun) x
    | properties => exact n.planned_applyProperties allows good path hown (hbelow nofun) v.registry x
    | additionalProperties =>
        exact n.planned_applyAdditionalProperties allows good path hown (hbelow nofun) x
    | discriminator =>
        cases v.dialect with
        | jsonSchema => exact planned_ok allows good x
        | openApi =>
            exact n.planned_applyDiscriminator allows good path hown (hselection rfl) v.registry x
    | allOf => exact n.planned_applyAllOf allows good path hown (hbelow nofun) v.registry x
    | anyOf => exact n.planned_applyAnyOf allows good path hown (hbelow nofun) x
    | oneOf =>
        have hone := n.planned_applyOneOf allows good path hown (hbelow nofun) x
        cases v.dialect with
        | jsonSchema => exact hone
        | openApi =>
            cases n.has "discriminator" with
            | true =>
                exact n.planned_applySelectedOneOf allows good path hown (hbelow nofun) v.registry x
            | false => exact hone
    | not => exact n.planned_applyNot allows good path hown (hbelow nofun) x
    | type =>
        cases v.dialect with
        | jsonSchema =>
            exact planned_done allows good _ (n.reports_own_of_checks good path hown x _
              (n.checks_checkType path x))
        | openApi =>
            exact planned_done allows good _ (n.reports_own_checkSingleType good path hown _ x)
    | _ => exact absurd rfl hassertion

/-- The violation of a schema is about the value that was evaluated. -/
theorem path_of_evaluateIn (depth : Nat) (n : Node) (path : String) (x : Json) :
    Reports (fun w => w.path = path) (v.evaluateIn depth n path x) := by
  cases depth with
  | zero => exact fun w hw => nomatch Except.error.inj hw
  | succ depth =>
      refine reports_bind _ _ _ (reports_follow _ v.registry n) fun t _ => ?_
      split
      · refine reports_foldlM _ (fun _ => True) _ _ (fun _ _ _ _ _ _ => trivial)
          (fun y k _ _ => ?_) x trivial
        have hplanned := v.planned_evaluateKeyword (fun _ => True) (fun w => w.path = path) t path k
          (fun _ _ _ _ => trivial) (fun _ _ => trivial) (fun _ _ => rfl) y
        exact reports_of_planned _ _ _ hplanned (v.evaluateIn depth)
      · exact reports_causes _ _ _ _ _ rfl
      · exact reports_ok _ x

end Validator

end OpenApi
