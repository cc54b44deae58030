import OpenApi.Proofs.Evaluation.Acceptance
import OpenApi.Proofs.Evaluation.Growth
import OpenApi.Proofs.Pointer

/-!
# The Tree of Causes

A violation carries the violations that caused it. Read from the top, such a
tree follows the instance: a combinator looks at the same value as its branches
do, so its causes are at its own path, and a keyword on members has its causes
one segment further down, no two of them at one place. Every other violation has
no causes.

The schemas are free in this. What counts is the path that a keyword passes down
to a subschema, and that each keyword collects at most one violation for each
member. That members are judged once needs distinct keys: those of the instance
for `additionalProperties`, and those of the document for `properties`. Earlier
keywords keep the keys of the instance distinct, since instances grow only.

Paths are compared as texts. Distinct segments give distinct paths because a
segment is escaped before it is pushed, and a slash inside it is not taken for a
separator.

## Main definitions

* `Violation.Fits`: The causes are where the kind of violation puts them.
* `Violation.Mirrors`: This holds through the whole tree.

## Theorems

* `describes_of_gathered`: Violations of distinct members make a tree.
* `reports_applyItems` and its companions: Keywords that apply subschemas.
* `evaluateIn_mirrors`: The tree of any violation mirrors the instance.
-/

namespace OpenApi

namespace Violation

/-- The causes are one segment below a path. -/
def OneBelow (path : String) (causes : List Violation) : Prop :=
  ∀ w ∈ causes, ∃ segment, w.path = Pointer.push path segment

/-- The causes are where a violation of that kind puts them. A discriminator
    either finds its property missing, or takes over the violation of the
    selected schema. -/
def Fits (path : String) (kind : ViolationKind) (causes : List Violation) : Prop :=
  match kind with
  | .allOf | .anyOf | .oneOf => ∀ w ∈ causes, w.path = path
  | .items | .additionalItems | .properties | .additionalProperties =>
      OneBelow path causes ∧ (causes.map Violation.path).Nodup
  | .required => OneBelow path causes
  | .discriminator =>
      (∃ w, causes = [w] ∧ w.path = path)
        ∨ ∃ property scope, causes = [⟨Pointer.push path property, scope, .required, []⟩]
  | _ => causes = []

/-- The tree of causes follows the structure of the instance. -/
inductive Mirrors : Violation → Prop where
  /-- The direct causes fit, and so do those below them. -/
  | node (path scope : String) (kind : ViolationKind) (causes : List Violation) :
      Fits path kind causes → (∀ w ∈ causes, Mirrors w) → Mirrors ⟨path, scope, kind, causes⟩

/-- The violation is about the value at a path, and its causes mirror that value. -/
def Describes (path : String) (w : Violation) : Prop := w.path = path ∧ w.Mirrors

variable (path scope : String)

theorem fits_nil (kind : ViolationKind) (hkind : kind ≠ .discriminator) : Fits path kind [] := by
  have hnone : OneBelow path [] := fun w hw => absurd hw List.not_mem_nil
  cases kind with
  | allOf => exact fun w hw => absurd hw List.not_mem_nil
  | anyOf => exact fun w hw => absurd hw List.not_mem_nil
  | oneOf => exact fun w hw => absurd hw List.not_mem_nil
  | items => exact ⟨hnone, List.nodup_nil⟩
  | additionalItems => exact ⟨hnone, List.nodup_nil⟩
  | properties => exact ⟨hnone, List.nodup_nil⟩
  | additionalProperties => exact ⟨hnone, List.nodup_nil⟩
  | required => exact hnone
  | discriminator => exact absurd rfl hkind
  | _ => exact rfl

theorem describes_nil (kind : ViolationKind) (hkind : kind ≠ .discriminator) :
    Describes path ⟨path, scope, kind, []⟩ :=
  ⟨rfl, .node path scope kind [] (fits_nil path kind hkind) fun _ hw => absurd hw List.not_mem_nil⟩

/-- Violations of some of the members under given segments, in their order. -/
def Gathered (segments : List String) (causes : List Violation) : Prop :=
  (causes.map Violation.path).Sublist (segments.map (Pointer.push path)) ∧ ∀ w ∈ causes, w.Mirrors

/-- Members under distinct segments are at distinct paths. -/
theorem describes_of_gathered (kind : ViolationKind)
    (hkind : ∀ causes, OneBelow path causes → (causes.map Violation.path).Nodup →
      Fits path kind causes)
    (segments : List String) (hsegments : segments.Nodup) (causes : List Violation)
    (h : Gathered path segments causes) : Describes path ⟨path, scope, kind, causes⟩ := by
  refine ⟨rfl, .node path scope kind causes (hkind causes (fun w hw => ?_) ?_) h.2⟩
  · obtain ⟨segment, _, hpath⟩ := List.mem_map.mp (h.1.subset (List.mem_map_of_mem hw))
    exact ⟨segment, hpath.symm⟩
  · exact h.1.nodup (hsegments.map (Pointer.push_injective path))

/-- Violations at the same path, as a combinator collects them. -/
theorem describes_of_same (kind : ViolationKind)
    (hkind : ∀ causes, (∀ w ∈ causes, w.path = path) → Fits path kind causes)
    (causes : List Violation) (h : ∀ w ∈ causes, Describes path w) :
    Describes path ⟨path, scope, kind, causes⟩ :=
  ⟨rfl, .node path scope kind causes (hkind causes fun w hw => (h w hw).1) fun w hw => (h w hw).2⟩

end Violation

open Violation

/-- Of the schemas of a registry, an evaluation keeps the keys of instances
    distinct, and its violations mirror the instance. -/
structure Evaluation.Explains (evaluate : Evaluation) (r : Registry) : Prop where
  /-- What is returned has distinct keys. -/
  wellFormed : ∀ m path x y, r.Holds m → x.WellFormed → evaluate m path x = .ok y → y.WellFormed
  /-- A violation describes the value at its path. -/
  reports : ∀ m path x, r.Holds m → x.WellFormed → Reports (Describes path) (evaluate m path x)

namespace Node

variable (r : Registry) (n : Node) (evaluate : Evaluation) (path : String)

theorem reports_of_checks (x : Json) (result : Except Failure Json) (h : n.Checks path x result) :
    Reports (Describes path) result := by
  cases h with
  | accepted => exact reports_ok _ x
  | unusable e => exact reports_schema _ e
  | rejected kind hkind => exact reports_causes _ _ _ _ _ (describes_nil path n.scope kind hkind)
  | missing names =>
      refine reports_causes _ _ _ _ _ ⟨rfl, .node _ _ _ _ (fun w hw => ?_) fun w hw => ?_⟩
      · obtain ⟨name, _, rfl⟩ := List.mem_map.mp hw
        exact ⟨name, rfl⟩
      · obtain ⟨name, _, rfl⟩ := List.mem_map.mp hw
        exact (describes_nil _ n.scope .required (by decide)).2

section Members

/-- The violations among verdicts, each of them about the member it is for. -/
theorem gathered_of_verdicts {α β : Type} (segment : α → String) (items : List α)
    (verdicts : List (Verdict β))
    (h : List.Forall₂ (fun item verdict => ∀ w, verdict = .error w →
      Describes (Pointer.push path (segment item)) w) items verdicts) :
    Gathered path (items.map segment) (verdicts.filterMap Verdict.violation?) := by
  induction h with
  | nil => exact ⟨List.Sublist.slnil, fun w hw => absurd hw List.not_mem_nil⟩
  | @cons item verdict _ _ hverdict _ ih =>
      cases verdict with
      | ok value => exact ⟨ih.1.cons _, ih.2⟩
      | error w =>
          obtain ⟨hpath, hmirrors⟩ := hverdict w rfl
          refine ⟨?_, fun w' hw' => ?_⟩
          · simp only [List.filterMap_cons, Verdict.violation?, List.map_cons, hpath]
            exact ih.1.cons_cons _
          · rcases List.mem_cons.mp hw' with rfl | hw'
            · exact hmirrors
            · exact ih.2 w' hw'

/-- A keyword that judges members under distinct segments and gathers the
    verdicts. -/
theorem reports_collect {α β : Type} (kind : ViolationKind)
    (hkind : ∀ causes, OneBelow path causes → (causes.map Violation.path).Nodup →
      Fits path kind causes)
    (segment : α → String) (items : List α) (hsegments : (items.map segment).Nodup)
    (step : α → Except Failure (Verdict β)) (wrap : List β → Json)
    (hquiet : ∀ item ∈ items, Reports (Describes path) (step item))
    (hstep : ∀ item ∈ items, ∀ w, step item = .ok (.error w) →
      Describes (Pointer.push path (segment item)) w) :
    Reports (Describes path) (do
      let verdicts ← items.mapM step
      let values ← n.gather path kind verdicts
      .ok (wrap values)) := by
  refine reports_bind _ _ _ (reports_mapM _ step items hquiet) fun verdicts hverdicts => ?_
  refine reports_bind _ _ _ ?_ fun values _ => reports_ok _ _
  unfold gather
  split
  · exact reports_ok _ _
  · refine reports_causes _ _ _ _ _
      (describes_of_gathered path n.scope kind hkind _ hsegments _ ?_)
    -- Each verdict is the outcome of a step, so a rejection is of that step's item.
    refine gathered_of_verdicts path segment items verdicts ?_
    have hloop := (mapM_eq_ok_iff step items verdicts).mp hverdicts
    refine ((List.forall₂_and_left _ _).mpr ⟨fun _ hitem => hitem, hloop⟩).imp ?_
    rintro item verdict ⟨hitem, hverdict⟩ w rfl
    exact hstep item hitem w hverdict

theorem reports_judge (schema? : Option Node) (segment : String) (x : Json) :
    Reports (Describes path) (judge evaluate schema? path segment x) := by
  cases schema? with
  | none => exact reports_ok _ _
  | some m => exact reports_verdict _ _

/-- The violation of a member is that of its schema, at the path of the member. -/
theorem describes_of_judge (schema? : Option Node) (segment : String) (x : Json)
    (h : ∀ m, schema? = some m →
      Reports (Describes (Pointer.push path segment)) (evaluate m (Pointer.push path segment) x))
    (w : Violation) (hw : judge evaluate schema? path segment x = .ok (.error w)) :
    Describes (Pointer.push path segment) w := by
  cases schema? with
  | none => exact nomatch Except.ok.inj hw
  | some m => exact h m rfl w ((verdict_eq_error_iff _ w).mp hw)

theorem reports_judgeAdditional (key : String) (kind : ViolationKind) (segment : String) (x : Json) :
    Reports (Describes path) (n.judgeAdditional evaluate key kind path segment x) := by
  unfold judgeAdditional
  split
  · exact reports_ok _ _
  · exact reports_judge evaluate path _ segment x

theorem describes_of_judgeAdditional (key : String) (kind : ViolationKind)
    (hkind : kind ≠ .discriminator) (segment : String) (x : Json)
    (h : ∀ m, n.child? [key] = some m →
      Reports (Describes (Pointer.push path segment)) (evaluate m (Pointer.push path segment) x))
    (w : Violation)
    (hw : n.judgeAdditional evaluate key kind path segment x = .ok (.error w)) :
    Describes (Pointer.push path segment) w := by
  unfold judgeAdditional at hw
  split at hw
  · rw [← Except.error.inj (Except.ok.inj hw)]
    exact describes_nil _ n.scope kind hkind
  · exact describes_of_judge evaluate path _ segment x h w hw

/-- The places in an array are distinct segments. -/
theorem nodup_places (items : List Json) :
    (items.zipIdx.map fun pair => toString pair.2).Nodup := by
  have hplaces := congrArg (List.map toString) (List.zipIdx_map_snd 0 items)
  rw [List.map_map] at hplaces
  exact hplaces ▸ List.Nodup.map Pointer.toString_injective (List.nodup_range' 1)

variable (x : Json) (h : ∀ m y, n.Applies r x m y → ∀ path, Reports (Describes path) (evaluate m path y))

include h

theorem reports_applyItems : Reports (Describes path) (n.applyItems evaluate path x) := by
  unfold applyItems
  split
  · rename_i items
    refine n.reports_collect path .items (fun _ hbelow hnodup => ⟨hbelow, hnodup⟩)
      (fun pair : Json × Nat => toString pair.2) items.zipIdx (nodup_places items) _ _
      (fun pair _ => reports_judge evaluate path _ _ pair.1) fun pair hpair w hw => ?_
    refine describes_of_judge evaluate path _ _ pair.1 (fun m hm => ?_) w hw
    exact h m pair.1 (.item items pair.2 pair.1 m (List.mem_zipIdx_iff_getElem?.mp hpair) hm) _
  · exact reports_ok _ _

theorem reports_applyAdditionalItems :
    Reports (Describes path) (n.applyAdditionalItems evaluate path x) := by
  unfold applyAdditionalItems
  split
  -- Items that the list under `items` covers are passed on unseen, and leave no violation.
  · rename_i tuple items htuple
    refine n.reports_collect path .additionalItems (fun _ hbelow hnodup => ⟨hbelow, hnodup⟩)
      (fun pair : Json × Nat => toString pair.2) items.zipIdx (nodup_places items) _ _
      (fun pair _ => ?_) fun pair hpair w hw => ?_
    · dsimp only
      by_cases hi : pair.2 < tuple.length
      · rw [if_pos hi]
        exact reports_ok _ _
      · rw [if_neg hi]
        exact n.reports_judgeAdditional evaluate path _ _ _ pair.1
    · dsimp only at hw
      by_cases hi : pair.2 < tuple.length
      · rw [if_pos hi] at hw
        exact nomatch Except.ok.inj hw
      · rw [if_neg hi] at hw
        refine n.describes_of_judgeAdditional evaluate path _ .additionalItems (by decide) _ pair.1
          (fun m hm => ?_) w hw
        exact h m pair.1 (.additionalItem items tuple pair.2 pair.1 m htuple (Nat.not_lt.mp hi)
          (List.mem_zipIdx_iff_getElem?.mp hpair) hm) _
  · exact reports_ok _ _

theorem reports_applyAdditionalProperties (hx : x.WellFormed) :
    Reports (Describes path) (n.applyAdditionalProperties evaluate path x) := by
  unfold applyAdditionalProperties
  split
  -- The violations are as far apart as the members are, and their keys are distinct.
  · rename_i members
    refine n.reports_collect path .additionalProperties (fun _ hbelow hnodup => ⟨hbelow, hnodup⟩)
      (fun entry : String × Json => entry.1) members
      ((Json.wellFormed_object_iff members).mp hx).1 _ _ (fun entry _ => ?_)
      fun entry hentry w hw => ?_
    · dsimp only
      split
      · exact reports_ok _ _
      · exact reports_bind _ _ _ (n.reports_judgeAdditional evaluate path _ _ _ entry.2)
          fun _ _ => reports_ok _ _
    · dsimp only at hw
      split at hw
      · exact nomatch Except.ok.inj hw
      · rename_i hother
        -- Putting the key back beside the value changes no violation.
        obtain ⟨verdict, hverdict, hw⟩ := (bind_eq_ok_iff _ _ _).mp hw
        cases verdict with
        | ok value => exact nomatch Except.ok.inj hw
        | error w' =>
            have hsame : w' = w := Except.error.inj (Except.ok.inj hw)
            rw [hsame] at hverdict
            refine n.describes_of_judgeAdditional evaluate path _ .additionalProperties (by decide) _
              entry.2 (fun m hm => ?_) w hverdict
            exact h m entry.2 (.additionalProperty members entry.1 entry.2 m hentry
              (eq_false_of_ne_true hother) hm) _
  · exact reports_ok _ _

end Members

section Properties

variable (hdocuments : ∀ entry ∈ r.documents, entry.2.WellFormed) (hn : r.Holds n)
  (h : evaluate.Explains r)

/-- All members are without repeated keys, at every level. -/
def Tidy (members : Ordered Json) : Prop := ∀ entry ∈ members, entry.2.WellFormed

theorem tidy_insert (members : Ordered Json) (hmembers : Tidy members) (name : String)
    (value : Json) (hvalue : value.WellFormed) : Tidy (Ordered.insert members name value) := by
  intro entry hentry
  rcases Ordered.mem_insert members name value entry hentry with rfl | hentry
  · exact hvalue
  · exact hmembers entry hentry

theorem tidy_put (members : Ordered Json) (hmembers : Tidy members) (name : String)
    (value : Json) (hvalue : value.WellFormed) :
    Tidy (Ordered.insert (Ordered.erase members name) name value) :=
  tidy_insert _ (fun entry hentry => hmembers entry (Ordered.mem_of_mem_erase members name entry
    hentry)) name value hvalue

include hdocuments hn h

/-- A step of the loop over declared names leaves the members tidy, and adds a
    violation of the member it comes to, if any. -/
theorem gathered_of_visits (declared : Ordered Json)
    (hdeclared : n.get? "properties" = some (.object declared)) (p p' : Progress) (name : String)
    (hp : Tidy p.members) (hvisits : n.Visits r evaluate path name p p') :
    Tidy p'.members ∧ ∃ ws, p'.causes = p.causes ++ ws ∧ Gathered path [name] ws := by
  have hholds : ∀ schema, n.child? ["properties", name] = some schema → r.Holds schema :=
    fun schema hchild => r.closed_holds.child? r _ n schema hn
      (n.canonical_property schema declared name hdeclared hchild) hchild
  have hvalues : ∀ value, Ordered.get? p.members name = some value → value.WellFormed :=
    fun value hvalue => hp _ (Ordered.mem_of_get? p.members name value hvalue)
  -- An accepted member leaves nothing behind, and a rejected one just the one violation.
  cases hvisits with
  | accepted members hplaces =>
      refine ⟨?_, [], (List.append_nil p.causes).symm, List.nil_sublist _,
        fun w hw => absurd hw List.not_mem_nil⟩
      cases hplaces with
      | undeclared _ => exact hp
      | present schema value value' hchild hvalue hevaluate =>
          exact tidy_put p.members hp name value' (h.wellFormed schema _ value value'
            (hholds schema hchild) (hvalues value hvalue) hevaluate)
      | added schema value hchild _ hdefault =>
          exact tidy_insert p.members hp name value
            (r.wellFormed_of_default? hdocuments schema (hholds schema hchild) value hdefault)
      | absent _ _ _ _ => exact hp
  | rejected schema value w hchild hvalue hevaluate =>
      have hvalue' := hvalues value hvalue
      obtain ⟨hpath, hmirrors⟩ := h.reports schema _ value (hholds schema hchild) hvalue' w hevaluate
      refine ⟨tidy_put p.members hp name value hvalue', [w], rfl, ?_, fun w' hw' => ?_⟩
      · simp only [List.map_cons, List.map_nil, hpath]
        exact List.Sublist.refl _
      · rw [List.mem_singleton.mp hw']
        exact hmirrors

/-- The loop collects violations of declared members, in the order of their
    declaration. -/
theorem gathered_of_foldlM (declared : Ordered Json)
    (hdeclared : n.get? "properties" = some (.object declared)) (names : List String) :
    ∀ p p' : Progress, Tidy p.members →
      names.foldlM (n.applyProperty r evaluate path) p = .ok p' →
        ∃ ws, p'.causes = p.causes ++ ws ∧ Gathered path names ws := by
  induction names with
  | nil =>
      intro p p' _ hloop
      rw [← Except.ok.inj hloop]
      exact ⟨[], (List.append_nil p.causes).symm, List.nil_sublist _,
        fun w hw => absurd hw List.not_mem_nil⟩
  | cons name rest ih =>
      intro p p' hp hloop
      rw [List.foldlM_cons] at hloop
      obtain ⟨next, hnext, hloop⟩ := (bind_eq_ok_iff _ _ p').mp hloop
      obtain ⟨htidy, ws, hws, hfirst⟩ := n.gathered_of_visits r evaluate path hdocuments hn h declared
        hdeclared p next name hp (n.visits_of_applyProperty r evaluate path p next name hnext)
      obtain ⟨ws', hws', hrest⟩ := ih next p' htidy hloop
      -- The causes of the first name stand in front, as the name does.
      refine ⟨ws ++ ws', by rw [hws', hws, List.append_assoc], ?_, fun w hw => ?_⟩
      · rw [List.map_append]
        exact hfirst.1.append hrest.1
      · exact (List.mem_append.mp hw).elim (hfirst.2 w) (hrest.2 w)

omit hdocuments hn h in
/-- A step of the loop collects violations and reports none. -/
theorem reports_applyProperty (p : Progress) (name : String) :
    Reports (Describes path) (n.applyProperty r evaluate path p name) := by
  unfold applyProperty
  split
  · exact reports_ok _ p
  · rename_i schema _
    split
    · refine reports_bind _ _ _ (reports_judge evaluate path _ name _) fun verdict _ => ?_
      cases verdict with
      | ok value => exact reports_ok _ _
      | error w => exact reports_ok _ _
    · refine reports_bind _ _ _ ?_ fun default? _ => ?_
      · exact reports_bind _ _ _ (reports_follow _ r schema) fun _ _ => reports_ok _ _
      · cases default? with
        | none => exact reports_ok _ _
        | some value => exact reports_ok _ _

theorem reports_applyProperties (x : Json) (hx : x.WellFormed) :
    Reports (Describes path) (n.applyProperties r evaluate path x) := by
  unfold applyProperties
  split
  · rename_i members declared hdeclared
    refine reports_bind _ _ _ ?_ fun p hloop => ?_
    · exact reports_foldlM _ (fun _ => True) _ _ (fun _ _ _ _ _ _ => trivial)
        (fun p name _ _ => n.reports_applyProperty r evaluate path p name) _ trivial
    · split
      · exact reports_ok _ _
      · have hnames := r.nodup_keys_of_get? hdocuments n hn "properties" declared hdeclared
        obtain ⟨ws, hws, hgathered⟩ := n.gathered_of_foldlM r evaluate path hdocuments hn h declared
          hdeclared (Ordered.keys declared) ⟨members, []⟩ p ((Json.wellFormed_object_iff members).mp hx).2 hloop
        rw [List.nil_append] at hws
        exact reports_causes _ _ _ _ _ (describes_of_gathered path n.scope .properties
          (fun _ hbelow hnodup => ⟨hbelow, hnodup⟩) (Ordered.keys declared)
          hnames _ (hws ▸ hgathered))
  · exact reports_ok _ _

end Properties

section Combinators

/-- The violation of a single branch, taken over by the keyword. -/
theorem describes_singleton (kind : ViolationKind) (hkind : kind = .allOf ∨ kind = .discriminator)
    (w : Violation) (hw : Describes path w) : Describes path ⟨path, n.scope, kind, [w]⟩ := by
  refine ⟨rfl, .node path n.scope kind [w] ?_ fun w' hw' => (List.mem_singleton.mp hw').symm ▸ hw.2⟩
  rcases hkind with rfl | rfl
  · exact fun w' hw' => (List.mem_singleton.mp hw').symm ▸ hw.1
  · exact Or.inl ⟨w, rfl, hw.1⟩

theorem reports_applyMember (x : Json) (m : Node) (h : Reports (Describes path) (evaluate m path x)) :
    Reports (Describes path) (n.applyMember r evaluate path x m) := by
  unfold applyMember
  refine reports_bind _ _ _ (n.reports_isExcluded _ r m) fun _ _ => ?_
  split
  · exact reports_ok _ x
  · refine reports_bind _ _ _ (reports_verdict _ _) fun verdict hverdict => ?_
    cases verdict with
    | ok value => exact reports_ok _ value
    | error w =>
        exact reports_causes _ _ _ _ _ (n.describes_singleton path .allOf (Or.inl rfl) w
          (h w ((verdict_eq_error_iff _ w).mp hverdict)))

/-- The branches of `allOf` see what the branches before them have returned. -/
theorem reports_applyAllOf (hn : r.Holds n) (h : evaluate.Explains r) (x : Json)
    (hx : x.WellFormed) : Reports (Describes path) (n.applyAllOf r evaluate path x) := by
  have hholds : ∀ m ∈ n.branches "allOf", r.Holds m := fun m hm =>
    r.closed_holds.branches r n m "allOf" hn hm
  unfold applyAllOf
  refine reports_foldlM _ Json.WellFormed _ _ (fun y m z hm hy hz => ?_)
    (fun y m hm hy => n.reports_applyMember r evaluate path y m (h.reports m path y (hholds m hm) hy))
    x hx
  rcases (n.applyMember_eq_ok_iff r evaluate path y m z).mp hz with ⟨_, rfl⟩ | ⟨_, hz⟩
  · exact hy
  · exact h.wellFormed m path y z (hholds m hm) hy hz

variable (x : Json) (h : ∀ m y, n.Applies r x m y → ∀ path, Reports (Describes path) (evaluate m path y))

theorem reports_firstAccepted (branches : List Node) :
    Reports (Describes path) (firstAccepted evaluate path x branches) := by
  induction branches with
  | nil => exact reports_ok _ _
  | cons m rest ih =>
      unfold firstAccepted
      refine reports_bind _ _ _ (reports_verdict _ _) fun verdict _ => ?_
      cases verdict with
      | ok value => exact reports_ok _ _
      | error w => exact reports_bind _ _ _ ih fun _ _ => reports_ok _ _

/-- If no branch accepts, what is known are the violations of all. -/
theorem describes_of_firstAccepted (branches : List Node)
    (hbranches : ∀ m ∈ branches, Reports (Describes path) (evaluate m path x)) :
    ∀ causes, firstAccepted evaluate path x branches = .ok (.error causes) →
      ∀ w ∈ causes, Describes path w := by
  induction branches with
  | nil =>
      intro causes hcauses w hw
      rw [← Except.error.inj (Except.ok.inj hcauses)] at hw
      exact absurd hw List.not_mem_nil
  | cons m rest ih =>
      intro causes hcauses
      unfold firstAccepted at hcauses
      obtain ⟨verdict, hverdict, hcauses⟩ := (bind_eq_ok_iff _ _ _).mp hcauses
      -- Where a branch accepts there are no causes, so this one and the others have rejected.
      cases verdict with
      | ok value => cases hcauses
      | error w =>
          obtain ⟨others, hothers, hcauses⟩ := (bind_eq_ok_iff _ _ _).mp hcauses
          cases others with
          | ok value => cases hcauses
          | error ws =>
              rw [← Except.error.inj (Except.ok.inj hcauses)]
              have hfirst := hbranches m List.mem_cons_self w ((verdict_eq_error_iff _ w).mp hverdict)
              have hrest := ih (fun m' hm' => hbranches m' (List.mem_cons_of_mem m hm')) ws hothers
              exact List.forall_mem_cons.mpr ⟨hfirst, hrest⟩

theorem describes_of_mapM (branches : List Node)
    (hbranches : ∀ m ∈ branches, Reports (Describes path) (evaluate m path x))
    (verdicts : List (Verdict Json))
    (hverdicts : branches.mapM (fun m => verdict (evaluate m path x)) = .ok verdicts) :
    ∀ w ∈ verdicts.filterMap Verdict.violation?, Describes path w := by
  intro w hw
  obtain ⟨outcome, houtcome, hw⟩ := List.mem_filterMap.mp hw
  obtain ⟨m, hm, hverdict⟩ := exists_of_forall₂ _ _ ((mapM_eq_ok_iff _ _ _).mp hverdicts) outcome
    houtcome
  cases outcome with
  | ok value => exact nomatch hw
  | error w' =>
      rw [← Option.some.inj hw]
      exact hbranches m hm w' ((verdict_eq_error_iff _ w').mp hverdict)

include h

theorem reports_applyAnyOf : Reports (Describes path) (n.applyAnyOf evaluate path x) := by
  unfold applyAnyOf
  refine reports_bind _ _ _ (reports_firstAccepted evaluate path x _) fun outcome houtcome => ?_
  cases outcome with
  | ok value => exact reports_ok _ value
  | error causes =>
      refine reports_causes _ _ _ _ _ (describes_of_same path n.scope .anyOf (fun _ hsame => hsame)
        causes (describes_of_firstAccepted evaluate path x _ (fun m hm => ?_) causes houtcome))
      exact h m x (.choice "anyOf" x m (Or.inl rfl) hm) path

theorem reports_applyOneOf : Reports (Describes path) (n.applyOneOf evaluate path x) := by
  unfold applyOneOf
  refine reports_bind _ _ _ (reports_mapM _ _ _ fun m _ => reports_verdict _ _)
    fun verdicts hverdicts => ?_
  have hcauses := describes_of_mapM evaluate path x (n.branches "oneOf")
    (fun m hm => h m x (.choice "oneOf" x m (Or.inr rfl) hm) path) verdicts hverdicts
  split
  · exact reports_ok _ _
  · exact reports_causes _ _ _ _ _
      (describes_of_same path n.scope .oneOf (fun _ hsame => hsame) _ hcauses)
  · exact reports_causes _ _ _ _ _ (describes_nil path n.scope .oneOf (by decide))

omit h in
theorem reports_applyNot : Reports (Describes path) (n.applyNot evaluate path x) := by
  unfold applyNot
  split
  · exact reports_ok _ x
  · refine reports_bind _ _ _ (reports_verdict _ _) fun verdict _ => ?_
    cases verdict with
    | ok value => exact reports_causes _ _ _ _ _ (describes_nil path n.scope .not (by decide))
    | error w => exact reports_ok _ x

omit h in
/-- What the discriminator needs may be missing from the instance. -/
theorem reports_selected : Reports (Describes path) (n.selected path x) := by
  unfold selected
  split
  · rename_i property _
    split
    · refine reports_bind _ _ _ (fun w hw => ?_) fun target _ => ?_
      · unfold mapped at hw
        dsimp only at hw
        split at hw <;> exact nomatch hw
      · dsimp only
        split
        · exact reports_ok _ _
        · exact reports_schema _ _
    · refine reports_causes _ _ _ _ _ ⟨rfl, .node _ _ _ _ ?_ fun w hw => ?_⟩
      · exact Or.inr ⟨property, n.scope, rfl⟩
      · rw [List.mem_singleton.mp hw]
        exact (describes_nil _ n.scope .required (by decide)).2
  · exact reports_schema _ _

theorem reports_applyDiscriminator :
    Reports (Describes path) (n.applyDiscriminator r evaluate path x) := by
  unfold applyDiscriminator
  -- The only violation of its own stands above that of the schema that was selected.
  refine reports_bind _ _ _ (n.reports_selected path x) fun uri huri => ?_
  split
  · exact reports_ok _ x
  · rename_i hchoice
    rw [Bool.or_eq_true, not_or, Bool.not_eq_true, Bool.not_eq_true] at hchoice
    split
    · exact reports_schema _ _
    · rename_i m hm
      refine reports_bind _ _ _ (reports_follow _ r m) fun target htarget => ?_
      split
      · exact reports_ok _ x
      · rename_i hscope
        have hselects : n.Selects r x m :=
          ⟨hchoice.1, hchoice.2, path, uri, target, huri, hm, htarget, hscope⟩
        refine reports_bind _ _ _ (reports_verdict _ _) fun verdict hverdict => ?_
        cases verdict with
        | ok value => exact reports_ok _ value
        | error w =>
            have hw := h _ x (.selection x m hselects) path w ((verdict_eq_error_iff _ w).mp hverdict)
            exact reports_causes _ _ _ _ _ (n.describes_singleton path .discriminator (Or.inr rfl) w hw)

omit h in
theorem reports_chooseBranch (scope : String) (branches : List Node) :
    ∀ known, Reports (Describes path) (chooseBranch r evaluate scope path x branches known) := by
  induction branches with
  | nil => exact fun known => reports_ok _ _
  | cons m rest ih =>
      intro known
      unfold chooseBranch
      refine reports_bind _ _ _ (reports_follow _ r m) fun target _ => ?_
      refine reports_bind _ _ _ (reports_verdict _ _) fun verdict _ => ?_
      cases verdict with
      | ok value =>
          dsimp only
          split
          · exact reports_ok _ _
          · exact ih _
      | error w => exact ih _

omit h in
/-- The branches under a discriminator leave violations at the same path. -/
theorem describes_of_chooseBranch (scope : String) (branches : List Node)
    (hbranches : ∀ m ∈ branches, Reports (Describes path) (evaluate m path x)) :
    ∀ known known' : Choice, (∀ w ∈ known.causes, Describes path w) →
      chooseBranch r evaluate scope path x branches known = .ok (.error known') →
        ∀ w ∈ known'.causes, Describes path w := by
  induction branches with
  | nil =>
      intro known known' hknown hchoice
      rw [← Except.error.inj (Except.ok.inj hchoice)]
      exact hknown
  | cons m rest ih =>
      intro known known' hknown hchoice
      have hrest := ih fun m' hm' => hbranches m' (List.mem_cons_of_mem m hm')
      unfold chooseBranch at hchoice
      obtain ⟨target, _, hchoice⟩ := (bind_eq_ok_iff _ _ _).mp hchoice
      obtain ⟨verdict, hverdict, hchoice⟩ := (bind_eq_ok_iff _ _ _).mp hchoice
      -- A branch that accepts leaves the causes as they are, one that rejects adds its own.
      cases verdict with
      | ok value =>
          dsimp only at hchoice
          split at hchoice
          · cases hchoice
          · refine hrest _ known' ?_ hchoice
            exact hknown
      | error w =>
          have hw := hbranches m List.mem_cons_self w ((verdict_eq_error_iff _ w).mp hverdict)
          refine hrest _ known' (fun w' hw' => ?_) hchoice
          rcases List.mem_append.mp hw' with hw' | hw'
          · exact hknown w' hw'
          · rw [List.mem_singleton.mp hw']
            exact hw

theorem reports_applySelectedOneOf :
    Reports (Describes path) (n.applySelectedOneOf r evaluate path x) := by
  unfold applySelectedOneOf
  refine reports_bind _ _ _ (n.reports_selected path x) fun uri _ => ?_
  have hbranches : ∀ m ∈ n.branches "oneOf", Reports (Describes path) (evaluate m path x) :=
    fun m hm => h m x (.choice "oneOf" x m (Or.inr rfl) hm) path
  refine reports_bind _ _ _ (reports_chooseBranch r evaluate path x uri.text _ _)
    fun outcome houtcome => ?_
  cases outcome with
  | ok value => exact reports_ok _ value
  | error known =>
      dsimp only
      split
      · exact reports_ok _ _
      · exact reports_causes _ _ _ _ _ (describes_of_same path n.scope .oneOf (fun _ hsame => hsame) _
          (describes_of_chooseBranch r evaluate path x uri.text _ hbranches _ known
            (fun w hw => absurd hw List.not_mem_nil) houtcome))

end Combinators

end Node

namespace Validator

variable (v : Validator) (hdocuments : ∀ entry ∈ v.registry.documents, entry.2.WellFormed)

section Keywords

variable (evaluate : Evaluation) (n : Node) (hn : v.registry.Holds n)
  (h : evaluate.Explains v.registry)

include hdocuments hn h

theorem reports_evaluateKeyword (k : Keyword) (path : String) (x : Json) (hx : x.WellFormed) :
    Reports (Describes path) (v.evaluateKeyword evaluate k n path x) := by
  have hsub : ∀ m y, n.Applies v.registry x m y → ∀ path,
      Reports (Describes path) (evaluate m path y) := fun m y hm path =>
    h.reports m path y (v.registry.closed_holds.applies _ n m x y hn hm)
      (Json.wellFormed_of_mem_parts x y hx (Node.mem_parts_of_applies v.registry n m x y hm))
  -- Assertions leave a violation without causes, and every other keyword has its own lemma.
  by_cases hassertion : k.isAssertion = true
  · exact n.reports_of_checks path x _ (v.checks_of_isAssertion evaluate k hassertion n path x)
  · unfold evaluateKeyword
    cases k with
    | type =>
        have hcheck := fun y => n.reports_of_checks path y _ (n.checks_checkType path y)
        cases v.dialect with
        | jsonSchema => exact hcheck x
        | openApi =>
            dsimp only
            unfold Node.checkSingleType
            split
            · split
              · exact reports_ok _ x
              · split
                · exact hcheck _
                · exact hcheck x
            · exact reports_schema _ _
    | items => exact n.reports_applyItems v.registry evaluate path x hsub
    | additionalItems => exact n.reports_applyAdditionalItems v.registry evaluate path x hsub
    | properties => exact n.reports_applyProperties v.registry evaluate path hdocuments hn h x hx
    | additionalProperties =>
        exact n.reports_applyAdditionalProperties v.registry evaluate path x hsub hx
    | discriminator =>
        cases v.dialect with
        | jsonSchema => exact reports_ok _ x
        | openApi => exact n.reports_applyDiscriminator v.registry evaluate path x hsub
    | allOf => exact n.reports_applyAllOf v.registry evaluate path hn h x hx
    | anyOf => exact n.reports_applyAnyOf v.registry evaluate path x hsub
    | oneOf =>
        have hone := n.reports_applyOneOf v.registry evaluate path x hsub
        cases v.dialect with
        | jsonSchema => exact hone
        | openApi =>
            dsimp only
            split
            · exact n.reports_applySelectedOneOf v.registry evaluate path x hsub
            · exact hone
    | not => exact n.reports_applyNot evaluate path x
    | _ => exact absurd rfl hassertion

end Keywords

include hdocuments

/-- Every evaluation of the schemas of a registry explains its rejections. -/
theorem explains_evaluateIn (depth : Nat) : (v.evaluateIn depth).Explains v.registry := by
  induction depth with
  | zero =>
      refine ⟨fun m path x y hm hx hy => ?_, fun m path x hm hx w hw => ?_⟩
      · cases hy
      · cases hw
  | succ depth ih =>
      refine ⟨fun m path x y hm hx hy =>
        (v.grows_of_evaluateIn hdocuments (depth + 1) m hm path x y hy hx).1,
        fun m path x hm hx => ?_⟩
      unfold evaluateIn evaluateWith
      refine reports_bind _ _ _ (reports_follow _ v.registry m) fun t ht => ?_
      have ht' := v.registry.closed_holds.follow _ m t hm ht
      split
      · -- Each keyword sees an instance that has grown, so its keys are still distinct.
        refine reports_foldlM _ Json.WellFormed _ _ (fun y k z _ hy hz => ?_)
          (fun y k _ hy => v.reports_evaluateKeyword hdocuments _ t ht' ih k path y hy) x hx
        exact (v.grows_of_evaluateKeyword hdocuments depth k t ht' path y z hz hy).1
      · exact reports_causes _ _ _ _ _ (describes_nil path t.scope .not (by decide))
      · exact reports_ok _ x

/-- An evaluation that fails either meets an unusable schema, or rejects with a
    violation at the path it started from, whose causes mirror the instance. -/
theorem evaluateIn_mirrors (depth : Nat) (n : Node) (hn : v.registry.Holds n) (path : String)
    (x : Json) (hx : x.WellFormed) (f : Failure) (h : v.evaluateIn depth n path x = .error f)
    (hdepth : f ≠ .depth) :
    (∃ e, f = .schema e) ∨ ∃ w, f = .violation w ∧ w.path = path ∧ w.Mirrors := by
  cases f with
  | schema e => exact Or.inl ⟨e, rfl⟩
  | violation w =>
      exact Or.inr ⟨w, rfl, (v.explains_evaluateIn hdocuments depth).reports n path x hn hx w h⟩
  | depth => exact absurd rfl hdepth

omit hdocuments

/-- The address of the document with the schema of a stock. -/
def stockAddress : Uri := ⟨"http", some (.ofHost "shop"), .segments ["stock"], none, none⟩

/-- The schema of a stock. One of the declared names has a slash in it. -/
def stockSchema : Json :=
  .object [("properties", .object [
      ("eggs/day", .object [("items", .object [("type", .string "integer")])]),
      ("bread", .object [("allOf", .array [.object [("required", .array [.string "price"])]])])])]

/-- The node of the schema of a stock. -/
def stockNode : Node := ⟨stockSchema, stockAddress, "", stockAddress, none⟩

/-- The evaluation of a stock. -/
def stocks : Validator := ⟨⟨[(stockAddress, stockSchema)], [], []⟩, .openApi, true⟩

/-- A stock with faults in two members. -/
def stock : Json :=
  .object [("bread", .object []), ("eggs/day", .array [.ofInt 6, .string "many"])]

/-- The causes are one escaped segment below, in the order of declaration. -/
theorem evaluateIn_mirrors_stock :
    ∃ w, stocks.evaluateIn 4 stockNode "/shelf" stock = .error (.violation w)
      ∧ (w.path = "/shelf" ∧ w.Mirrors)
      ∧ w.causes.map Violation.path = ["/shelf/eggs~1day", "/shelf/bread"] := by
  have hcauses : ((verdict (stocks.evaluateIn 4 stockNode "/shelf" stock)).toOption.bind
      Verdict.violation?).map (fun w => w.causes.map Violation.path)
        = some ["/shelf/eggs~1day", "/shelf/bread"] := by decide +kernel
  have hholds : stocks.registry.Holds stockNode :=
    ⟨(stockAddress, stockSchema), List.mem_singleton_self _, Json.mem_parts_self stockSchema⟩
  obtain ⟨w, hw⟩ : ∃ w, stocks.evaluateIn 4 stockNode "/shelf" stock = .error (.violation w) := by
    decide +kernel
  rw [hw] at hcauses
  rcases stocks.evaluateIn_mirrors (by decide +kernel) 4 stockNode hholds "/shelf" stock
    (by decide +kernel) _ hw (by simp only [ne_eq, reduceCtorEq, not_false_eq_true])
    with ⟨e, he⟩ | ⟨w', hw', hmirrors⟩
  · cases he
  · rw [← Failure.violation.inj hw'] at hmirrors
    exact ⟨w, hw, hmirrors, Option.some.inj hcauses⟩

end Validator

end OpenApi
