import OpenApi.Proofs.Evaluation.Conjunction
import OpenApi.Proofs.Evaluation.Filling

/-!
# Which Members a Keyword Covers

Two keywords share the items of an array, and two share the members of an object.
Each of them finds out on its own which members are its business. What they do is
said here once for all four: with every member a keyword does one of three things,
its `Role`, and it is the roles that the keywords differ in.

What follows from the roles is the same for all. A keyword accepts exactly if it
accepts every member, and then returns what the members became, each in its place.
Otherwise its violation has one cause for each member that is rejected, in the order
in which the members are visited. That order is the one of the container, except for
`properties`, which goes by its declarations.

Nothing can be said of a keyword that a defective schema below stops on its way. So
the members it has evaluated are required to be decided, and `properties` to find
its way to the defaults of absent members.

## Main definitions

* `Role`: What a keyword does with a member.
* `Node.itemRole`, `Node.additionalItemRole`, `Node.propertyRole`,
  `Node.additionalPropertyRole`: The roles.
* `Member.Accepted`, `Member.Rejected`: How it ends for a member.
* `Reported`: One cause for each member that is rejected.
* `Handles`: A keyword handles some members as their roles say.

## Theorems

* `handles_of_collect`: Keywords that judge members and gather the verdicts.
* `exists_of_foldlM_applyProperty`: The loop over declared names.
* `evaluateKeyword_handles`: The four keywords.
-/

namespace OpenApi

/-- What a keyword does with a member of a container. -/
inductive Role where
  /-- The member is handed on as it is. -/
  | passed
  /-- The member is evaluated by the schema some segments below. -/
  | judged (segments : List String)
  /-- The member is rejected for being there. -/
  | forbidden

/-- A member of a container, with what a keyword does with it. -/
structure Member where
  /-- The segment that leads to the member. -/
  segment : String
  /-- The value of the member. -/
  value : Json
  /-- What is done with it. -/
  role : Role

namespace Node

variable (n : Node)

/-- What `items` does with the item at a place. A list of schemas covers as many items
    as it has schemas, and a single schema covers all items. -/
def itemRole (i : Nat) : Role :=
  match n.get? "items" with
  | some (.array schemas) =>
    if i < schemas.length then .judged ["items", toString i] else .passed
  | some _ => .judged ["items"]
  | none => .passed

/-- What an additional schema does with a member that it covers. -/
def additionalRole (key : String) : Role :=
  match n.get? key with
  | some (.bool false) => .forbidden
  | some _ => .judged [key]
  | none => .passed

/-- What `additionalItems` does with the item at a place. It covers the items behind the
    end of a list of schemas. -/
def additionalItemRole (i : Nat) : Role :=
  match n.get? "items" with
  | some (.array schemas) =>
    if i < schemas.length then .passed else n.additionalRole "additionalItems"
  | _ => .passed

/-- Without a list of schemas there is no end of it. -/
theorem additionalItemRole_of_not_list
    (h : ¬ ∃ schemas, n.get? "items" = some (.array schemas)) (i : Nat) :
    n.additionalItemRole i = .passed := by
  unfold additionalItemRole
  split
  · rename_i schemas hschemas
    exact absurd ⟨schemas, hschemas⟩ h
  · rfl

/-- The names that `properties` declares. -/
def declaredNames : List String :=
  match n.get? "properties" with
  | some (.object declared) => Ordered.keys declared
  | _ => []

theorem declaredNames_eq (declared : Ordered Json)
    (hdeclared : n.get? "properties" = some (.object declared)) :
    n.declaredNames = Ordered.keys declared := by
  unfold declaredNames
  rw [hdeclared]

theorem declaredNames_eq_nil
    (h : ¬ ∃ declared, n.get? "properties" = some (.object declared)) : n.declaredNames = [] := by
  unfold declaredNames
  split
  · rename_i declared hdeclared
    exact absurd ⟨declared, hdeclared⟩ h
  · rfl

theorem passed_itemRole_or (i : Nat) :
    n.itemRole i = .passed ∨ n.additionalItemRole i = .passed := by
  unfold itemRole additionalItemRole
  rcases n.get? "items" with _ | value
  · exact Or.inl rfl
  · cases value with
    | array schemas =>
        by_cases hi : i < schemas.length
        · exact Or.inr (if_pos hi)
        · exact Or.inl (if_neg hi)
    | _ => exact Or.inr rfl

/-- What `properties` does with a member. It covers those it declares. -/
def propertyRole (name : String) : Role :=
  if name ∈ n.declaredNames then .judged ["properties", name] else .passed

/-- What `additionalProperties` does with a member. It covers those that `properties`
    does not. -/
def additionalPropertyRole (name : String) : Role :=
  if name ∈ n.declaredNames then .passed else n.additionalRole "additionalProperties"

theorem passed_propertyRole_or (name : String) :
    n.propertyRole name = .passed ∨ n.additionalPropertyRole name = .passed := by
  unfold propertyRole additionalPropertyRole
  by_cases hname : name ∈ n.declaredNames
  · exact Or.inr (if_pos hname)
  · exact Or.inl (if_neg hname)

end Node

/-- The items of an array with their roles. -/
def itemMembers (role : Nat → Role) (items : List Json) : List Member :=
  items.zipIdx.map fun pair => ⟨toString pair.2, pair.1, role pair.2⟩

/-- The members of an object with their roles. -/
def objectMembers (role : String → Role) (members : Ordered Json) : List Member :=
  members.map fun entry => ⟨entry.1, entry.2, role entry.1⟩

/-- The members of an object under some names, for `properties` to visit. It visits
    those it declares, in the order of declaration. -/
def Node.visitedMembers (n : Node) (members : Ordered Json) (names : List String) : List Member :=
  names.filterMap fun name =>
    (Ordered.get? members name).map fun value => ⟨name, value, n.propertyRole name⟩

section Handling

variable (n : Node) (evaluate : Evaluation) (path : String) (kind : ViolationKind)

/-- A member is accepted and becomes a value: its own, or the one that its schema
    returns. -/
def Member.Accepted (c : Member) (y : Json) : Prop :=
  match c.role with
  | .passed => y = c.value
  | .judged segments => ∃ m, n.child? segments = some m
      ∧ evaluate m (Pointer.push path c.segment) c.value = .ok y
  | .forbidden => False

/-- A member is rejected with a violation: that of its schema, or one of the keyword. -/
def Member.Rejected (c : Member) (w : Violation) : Prop :=
  match c.role with
  | .passed => False
  | .judged segments => ∃ m, n.child? segments = some m
      ∧ evaluate m (Pointer.push path c.segment) c.value = .error (.violation w)
  | .forbidden => w = ⟨Pointer.push path c.segment, n.scope, kind, []⟩

/-- The schema of a member, if it has one, accepts or rejects it. -/
def Member.Settled (c : Member) : Prop :=
  ∀ segments m, c.role = .judged segments → n.child? segments = some m →
    Decided (evaluate m (Pointer.push path c.segment) c.value)

instance (c : Member) : Decidable (c.Settled n evaluate path) :=
  match hrole : c.role with
  | .passed => .isTrue fun _ _ h _ => nomatch hrole.symm.trans h
  | .forbidden => .isTrue fun _ _ h _ => nomatch hrole.symm.trans h
  | .judged segments =>
    match hm : n.child? segments with
    | none => .isTrue fun segments' m' h hm' => by
        rw [← Role.judged.inj (hrole.symm.trans h), hm] at hm'
        exact absurd hm'.symm (Option.some_ne_none m')
    | some m => decidable_of_iff (Decided (evaluate m (Pointer.push path c.segment) c.value))
        ⟨fun hdecided segments' m' h hm' => by
          rw [← Role.judged.inj (hrole.symm.trans h), hm] at hm'
          rw [← Option.some.inj hm']
          exact hdecided,
        fun hsettled => hsettled segments m hrole hm⟩

/-- There is one cause for each member that is rejected, at the path of that member,
    and the causes are in the order of the members. -/
inductive Reported : List Member → List Violation → Prop where
  /-- No member is left. -/
  | nil : Reported [] []
  /-- A member that is accepted causes nothing. -/
  | accepted (c : Member) (y : Json) (rest : List Member) (causes : List Violation) :
      c.Accepted n evaluate path y → Reported rest causes → Reported (c :: rest) causes
  /-- A member that is rejected is a cause. -/
  | rejected (c : Member) (w : Violation) (rest : List Member) (causes : List Violation) :
      c.Rejected n evaluate path kind w → w.path = Pointer.push path c.segment →
        Reported rest causes → Reported (c :: rest) (w :: causes)

/-- A keyword handles the members it visits as their roles say. What it returns is as
    specified. -/
structure Handles (visited : List Member) (returned : Json → Prop) (r : Except Failure Json) :
    Prop where
  /-- It accepts exactly if it accepts every member. -/
  accepts : (∃ y, r = .ok y) ↔ ∀ c ∈ visited, ∃ y, c.Accepted n evaluate path y
  /-- What it returns then is made of what the members became. -/
  returns : ∀ y, r = .ok y → returned y
  /-- Otherwise the members that are rejected are its causes. -/
  reports : ∀ e, r = .error e → ∃ causes, e = .ofCauses path n.scope kind causes
    ∧ Reported n evaluate path kind visited causes

theorem not_accepted_of_rejected (c : Member) (w : Violation)
    (h : c.Rejected n evaluate path kind w) : ¬ ∃ y, c.Accepted n evaluate path y := by
  rintro ⟨y, hy⟩
  unfold Member.Rejected at h
  unfold Member.Accepted at hy
  cases hrole : c.role with
  | passed =>
      rw [hrole] at h
      exact h
  | judged segments =>
      rw [hrole] at h hy
      obtain ⟨m, hm, hw⟩ := h
      obtain ⟨m', hm', hy⟩ := hy
      rw [← Option.some.inj (hm.symm.trans hm'), hw] at hy
      exact nomatch hy
  | forbidden =>
      rw [hrole] at hy
      exact hy

/-- Causes come from members that are not accepted. -/
theorem exists_rejected_of_reported (visited : List Member) (causes : List Violation)
    (h : Reported n evaluate path kind visited causes) :
    causes = [] ∧ (∀ c ∈ visited, ∃ y, c.Accepted n evaluate path y)
      ∨ causes ≠ [] ∧ ∃ c ∈ visited, ¬ ∃ y, c.Accepted n evaluate path y := by
  induction h with
  | nil => exact Or.inl ⟨rfl, fun c hc => absurd hc List.not_mem_nil⟩
  | accepted c y rest causes hy _ ih =>
      rcases ih with ⟨hnone, hall⟩ | ⟨hsome, c', hc', hrejected⟩
      · exact Or.inl ⟨hnone, List.forall_mem_cons.mpr ⟨⟨y, hy⟩, hall⟩⟩
      · exact Or.inr ⟨hsome, c', List.mem_cons_of_mem c hc', hrejected⟩
  | rejected c w rest causes hw _ _ _ =>
      refine Or.inr ⟨List.cons_ne_nil w causes, c, List.mem_cons_self, ?_⟩
      exact not_accepted_of_rejected n evaluate path kind c w hw

theorem reported_append (visited visited' : List Member) (causes causes' : List Violation)
    (h : Reported n evaluate path kind visited causes)
    (h' : Reported n evaluate path kind visited' causes') :
    Reported n evaluate path kind (visited ++ visited') (causes ++ causes') := by
  induction h with
  | nil => exact h'
  | accepted c y rest causes hy _ ih => exact .accepted c y _ _ hy ih
  | rejected c w rest causes hw hplace _ ih => exact .rejected c w _ _ hw hplace ih

/-- It is enough to know the causes: if there are none, all members are accepted. -/
theorem handles_of_reported (visited : List Member) (returned : Json → Prop)
    (r : Except Failure Json) (causes : List Violation)
    (hcauses : Reported n evaluate path kind visited causes)
    (hok : causes = [] → ∃ y, r = .ok y ∧ returned y)
    (herror : causes ≠ [] → r = .error (.ofCauses path n.scope kind causes)) :
    Handles n evaluate path kind visited returned r := by
  rcases exists_rejected_of_reported n evaluate path kind visited causes hcauses with
    ⟨hnone, hall⟩ | ⟨hsome, c, hc, hrejected⟩
  · obtain ⟨y, rfl, hy⟩ := hok hnone
    refine ⟨iff_of_true ⟨y, rfl⟩ hall, fun y' hy' => ?_, fun e he => nomatch he⟩
    rw [← Except.ok.inj hy']
    exact hy
  · rw [herror hsome]
    refine ⟨iff_of_false (fun ⟨_, hy⟩ => nomatch hy) fun hall => hrejected (hall c hc),
      fun y hy => (nomatch hy), fun e he => ⟨causes, (Except.error.inj he).symm, hcauses⟩⟩

/-- What a keyword does with a member, as a verdict. -/
def Member.judge (c : Member) : Except Failure (Verdict Json) :=
  match c.role with
  | .passed => .ok (.ok c.value)
  | .judged segments => Node.judge evaluate (n.child? segments) path c.segment c.value
  | .forbidden => .ok (.error ⟨Pointer.push path c.segment, n.scope, kind, []⟩)

/-- A member is accepted or rejected, if its schema is there and decides. -/
theorem judge_cases (hpath : ∀ m q x, Reports (fun w => w.path = q) (evaluate m q x)) (c : Member)
    (hfound : ∀ segments, c.role = .judged segments → ∃ m, n.child? segments = some m)
    (hsettled : c.Settled n evaluate path) :
    (∃ y, c.judge n evaluate path kind = .ok (.ok y) ∧ c.Accepted n evaluate path y)
      ∨ ∃ w, c.judge n evaluate path kind = .ok (.error w) ∧ c.Rejected n evaluate path kind w
        ∧ w.path = Pointer.push path c.segment := by
  unfold Member.judge Member.Accepted Member.Rejected
  cases hrole : c.role with
  | passed => exact Or.inl ⟨c.value, rfl, rfl⟩
  | forbidden => exact Or.inr ⟨_, rfl, rfl, rfl⟩
  | judged segments =>
      obtain ⟨m, hm⟩ := hfound segments hrole
      simp only [hm, Node.judge, Option.some.injEq, exists_eq_left']
      rcases hsettled segments m hrole hm with ⟨y, hy⟩ | ⟨w, hw⟩
      · rw [hy]
        exact Or.inl ⟨y, rfl, rfl⟩
      · have hplace := hpath m _ c.value w hw
        rw [hw]
        exact Or.inr ⟨w, rfl, rfl, hplace⟩

section Collect

variable {α β : Type} (member : α → Member) (R : α → β → Prop)
  (step : α → Except Failure (Verdict β)) (items : List α)
  (h : ∀ a ∈ items,
    (∃ b, step a = .ok (.ok b) ∧ R a b ∧ ∃ y, (member a).Accepted n evaluate path y)
      ∨ ∃ w, step a = .ok (.error w) ∧ (member a).Rejected n evaluate path kind w
        ∧ w.path = Pointer.push path (member a).segment)

include h

/-- The verdicts on members: the rejected ones are reported, and if there is none, the
    others have the values. -/
theorem exists_verdicts_of_members :
    ∃ verdicts, items.mapM step = .ok verdicts
      ∧ Reported n evaluate path kind (items.map member) (verdicts.filterMap Verdict.violation?)
      ∧ (verdicts.filterMap Verdict.violation? = [] →
        List.Forall₂ R items (verdicts.filterMap Verdict.value?)) := by
  induction items with
  | nil => exact ⟨[], rfl, .nil, fun _ => .nil⟩
  | cons a rest ih =>
      obtain ⟨verdicts, hverdicts, hreported, hvalues⟩ :=
        ih fun a' ha' => h a' (List.mem_cons_of_mem a ha')
      rcases h a List.mem_cons_self with ⟨b, hb, hR, y, hy⟩ | ⟨w, hw, hrejected, hplace⟩
      · refine ⟨.ok b :: verdicts, ?_, .accepted _ y _ _ hy hreported, fun hnone => ?_⟩
        · rw [List.mapM_cons, hb, hverdicts]
          rfl
        · exact .cons hR (hvalues hnone)
      · refine ⟨.error w :: verdicts, ?_, .rejected _ w _ _ hrejected hplace hreported,
          fun hnone => absurd hnone (List.cons_ne_nil _ _)⟩
        rw [List.mapM_cons, hw, hverdicts]
        rfl

/-- Keywords that judge members and gather the verdicts. -/
theorem handles_of_collect (wrap : List β → Json) :
    Handles n evaluate path kind (items.map member)
      (fun y => ∃ values, y = wrap values ∧ List.Forall₂ R items values)
      (do
        let verdicts ← items.mapM step
        let values ← n.gather path kind verdicts
        .ok (wrap values)) := by
  obtain ⟨verdicts, hverdicts, hreported, hvalues⟩ :=
    exists_verdicts_of_members n evaluate path kind member R step items h
  refine handles_of_reported n evaluate path kind _ _ _ _ hreported (fun hnone => ?_) fun hsome => ?_
  · refine ⟨wrap (verdicts.filterMap Verdict.value?), ?_, _, rfl, hvalues hnone⟩
    rw [hverdicts]
    unfold Node.gather
    simp only [bind, Except.bind, hnone]
  · rw [hverdicts]
    unfold Node.gather
    simp only [bind, Except.bind]

end Collect

end Handling

namespace Node

variable (n : Node)

/-- The schemas that roles speak of are there. -/
def Founds (role : Role) : Prop :=
  ∀ segments, role = .judged segments → ∃ m, n.child? segments = some m

theorem founds_passed : n.Founds .passed := nofun

theorem founds_key (key : String) (value : Json) (hget : n.get? key = some value) :
    n.Founds (.judged [key]) := by
  intro segments hsegments
  rw [← Role.judged.inj hsegments]
  obtain ⟨m, hm, _⟩ := n.exists_child?_of_get? key value hget
  exact ⟨m, hm⟩

theorem founds_itemRole (i : Nat) : n.Founds (n.itemRole i) := by
  unfold itemRole
  split
  · rename_i schemas hschemas
    by_cases hi : i < schemas.length
    · rw [if_pos hi]
      intro segments hsegments
      rw [← Role.judged.inj hsegments]
      have hvalue := n.map_value_below "items" (toString i) _ hschemas
      rw [Pointer.step?_eq_canonicalStep? _ _ (Pointer.index?_toString i),
        Pointer.canonicalStep?_array, List.getElem?_eq_getElem hi] at hvalue
      obtain ⟨m, hm, _⟩ := Option.map_eq_some_iff.mp hvalue
      exact ⟨m, hm⟩
    · rw [if_neg hi]
      exact n.founds_passed
  · rename_i value _ hget
    exact n.founds_key "items" value hget
  · exact n.founds_passed

theorem founds_additionalRole (key : String) : n.Founds (n.additionalRole key) := by
  unfold additionalRole
  split
  · exact nofun
  · rename_i value _ hget
    exact n.founds_key key value hget
  · exact n.founds_passed

theorem founds_additionalItemRole (i : Nat) : n.Founds (n.additionalItemRole i) := by
  unfold additionalItemRole
  split
  · rename_i schemas _
    by_cases hi : i < schemas.length
    · rw [if_pos hi]
      exact n.founds_passed
    · rw [if_neg hi]
      exact n.founds_additionalRole "additionalItems"
  · exact n.founds_passed

theorem founds_propertyRole (name : String) : n.Founds (n.propertyRole name) := by
  unfold propertyRole declaredNames
  split
  · rename_i declared hdeclared
    by_cases hname : name ∈ Ordered.keys declared
    · rw [if_pos hname]
      intro segments hsegments
      rw [← Role.judged.inj hsegments]
      exact n.exists_child?_of_declared declared hdeclared name hname
    · rw [if_neg hname]
      exact n.founds_passed
  · rw [if_neg List.not_mem_nil]
    exact n.founds_passed

section Keywords

variable (evaluate : Evaluation) (path : String)

theorem judge_itemRole (i : Nat) (x : Json) :
    judge evaluate (n.itemSchema? i) path (toString i) x
      = Member.judge n evaluate path .items ⟨toString i, x, n.itemRole i⟩ := by
  unfold itemSchema? itemRole Member.judge
  rcases hget : n.get? "items" with _ | value
  · have hvalue := n.map_value_key "items" (by decide)
    rw [hget, Option.map_eq_none_iff] at hvalue
    dsimp only
    rw [hvalue]
    rfl
  · cases value with
    | array schemas =>
        dsimp only
        by_cases hi : i < schemas.length
        · rw [if_pos hi]
        · -- Behind the end of the list there is no schema.
          have hvalue := n.map_value_below "items" (toString i) _ hget
          rw [Pointer.step?_eq_canonicalStep? _ _ (Pointer.index?_toString i),
            Pointer.canonicalStep?_array, List.getElem?_eq_none (Nat.le_of_not_lt hi),
            Option.map_eq_none_iff] at hvalue
          rw [if_neg hi, hvalue]
          rfl
    | _ => rfl

theorem judgeAdditional_eq (key : String) (hkey : Pointer.index? key = none) (kind : ViolationKind)
    (segment : String) (x : Json) :
    n.judgeAdditional evaluate key kind path segment x
      = Member.judge n evaluate path kind ⟨segment, x, n.additionalRole key⟩ := by
  unfold judgeAdditional isFalse additionalRole Member.judge
  rcases hget : n.get? key with _ | value
  · have hvalue := n.map_value_key key hkey
    rw [hget, Option.map_eq_none_iff] at hvalue
    rw [hvalue]
    rfl
  · cases value with
    | bool b =>
        cases b with
        | true => rfl
        | false => rfl
    | _ => rfl

theorem judge_additionalItemRole (schemas : List Json)
    (hschemas : n.get? "items" = some (.array schemas)) (i : Nat) (x : Json) :
    (if i < schemas.length then .ok (.ok x)
      else n.judgeAdditional evaluate "additionalItems" .additionalItems path (toString i) x)
      = Member.judge n evaluate path .additionalItems ⟨toString i, x, n.additionalItemRole i⟩ := by
  unfold additionalItemRole
  rw [hschemas]
  dsimp only
  by_cases hi : i < schemas.length
  · rw [if_pos hi, if_pos hi]
    rfl
  · rw [if_neg hi, if_neg hi]
    exact n.judgeAdditional_eq evaluate path _ (by decide) _ _ x

theorem declares_eq (name : String) : n.declares name = decide (name ∈ n.declaredNames) := by
  unfold declares declaredNames
  rcases n.get? "properties" with _ | value
  · exact (decide_eq_false List.not_mem_nil).symm
  · cases value with
    | object declared =>
        rw [Bool.eq_iff_iff, decide_eq_true_iff]
        change (Ordered.get? declared name).isSome = true ↔ _
        rw [Option.isSome_iff_ne_none, Ne, Ordered.get?_eq_none_iff, not_not]
    | _ => exact (decide_eq_false List.not_mem_nil).symm

theorem judgeUndeclared_eq (name : String) (x : Json) :
    n.judgeUndeclared evaluate path name x
      = Member.judge n evaluate path .additionalProperties
          ⟨name, x, n.additionalPropertyRole name⟩ := by
  unfold judgeUndeclared additionalPropertyRole
  rw [n.declares_eq, n.judgeAdditional_eq evaluate path _ (by decide)]
  by_cases hname : name ∈ n.declaredNames
  · rw [if_pos (decide_eq_true hname), if_pos hname]
    rfl
  · rw [if_neg (by rwa [decide_eq_true_iff]), if_neg hname]

variable (hpath : ∀ m q x, Reports (fun w => w.path = q) (evaluate m q x))

include hpath

/-- Keywords on arrays, by the role of each item. -/
theorem handles_items (kind : ViolationKind) (role : Nat → Role) (hfounds : ∀ i, n.Founds (role i))
    (step : Json × Nat → Except Failure (Verdict Json))
    (hstep : ∀ pair, step pair
      = Member.judge n evaluate path kind ⟨toString pair.2, pair.1, role pair.2⟩)
    (items : List Json) (hsettled : ∀ c ∈ itemMembers role items, c.Settled n evaluate path) :
    Handles n evaluate path kind (itemMembers role items)
      (fun y => ∃ items', y = .array items'
        ∧ List.Forall₂ (fun c y => c.Accepted n evaluate path y) (itemMembers role items) items')
      (do
        let verdicts ← items.zipIdx.mapM step
        let values ← n.gather path kind verdicts
        .ok (.array values)) := by
  unfold itemMembers
  simp only [List.forall₂_map_left_iff]
  refine handles_of_collect n evaluate path kind _ _ step items.zipIdx (fun pair hpair => ?_)
    Json.array
  rw [hstep pair]
  have hcases := judge_cases n evaluate path kind hpath ⟨toString pair.2, pair.1, role pair.2⟩
    (hfounds pair.2) (hsettled _ (List.mem_map_of_mem hpair))
  exact hcases.imp_left fun ⟨y, hy, haccepted⟩ => ⟨y, hy, haccepted, y, haccepted⟩

theorem handles_applyItems (items : List Json)
    (hsettled : ∀ c ∈ itemMembers n.itemRole items, c.Settled n evaluate path) :
    Handles n evaluate path .items (itemMembers n.itemRole items)
      (fun y => ∃ items', y = .array items' ∧ List.Forall₂
        (fun c y => c.Accepted n evaluate path y) (itemMembers n.itemRole items) items')
      (n.applyItems evaluate path (.array items)) :=
  n.handles_items evaluate path hpath .items n.itemRole n.founds_itemRole _
    (fun pair => n.judge_itemRole evaluate path pair.2 pair.1) items hsettled

/-- Items that are all handed on are handled by handing on the array. -/
theorem handles_passed_items (kind : ViolationKind) (role : Nat → Role)
    (hrole : ∀ i, role i = .passed) (items : List Json) :
    Handles n evaluate path kind (itemMembers role items)
      (fun y => ∃ items', y = .array items'
        ∧ List.Forall₂ (fun c y => c.Accepted n evaluate path y) (itemMembers role items) items')
      (.ok (.array items)) := by
  have hstep : ∀ pair : Json × Nat, (.ok (.ok pair.1) : Except Failure (Verdict Json))
      = Member.judge n evaluate path kind ⟨toString pair.2, pair.1, role pair.2⟩ := by
    intro pair
    rw [hrole]
    rfl
  have hsettled : ∀ c ∈ itemMembers role items, c.Settled n evaluate path := by
    intro c hc segments m hjudged
    obtain ⟨pair, _, rfl⟩ := List.mem_map.mp hc
    exact nomatch (hrole pair.2).symm.trans hjudged
  have hhandles := n.handles_items evaluate path hpath kind role
    (fun i => (hrole i).symm ▸ n.founds_passed) _ hstep items hsettled
  -- Gathering verdicts that accept their items as they are gives back the items.
  have hsame := (n.collect_eq_ok_iff path kind
    (fun pair : Json × Nat => .ok (.ok pair.1)) Json.array items.zipIdx (.array items)).mpr
    ⟨items, ?_, rfl⟩
  · rwa [hsame] at hhandles
  · have hfirst : List.Forall₂ (fun (pair : Json × Nat) item =>
        (.ok (.ok pair.1) : Except Failure (Verdict Json)) = .ok (.ok item)) items.zipIdx
        (items.zipIdx.map Prod.fst) := by
      rw [List.forall₂_map_right_iff]
      exact List.forall₂_same.mpr fun _ _ => rfl
    rwa [List.zipIdx_map_fst] at hfirst

theorem handles_applyAdditionalItems (items : List Json)
    (hsettled : ∀ c ∈ itemMembers n.additionalItemRole items, c.Settled n evaluate path) :
    Handles n evaluate path .additionalItems (itemMembers n.additionalItemRole items)
      (fun y => ∃ items', y = .array items' ∧ List.Forall₂
        (fun c y => c.Accepted n evaluate path y) (itemMembers n.additionalItemRole items) items')
      (n.applyAdditionalItems evaluate path (.array items)) := by
  by_cases hlist : ∃ schemas, n.get? "items" = some (.array schemas)
  · obtain ⟨schemas, hschemas⟩ := hlist
    unfold applyAdditionalItems
    rw [hschemas]
    exact n.handles_items evaluate path hpath .additionalItems _ n.founds_additionalItemRole _
      (fun pair => n.judge_additionalItemRole evaluate path schemas hschemas pair.2 pair.1) items
      hsettled
  · rw [n.applyAdditionalItems_of_not_array evaluate path (.array items) fun h => hlist h.2]
    exact n.handles_passed_items evaluate path hpath .additionalItems _
      (n.additionalItemRole_of_not_list hlist) items

theorem handles_applyAdditionalProperties (members : Ordered Json)
    (hsettled : ∀ c ∈ objectMembers n.additionalPropertyRole members, c.Settled n evaluate path) :
    Handles n evaluate path .additionalProperties (objectMembers n.additionalPropertyRole members)
      (fun y => ∃ members', y = .object members' ∧ List.Forall₂
        (fun c entry => entry.1 = c.segment ∧ c.Accepted n evaluate path entry.2)
        (objectMembers n.additionalPropertyRole members) members')
      (n.applyAdditionalProperties evaluate path (.object members)) := by
  rw [n.applyAdditionalProperties_eq]
  unfold objectMembers
  simp only [List.forall₂_map_left_iff]
  refine handles_of_collect n evaluate path .additionalProperties _ _ _ members
    (fun entry hentry => ?_) Json.object
  -- A name that is declared has a role that asks for no schema.
  have hfounds : n.Founds (n.additionalPropertyRole entry.1) := by
    unfold additionalPropertyRole
    split
    · exact n.founds_passed
    · exact n.founds_additionalRole "additionalProperties"
  rw [n.judgeUndeclared_eq]
  rcases judge_cases n evaluate path .additionalProperties hpath
      ⟨entry.1, entry.2, n.additionalPropertyRole entry.1⟩ hfounds
      (hsettled _ (List.mem_map_of_mem hentry)) with ⟨y, hy, haccepted⟩ | ⟨w, hw, hrejected, hplace⟩
  · rw [hy]
    exact Or.inl ⟨(entry.1, y), rfl, ⟨rfl, haccepted⟩, y, haccepted⟩
  · rw [hw]
    exact Or.inr ⟨w, rfl, hrejected, hplace⟩

variable (r : Registry)

/-- A step of the loop over declared names ends in a new state, with a cause if its
    member is rejected. -/
theorem exists_of_applyProperty (p : Progress) (name : String) (hname : name ∈ n.declaredNames)
    (hsettled : ∀ value, Ordered.get? p.members name = some value →
      Member.Settled n evaluate path ⟨name, value, n.propertyRole name⟩)
    (hfollow : Ordered.get? p.members name = none → ∀ m, n.child? ["properties", name] = some m →
      ∃ target, r.follow m = .ok target) :
    ∃ p' causes, n.applyProperty r evaluate path p name = .ok p' ∧ p'.causes = p.causes ++ causes
      ∧ Reported n evaluate path .properties (n.visitedMembers p.members [name]) causes := by
  have hrole : n.propertyRole name = .judged ["properties", name] := if_pos hname
  obtain ⟨m, hm⟩ := n.founds_propertyRole name _ hrole
  unfold applyProperty visitedMembers
  rw [hm, List.filterMap_cons, List.filterMap_nil]
  dsimp only
  rcases hvalue : Ordered.get? p.members name with _ | value
  · -- A member that is missing may get a default, and that is no cause.
    obtain ⟨target, htarget⟩ := hfollow hvalue m hm
    unfold default?
    rw [htarget]
    dsimp only [bind, Except.bind]
    rcases target.get? "default" with _ | value
    · exact ⟨p, [], rfl, (List.append_nil _).symm, .nil⟩
    · exact ⟨_, [], rfl, (List.append_nil _).symm, .nil⟩
  · have hcases := judge_cases n evaluate path .properties hpath ⟨name, value, n.propertyRole name⟩
      (n.founds_propertyRole name) (hsettled value hvalue)
    have hjudge : Member.judge n evaluate path .properties ⟨name, value, n.propertyRole name⟩
        = judge evaluate (some m) path name value := by
      unfold Member.judge
      simp only [hrole, hm]
    rw [hjudge] at hcases
    rcases hcases with ⟨y, hy, haccepted⟩ | ⟨w, hw, hrejected, hplace⟩
    · refine ⟨_, [], (bind_eq_ok_iff _ _ _).mpr ⟨.ok y, hy, rfl⟩, (List.append_nil _).symm, ?_⟩
      exact .accepted _ y _ _ haccepted .nil
    · refine ⟨_, [w], (bind_eq_ok_iff _ _ _).mpr ⟨.error w, hw, rfl⟩, rfl, ?_⟩
      exact .rejected _ w _ _ hrejected hplace .nil

/-- The loop comes to each member once, so it finds it as it was. -/
theorem exists_of_foldlM_applyProperty (members : Ordered Json) (names : List String)
    (hnames : ∀ name ∈ names, name ∈ n.declaredNames)
    (hsettled : ∀ c ∈ n.visitedMembers members names, c.Settled n evaluate path)
    (hfollow : ∀ name ∈ names, name ∉ Ordered.keys members →
      ∀ m, n.child? ["properties", name] = some m → ∃ target, r.follow m = .ok target) :
    ∀ p : Progress, names.Nodup → (Ordered.keys p.members).Nodup →
      (∀ name ∈ names, Ordered.get? p.members name = Ordered.get? members name) →
      ∃ p' causes, names.foldlM (n.applyProperty r evaluate path) p = .ok p'
        ∧ p'.causes = p.causes ++ causes
        ∧ Reported n evaluate path .properties (n.visitedMembers members names) causes := by
  induction names with
  | nil => exact fun p _ _ _ => ⟨p, [], rfl, (List.append_nil _).symm, .nil⟩
  | cons name rest ih =>
      intro p hdistinct hnodup hsame
      obtain ⟨hname, hrest⟩ := List.nodup_cons.mp hdistinct
      have hsplit : n.visitedMembers members (name :: rest)
          = n.visitedMembers members [name] ++ n.visitedMembers members rest :=
        List.filterMap_append (l := [name])
      have hhere : n.visitedMembers p.members [name] = n.visitedMembers members [name] := by
        unfold visitedMembers
        simp only [List.filterMap_cons, List.filterMap_nil, hsame name List.mem_cons_self]
      rw [hsplit] at hsettled ⊢
      have hhereSettled : ∀ value, Ordered.get? p.members name = some value →
          Member.Settled n evaluate path ⟨name, value, n.propertyRole name⟩ := by
        intro value hvalue
        refine hsettled _ (List.mem_append_left _ ?_)
        rw [← hhere]
        exact List.mem_filterMap.mpr ⟨name, List.mem_cons_self, by rw [hvalue, Option.map_some]⟩
      have hhereFollow : Ordered.get? p.members name = none →
          ∀ m, n.child? ["properties", name] = some m → ∃ target, r.follow m = .ok target := by
        intro hnone
        rw [hsame name List.mem_cons_self, Ordered.get?_eq_none_iff] at hnone
        exact hfollow name List.mem_cons_self hnone
      obtain ⟨next, causes, hstep, hcauses, hreported⟩ := n.exists_of_applyProperty evaluate path
        hpath r p name (hnames name List.mem_cons_self) hhereSettled hhereFollow
      -- The names are distinct, so what the others come to is left alone by this step.
      obtain ⟨hnodup', hothers⟩ := n.others_of_visits r evaluate path p next name hnodup
        (n.visits_of_applyProperty r evaluate path p next name hstep)
      have hsame' : ∀ other ∈ rest,
          Ordered.get? next.members other = Ordered.get? members other := by
        intro other hother
        rw [hothers other fun heq => hname (heq ▸ hother)]
        exact hsame other (List.mem_cons_of_mem name hother)
      obtain ⟨p', causes', hloop, hcauses', hreported'⟩ :=
        ih (fun other hother => hnames other (List.mem_cons_of_mem name hother))
          (fun c hc => hsettled c (List.mem_append_right _ hc))
          (fun other hother => hfollow other (List.mem_cons_of_mem name hother))
          next hrest hnodup' hsame'
      refine ⟨p', causes ++ causes', ?_, ?_, ?_⟩
      · rw [List.foldlM_cons]
        exact (bind_eq_ok_iff _ _ _).mpr ⟨next, hstep, hloop⟩
      · rw [hcauses', hcauses, List.append_assoc]
      · rw [hhere] at hreported
        exact reported_append n evaluate path .properties _ _ _ _ hreported hreported'

omit hpath in
theorem accepted_of_carries (declared : Ordered Json)
    (hdeclared : n.get? "properties" = some (.object declared)) (before after : String × Json)
    (h : n.Carries evaluate path declared before after) :
    Member.Accepted n evaluate path ⟨before.1, before.2, n.propertyRole before.1⟩ after.2 := by
  unfold Member.Accepted propertyRole
  rw [n.declaredNames_eq declared hdeclared]
  by_cases hname : before.1 ∈ Ordered.keys declared
  · have hafter := h.2
    rw [if_pos hname] at hafter
    rw [if_pos hname]
    exact hafter
  · have hafter := h.2
    rw [if_neg hname] at hafter
    rw [if_neg hname]
    exact hafter

theorem handles_applyProperties (members : Ordered Json) (hnodup : (Ordered.keys members).Nodup)
    (hdistinct : n.declaredNames.Nodup)
    (hsettled : ∀ c ∈ n.visitedMembers members n.declaredNames, c.Settled n evaluate path)
    (hfollow : ∀ name ∈ n.declaredNames, name ∉ Ordered.keys members →
      ∀ m, n.child? ["properties", name] = some m → ∃ target, r.follow m = .ok target) :
    Handles n evaluate path .properties (n.visitedMembers members n.declaredNames)
      (fun y => ∃ kept added, y = .object (kept ++ added) ∧ List.Forall₂
        (fun c entry => entry.1 = c.segment ∧ c.Accepted n evaluate path entry.2)
        (objectMembers n.propertyRole members) kept)
      (n.applyProperties r evaluate path (.object members)) := by
  unfold objectMembers
  simp only [List.forall₂_map_left_iff]
  by_cases hobject : ∃ declared, n.get? "properties" = some (.object declared)
  · obtain ⟨declared, hdeclared⟩ := hobject
    have hnames := n.declaredNames_eq declared hdeclared
    obtain ⟨p, causes, hloop, hcauses, hreported⟩ :=
      n.exists_of_foldlM_applyProperty evaluate path hpath r members n.declaredNames
        (fun _ hname => hname) hsettled hfollow ⟨members, []⟩ hdistinct hnodup fun _ _ => rfl
    have hresult : n.applyProperties r evaluate path (.object members)
        = n.conclude path members p := by
      rw [n.applyProperties_eq r evaluate path declared hdeclared, ← hnames, hloop]
      rfl
    rw [List.nil_append] at hcauses
    unfold conclude at hresult
    rw [hcauses] at hresult
    refine handles_of_reported n evaluate path .properties _ _ _ causes hreported (fun hnone => ?_)
      fun hsome => ?_
    · rw [hnone] at hresult
      refine ⟨_, hresult, ?_⟩
      obtain ⟨kept, added, hy, _, hkept, _⟩ := n.exists_append_of_applyProperties r evaluate path
        declared hdeclared (hnames ▸ hdistinct) members hnodup _ hresult
      refine ⟨kept, added, hy, hkept.imp fun before after hcarries => ?_⟩
      exact ⟨hcarries.1, n.accepted_of_carries evaluate path declared hdeclared _ _ hcarries⟩
    · rw [hresult]
      cases causes with
      | nil => exact absurd rfl hsome
      | cons w ws => rfl
  · -- Nothing is declared, so nothing is visited and everything is kept.
    have hnone := n.declaredNames_eq_nil hobject
    rw [n.applyProperties_of_not_object r evaluate path (.object members) fun h => hobject h.2, hnone]
    refine handles_of_reported n evaluate path .properties _ _ _ [] .nil (fun _ => ?_)
      fun hsome => absurd rfl hsome
    refine ⟨_, rfl, members, [], by rw [List.append_nil], List.forall₂_same.mpr fun entry _ => ?_⟩
    refine ⟨rfl, ?_⟩
    unfold Member.Accepted propertyRole
    rw [hnone, if_neg List.not_mem_nil]

end Keywords

end Node

namespace Validator

/-- The keywords on members. No member is covered by both of a pair. Each keyword
    accepts exactly if it accepts the members it covers, and returns every member in its
    place, as its schema returns it or as it was. Otherwise it reports the members it
    covers that are rejected, each of them once, at its path and in order. Schemas
    below must not be defective. -/
theorem evaluateKeyword_handles (v : Validator) (depth : Nat) (n : Node) (path : String) :
    (∀ i, n.itemRole i = .passed ∨ n.additionalItemRole i = .passed)
    ∧ (∀ name, n.propertyRole name = .passed ∨ n.additionalPropertyRole name = .passed)
    ∧ (∀ items, (∀ c ∈ itemMembers n.itemRole items, c.Settled n (v.evaluateIn depth) path) →
      Handles n (v.evaluateIn depth) path .items (itemMembers n.itemRole items)
        (fun y => ∃ items', y = .array items' ∧ List.Forall₂
          (fun c y => c.Accepted n (v.evaluateIn depth) path y) (itemMembers n.itemRole items) items')
        (v.evaluateKeyword (v.evaluateIn depth) .items n path (.array items)))
    ∧ (∀ items,
      (∀ c ∈ itemMembers n.additionalItemRole items, c.Settled n (v.evaluateIn depth) path) →
      Handles n (v.evaluateIn depth) path .additionalItems (itemMembers n.additionalItemRole items)
        (fun y => ∃ items', y = .array items' ∧ List.Forall₂
          (fun c y => c.Accepted n (v.evaluateIn depth) path y)
          (itemMembers n.additionalItemRole items) items')
        (v.evaluateKeyword (v.evaluateIn depth) .additionalItems n path (.array items)))
    ∧ (∀ members : Ordered Json, (Ordered.keys members).Nodup → n.declaredNames.Nodup →
      (∀ c ∈ n.visitedMembers members n.declaredNames, c.Settled n (v.evaluateIn depth) path) →
      (∀ name ∈ n.declaredNames, name ∉ Ordered.keys members →
        ∀ m, n.child? ["properties", name] = some m → ∃ target, v.registry.follow m = .ok target) →
      Handles n (v.evaluateIn depth) path .properties (n.visitedMembers members n.declaredNames)
        (fun y => ∃ kept added, y = .object (kept ++ added) ∧ List.Forall₂
          (fun c entry => entry.1 = c.segment ∧ c.Accepted n (v.evaluateIn depth) path entry.2)
          (objectMembers n.propertyRole members) kept)
        (v.evaluateKeyword (v.evaluateIn depth) .properties n path (.object members)))
    ∧ (∀ members : Ordered Json,
      (∀ c ∈ objectMembers n.additionalPropertyRole members,
        c.Settled n (v.evaluateIn depth) path) →
      Handles n (v.evaluateIn depth) path .additionalProperties
        (objectMembers n.additionalPropertyRole members)
        (fun y => ∃ members', y = .object members' ∧ List.Forall₂
          (fun c entry => entry.1 = c.segment ∧ c.Accepted n (v.evaluateIn depth) path entry.2)
          (objectMembers n.additionalPropertyRole members) members')
        (v.evaluateKeyword (v.evaluateIn depth) .additionalProperties n path (.object members))) := by
  have hpath := v.path_of_evaluateIn depth
  refine ⟨n.passed_itemRole_or, n.passed_propertyRole_or,
    n.handles_applyItems (v.evaluateIn depth) path hpath,
    n.handles_applyAdditionalItems (v.evaluateIn depth) path hpath,
    n.handles_applyProperties (v.evaluateIn depth) path hpath v.registry,
    n.handles_applyAdditionalProperties (v.evaluateIn depth) path hpath⟩

/-- A schema of boxes: a number and nothing behind it, or a label and some counts. -/
def boxSchema : Json :=
  .object [("items", .array [.object [("type", .string "integer")]]),
    ("additionalItems", .bool false),
    ("properties", .object [("label", .object [("type", .string "string")])]),
    ("additionalProperties", .object [("type", .string "integer")])]

/-- The schema of boxes on its own. -/
def boxNode : Node :=
  let address : Uri := ⟨"http", some (.ofHost "boxes"), .segments [""], none, none⟩
  ⟨boxSchema, address, "", address, none⟩

/-- The evaluation of boxes. -/
def boxes : Validator := ⟨Registry.empty, .openApi, false⟩

/-- A list of numbers, one too many. -/
def boxItems : List Json := [.ofInt 1, .ofInt 2]

/-- A label with a count, and a count that is none. -/
def boxMembers : Ordered Json :=
  [("screws", .ofInt 20), ("label", .string "new"), ("nails", .null)]

/-- The second item is the one that `additionalItems` rejects, and `additionalProperties`
    rejects the count that is none; the other two keywords accept. -/
theorem evaluateKeyword_handles_box :
    ((∃ y, boxes.evaluateKeyword (boxes.evaluateIn 1) .items boxNode "" (.array boxItems) = .ok y)
        ↔ ∀ c ∈ itemMembers boxNode.itemRole boxItems,
          ∃ y, c.Accepted boxNode (boxes.evaluateIn 1) "" y)
      ∧ (∀ e, boxes.evaluateKeyword (boxes.evaluateIn 1) .additionalItems boxNode ""
          (.array boxItems) = .error e →
        ∃ causes, e = .ofCauses "" boxNode.scope .additionalItems causes
          ∧ Reported boxNode (boxes.evaluateIn 1) "" .additionalItems
            [⟨"0", .ofInt 1, .passed⟩, ⟨"1", .ofInt 2, .forbidden⟩] causes)
      ∧ (∀ y, boxes.evaluateKeyword (boxes.evaluateIn 1) .properties boxNode ""
          (.object boxMembers) = .ok y →
        ∃ kept added, y = .object (kept ++ added) ∧ List.Forall₂
          (fun c entry => entry.1 = c.segment
            ∧ c.Accepted boxNode (boxes.evaluateIn 1) "" entry.2)
          (objectMembers boxNode.propertyRole boxMembers) kept)
      ∧ (∀ e, boxes.evaluateKeyword (boxes.evaluateIn 1) .additionalProperties boxNode ""
          (.object boxMembers) = .error e →
        ∃ causes, e = .ofCauses "" boxNode.scope .additionalProperties causes
          ∧ Reported boxNode (boxes.evaluateIn 1) "" .additionalProperties
            [⟨"screws", .ofInt 20, .judged ["additionalProperties"]⟩,
              ⟨"label", .string "new", .passed⟩,
              ⟨"nails", .null, .judged ["additionalProperties"]⟩] causes) := by
  obtain ⟨_, _, hitems, hadditionalItems, hproperties, hadditional⟩ :=
    evaluateKeyword_handles boxes 1 boxNode ""
  have hpresent : ∀ name ∈ boxNode.declaredNames, name ∈ Ordered.keys boxMembers := by
    decide +kernel
  refine ⟨?_, ?_, ?_, ?_⟩
  · exact (hitems boxItems (by decide +kernel)).accepts
  · exact (hadditionalItems boxItems (by decide +kernel)).reports
  · exact (hproperties boxMembers (by decide) (by decide +kernel) (by decide +kernel)
      fun name hname habsent => absurd (hpresent name hname) habsent).returns
  · exact (hadditional boxMembers (by decide +kernel)).reports

end Validator

end OpenApi
