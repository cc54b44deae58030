import OpenApi.Proofs.Evaluation.Stability
import OpenApi.Proofs.Json.Identical

/-!
# Endurance

When a schema that has returned an instance also returns what is made of that
later, by defaults from elsewhere.

Nothing has to be said of most keywords, because additions do not matter to a
check that is not fragile, and an item or a member that has not changed is judged
as before. What may matter are the fragile checks, branches that have rejected the
instance, and the items and members that have changed. Of the branches of `allOf`,
and of the one that `anyOf` or `oneOf` has chosen, the same is asked in turn.

## Main definitions

* `Node.stands`: The fragile checks accept.
* `Node.keepsChanges`: What has changed is returned by the subschemas that judge it.
* `Validator.endures`: A schema is not disturbed by a change.

## Theorems

* `settlesKeyword_of_keepsChanges`: Keywords on items and members settle where what
  has changed is kept.
* `settlesKeyword_of_stands`: So do all keywords in front of the combinators.
* `settles_of_endures`: A schema settles on what it endures.
-/

namespace OpenApi

/-- The keywords in front of the combinators. -/
def Keyword.inside : List Keyword := Dialect.jsonSchema.keywords.filter Keyword.isInside

theorem keywords_jsonSchema :
    Dialect.jsonSchema.keywords
      = Keyword.inside ++ ([.allOf] ++ ([.anyOf] ++ ([.oneOf] ++ [.not]))) := rfl

namespace Node

variable (n : Node) (path : String)

/-- The fragile checks accept an instance. -/
def stands (x : Json) : Bool :=
  (n.checkEnum path x).isOk && (n.checkConst path x).isOk && (n.checkUniqueItems path x).isOk
    && (n.checkMaxProperties path x).isOk

/-- The subschemas that judge an item return it as it is. -/
def keepsItem (evaluate : Evaluation) (pair : Json × Nat) : Bool :=
  decide (judge evaluate (n.itemSchema? pair.2) path (toString pair.2) pair.1 = .ok (.ok pair.1))
    && match n.get? "items" with
      | some (.array tuple) => decide (pair.2 < tuple.length)
          || decide (n.judgeAdditional evaluate "additionalItems" .additionalItems path
            (toString pair.2) pair.1 = .ok (.ok pair.1))
      | _ => true

/-- The subschemas that judge a member return it as it is. -/
def keepsMember (evaluate : Evaluation) (entry : String × Json) : Bool :=
  decide (judge evaluate (n.child? ["properties", entry.1]) path entry.1 entry.2 = .ok (.ok entry.2))
    && decide (n.judgeUndeclared evaluate path entry.1 entry.2 = .ok (.ok entry.2))

/-- Wherever an item or a member is not what it was, the subschemas that judge it
    return it as it is. -/
def keepsChanges (evaluate : Evaluation) (x y : Json) : Bool :=
  decide (x = y) ||
    match x, y with
    | .array xs, .array ys => ys.zipIdx.all fun pair =>
        decide (xs[pair.2]? = some pair.1) || n.keepsItem path evaluate pair
    | .object xs, .object ys => ys.all fun entry =>
        decide (Ordered.get? xs entry.1 = some entry.2) || n.keepsMember path evaluate entry
    | _, _ => false

end Node

namespace Validator

variable (v : Validator)

/-- A schema rejects an instance, subschemas being evaluated to a depth. -/
def rejectsIn (depth : Nat) (path : String) (x : Json) (n : Node) : Bool :=
  decide (∃ w, v.evaluateIn depth n path x = .error (.violation w))

/-- A schema that returns the first of two instances is not disturbed by the second
    one. Its fragile checks accept that as well, its `not` still rejects, its choices
    can still be made, and what has changed is kept by the subschemas that judge it. -/
def endures (v : Validator) (path : String) : Nat → Node → Json → Json → Bool
  | 0, _, _, _ => false
  | depth + 1, n, x, y =>
    match v.registry.follow n with
    | .error _ => false
    | .ok t =>
      match t.value with
      | .object _ =>
        let good := fun m =>
          (decide (v.evaluateIn depth m path x = .ok x) && endures v path depth m x y)
            || decide (v.evaluateIn depth m path y = .ok y)
        t.stands path y && t.keepsChanges path (v.evaluateIn depth) x y
          && ((t.branches "allOf").all fun m =>
            decide (t.isExcluded v.registry m = .ok true) || endures v path depth m x y)
          && (!t.has "anyOf" || firstGood good (v.rejectsIn depth path y) (t.branches "anyOf"))
          && (!t.has "oneOf" || onlyGood good (v.rejectsIn depth path y) (t.branches "oneOf"))
          && (t.child? ["not"]).all (v.rejectsIn depth path y)
      | _ => true

/-- A branch that was chosen endures a change, or is chosen now. -/
def staysChosen (depth : Nat) (path : String) (x y : Json) (m : Node) : Bool :=
  (decide (v.evaluateIn depth m path x = .ok x) && v.endures path depth m x y)
    || decide (v.evaluateIn depth m path y = .ok y)

/-- What it takes for a schema that is an object to endure a change. -/
structure Undisturbed (depth : Nat) (t : Node) (path : String) (x y : Json) : Prop where
  /-- The fragile checks still accept. -/
  stands : t.stands path y = true
  /-- What has changed is kept. -/
  keeps : t.keepsChanges path (v.evaluateIn depth) x y = true
  /-- Branches of `allOf` that are not skipped endure the change. -/
  members : ∀ m ∈ t.branches "allOf",
    t.isExcluded v.registry m = .ok true ∨ v.endures path depth m x y = true
  /-- A branch of `anyOf` can be chosen as before. -/
  anyOf : t.has "anyOf" = false
    ∨ firstGood (v.staysChosen depth path x y) (v.rejectsIn depth path y) (t.branches "anyOf") = true
  /-- A branch of `oneOf` can be chosen as before. -/
  oneOf : t.has "oneOf" = false
    ∨ onlyGood (v.staysChosen depth path x y) (v.rejectsIn depth path y) (t.branches "oneOf") = true
  /-- What must not hold does not hold now either. -/
  not : (t.child? ["not"]).all (v.rejectsIn depth path y) = true

theorem undisturbed_of_endures (depth : Nat) (n t : Node) (hfollow : v.registry.follow n = .ok t)
    (hobject : ∃ members, t.value = .object members) (path : String) (x y : Json)
    (h : v.endures path (depth + 1) n x y = true) : v.Undisturbed depth t path x y := by
  obtain ⟨members, hvalue⟩ := hobject
  unfold endures at h
  simp only [hfollow, hvalue, Bool.and_eq_true, Bool.or_eq_true, Bool.not_eq_true',
    List.all_eq_true, decide_eq_true_eq] at h
  obtain ⟨⟨⟨⟨⟨hstands, hkeeps⟩, hmembers⟩, hany⟩, hone⟩, hnot⟩ := h
  exact ⟨hstands, hkeeps, hmembers, hany, hone, hnot⟩

section Settling

variable (hdialect : v.dialect = .jsonSchema) (hconvert : v.converts = false)
  (hdocuments : ∀ entry ∈ v.registry.documents, entry.2.WellFormed) (path : String)

include hdialect hconvert hdocuments

omit hconvert hdocuments in
/-- Where the fragile checks accept, they return the instance. -/
theorem evaluateKeyword_of_stands (n : Node) (x : Json) (hstands : n.stands path x = true)
    (k : Keyword) (hfragile : k.isFragile = true) (evaluate : Evaluation) :
    v.evaluateKeyword evaluate k n path x = .ok x := by
  have hself : ∀ r : Except Failure Json, r.isOk = true → v.evaluateKeyword evaluate k n path x = r →
      k.isCheck = true → v.evaluateKeyword evaluate k n path x = .ok x := by
    intro r hok hr hcheck
    rcases r with e | y
    · exact nomatch hok
    · rw [hr, v.eq_of_check hdialect evaluate k hcheck n path x y hr]
  simp only [Node.stands, Bool.and_eq_true] at hstands
  obtain ⟨⟨⟨henum, hconst⟩, hunique⟩, hmax⟩ := hstands
  cases k with
  | enum => exact hself _ henum rfl rfl
  | const => exact hself _ hconst rfl rfl
  | uniqueItems => exact hself _ hunique rfl rfl
  | maxProperties => exact hself _ hmax rfl rfl
  | _ => exact nomatch hfragile

omit hconvert hdialect hdocuments in
/-- Keywords on items settle where they settled before, if what has changed is kept. -/
theorem settlesKeyword_of_keepsItem (n : Node) (k : Keyword) (hk : k.judgesItems = true)
    (xs ys : List Json) (depth : Nat)
    (hkeeps : ∀ pair ∈ ys.zipIdx,
      xs[pair.2]? = some pair.1 ∨ n.keepsItem path (v.evaluateIn depth) pair = true)
    (hsettles : v.SettlesKeyword k n path (.array xs)) : v.SettlesKeyword k n path (.array ys) := by
  cases k with
  | items =>
      rw [settlesKeyword_items_iff] at hsettles ⊢
      intro pair hpair
      -- An item that has not changed is judged as before, and any other is kept.
      rcases hkeeps pair hpair with hsame | hkeeps
      · exact hsettles pair (List.mem_zipIdx_iff_getElem?.mpr hsame)
      · have hjudge := of_decide_eq_true ((Bool.and_eq_true _ _).mp hkeeps).1
        exact ⟨depth, hjudge⟩
  | additionalItems =>
      by_cases htuple : ∃ tuple, n.get? "items" = some (.array tuple)
      · obtain ⟨tuple, htuple⟩ := htuple
        rw [v.settlesKeyword_additionalItems_iff n path tuple htuple] at hsettles ⊢
        intro pair hpair
        rcases hkeeps pair hpair with hsame | hkeeps
        · exact hsettles pair (List.mem_zipIdx_iff_getElem?.mpr hsame)
        · refine ⟨depth, ?_⟩
          have hbehind := ((Bool.and_eq_true _ _).mp hkeeps).2
          rw [htuple] at hbehind
          unfold Node.AdditionalItemBecomes
          by_cases hi : pair.2 < tuple.length
          · exact if_pos hi
          · rw [if_neg hi]
            exact of_decide_eq_true (((Bool.or_eq_true _ _).mp hbehind).resolve_left
              fun h => hi (of_decide_eq_true h))
      · exact ⟨0, n.applyAdditionalItems_of_not_array _ path _ fun hc => htuple hc.2⟩
  | _ => exact nomatch hk

omit hconvert hdialect in
/-- Keywords on members settle where they settled before, if what has changed is
    kept and nothing was removed. -/
theorem settlesKeyword_of_keepsMember (n : Node) (hn : v.registry.Holds n) (k : Keyword)
    (hk : k.judgesMembers = true) (xs ys : Ordered Json) (hx : (Json.object xs).WellFormed)
    (hy : (Json.object ys).WellFormed) (hsubset : Ordered.keys xs ⊆ Ordered.keys ys) (depth : Nat)
    (hkeeps : ∀ entry ∈ ys,
      Ordered.get? xs entry.1 = some entry.2 ∨ n.keepsMember path (v.evaluateIn depth) entry = true)
    (hsettles : v.SettlesKeyword k n path (.object xs)) : v.SettlesKeyword k n path (.object ys) := by
  rw [Json.wellFormed_object_iff] at hx hy
  cases k with
  | properties =>
      by_cases hdeclared : ∃ declared, n.get? "properties" = some (.object declared)
      · obtain ⟨declared, hdeclared⟩ := hdeclared
        have hnames := v.registry.nodup_keys_of_get? hdocuments n hn "properties" declared hdeclared
        rw [v.settlesKeyword_properties_iff n path declared hdeclared hnames _ hx.1] at hsettles
        rw [v.settlesKeyword_properties_iff n path declared hdeclared hnames _ hy.1]
        intro name hname
        rcases hvalue : Ordered.get? ys name with _ | value
        · -- What is absent now was absent before.
          have habsent : Ordered.get? xs name = none := (Ordered.get?_eq_none_iff xs name).mpr
            fun hmem => (Ordered.get?_eq_none_iff ys name).mp hvalue (hsubset hmem)
          rw [← habsent]
          exact hsettles name hname
        · rcases hkeeps (name, value) (Ordered.mem_of_get? ys name value hvalue) with hsame | hkeeps
          · rw [← hsame]
            exact hsettles name hname
          · refine ⟨depth, ?_⟩
            have hjudge := of_decide_eq_true ((Bool.and_eq_true _ _).mp hkeeps).1
            rw [Node.judge_eq_ok_iff] at hjudge
            rcases hjudge with ⟨hnone, _⟩ | ⟨m, hm, hvalue'⟩
            · exact n.fills_undeclared _ _ path name _ hnone
            · unfold Node.Fills
              rw [hm]
              exact ⟨value, rfl, hvalue'⟩
      · exact ⟨0, n.applyProperties_of_not_object v.registry _ path _ fun hc => hdeclared hc.2⟩
  | additionalProperties =>
      rw [settlesKeyword_additionalProperties_iff] at hsettles ⊢
      intro entry hentry
      -- A member that has not changed was there, so it has been judged already.
      rcases hkeeps entry hentry with hsame | hkeeps
      · exact hsettles entry (Ordered.mem_of_get? xs entry.1 entry.2 hsame)
      · exact ⟨depth, rfl, of_decide_eq_true ((Bool.and_eq_true _ _).mp hkeeps).2⟩
  | _ => exact nomatch hk

omit hconvert hdialect in
/-- A keyword on items or members settles where it settled before, if what has
    changed is kept. -/
theorem settlesKeyword_of_keepsChanges (n : Node) (hn : v.registry.Holds n) (k : Keyword)
    (hk : k.judgesItems = true ∨ k.judgesMembers = true) (x y : Json)
    (hx : x.WellFormed) (hy : y.WellFormed) (hextends : Json.Extends false x y) (depth : Nat)
    (hkeeps : n.keepsChanges path (v.evaluateIn depth) x y = true)
    (hsettles : v.SettlesKeyword k n path x) : v.SettlesKeyword k n path y := by
  unfold Node.keepsChanges at hkeeps
  rw [Bool.or_eq_true, decide_eq_true_eq] at hkeeps
  rcases hkeeps with rfl | hkeeps
  · exact hsettles
  · split at hkeeps
    -- Keywords on items look at arrays alone, and keywords on members at objects.
    · rename_i xs ys
      simp only [List.all_eq_true, Bool.or_eq_true, decide_eq_true_eq] at hkeeps
      rcases hk with hitems | hmembers
      · exact v.settlesKeyword_of_keepsItem path n k hitems xs ys depth hkeeps hsettles
      · exact ⟨0, v.evaluateKeyword_of_not_object _ n path k hmembers (.array ys) nofun⟩
    · rename_i xs ys
      simp only [List.all_eq_true, Bool.or_eq_true, decide_eq_true_eq] at hkeeps
      rcases hk with hitems | hmembers
      · exact ⟨0, v.evaluateKeyword_of_not_array _ n path k hitems (.object ys) nofun⟩
      · have hsubset : Ordered.keys xs ⊆ Ordered.keys ys := by
          cases hextends with
          | same => exact fun _ h => h
          | members _ _ hkeys => exact hkeys
        exact v.settlesKeyword_of_keepsMember hdocuments path n hn k hmembers xs ys hx hy hsubset depth
          hkeeps hsettles
    · exact nomatch hkeeps

omit hconvert in
/-- A keyword in front of the combinators settles on a grown instance if it did
    before, unless it is fragile, and if what has changed is kept. -/
theorem settlesKeyword_of_stands (n : Node) (hn : v.registry.Holds n) (x y : Json)
    (hx : x.WellFormed) (hy : y.WellFormed) (hextends : Json.Extends false x y) (depth : Nat)
    (hstands : n.stands path y = true)
    (hkeeps : n.keepsChanges path (v.evaluateIn depth) x y = true) (k : Keyword)
    (hk : k.isInside = true) (hsettles : k.isFragile = false → v.SettlesKeyword k n path x) :
    v.SettlesKeyword k n path y := by
  by_cases hfragile : k.isFragile = true
  · exact ⟨0, v.evaluateKeyword_of_stands hdialect path n y hstands k hfragile _⟩
  · rw [Bool.not_eq_true] at hfragile
    obtain ⟨depth', hdepth⟩ := hsettles hfragile
    rcases k.cases_of_isInside hk with hcheck | hkind
    · exact ⟨depth', v.evaluateKeyword_of_extends hdialect _ k hcheck n path hfragile x y hx hextends
        hdepth⟩
    · exact v.settlesKeyword_of_keepsChanges hdocuments path n hn k hkind x y hx hy hextends depth
        hkeeps ⟨depth', hdepth⟩

omit hdialect hconvert hdocuments in
theorem rejects_of_rejectsIn (depth : Nat) (x : Json) (n : Node)
    (h : v.rejectsIn depth path x n = true) : ∃ w, v.Rejects n path x w :=
  (of_decide_eq_true h).imp fun _ hw => ⟨depth, hw⟩

omit hdialect hconvert hdocuments in
theorem settles_of_staysChosen (depth : Nat) (x y : Json) (m : Node)
    (hendures : v.endures path depth m x y = true → v.Settles m path x → v.Settles m path y)
    (h : v.staysChosen depth path x y m = true) : v.Settles m path y := by
  simp only [staysChosen, Bool.or_eq_true, Bool.and_eq_true, decide_eq_true_eq] at h
  rcases h with ⟨hbefore, hendured⟩ | hnow
  · exact hendures hendured ⟨depth, hbefore⟩
  · exact ⟨depth, hnow⟩

/-- A keyword settles where it settled before, if the schema is not disturbed and
    branches settle on what they endure. -/
theorem settlesKeyword_of_undisturbed (depth : Nat) (t : Node) (hholds : v.registry.Holds t)
    (x y : Json) (hx : x.WellFormed) (hy : y.WellFormed) (hextends : Json.Extends false x y)
    (h : v.Undisturbed depth t path x y)
    (hbranches : ∀ m, v.registry.Holds m → v.endures path depth m x y = true →
      v.Settles m path x → v.Settles m path y)
    (k : Keyword) (hk : k ∈ v.dialect.keywords) (hhas : t.has k.name = true)
    (hsettles : v.SettlesKeyword k t path x) : v.SettlesKeyword k t path y := by
  have hbranch := fun key m (hm : m ∈ t.branches key) =>
    v.registry.closed_holds.branches _ t m key hholds hm
  have hchosen := fun key m (hm : m ∈ t.branches key) =>
    v.settles_of_staysChosen path depth x y m (hbranches m (hbranch key m hm))
  have hrejects := fun m => v.rejects_of_rejectsIn path depth y m
  rw [hdialect, keywords_jsonSchema] at hk
  rcases List.mem_append.mp hk with hinside | hcombinator
  · exact v.settlesKeyword_of_stands hdialect hdocuments path t hholds x y hx hy hextends depth h.stands
      h.keeps k (List.mem_filter.mp hinside).2 fun _ => hsettles
  · simp only [List.singleton_append, List.mem_cons, List.not_mem_nil, or_false] at hcombinator
    rcases hcombinator with rfl | rfl | rfl | rfl
    -- `allOf` is the one combinator for which it matters that it settled before.
    · rw [v.settlesKeyword_allOf_iff hconvert hdocuments path t hholds x hx] at hsettles
      rw [v.settlesKeyword_allOf_iff hconvert hdocuments path t hholds y hy]
      intro m hm
      rcases hsettles m hm with hskip | ⟨hkeep, hbefore⟩
      · exact Or.inl hskip
      · refine (h.members m hm).imp id fun hendures => ⟨hkeep, ?_⟩
        exact hbranches m (hbranch "allOf" m hm) hendures hbefore
    · refine v.settlesKeyword_anyOf t path y _ _ (hchosen "anyOf") (fun m _ => hrejects m)
        (h.anyOf.resolve_left fun hnone => ?_)
      exact Bool.false_ne_true (hnone.symm.trans hhas)
    · refine v.settlesKeyword_oneOf t path y _ _ hdialect (hchosen "oneOf") (fun m _ => hrejects m)
        (h.oneOf.resolve_left fun hnone => ?_)
      exact Bool.false_ne_true (hnone.symm.trans hhas)
    · refine v.settlesKeyword_not t path y fun m hm => hrejects m ?_
      have hnot := h.not
      rwa [hm] at hnot

/-- A schema that endures a change settles on what is made of the instance. -/
theorem settles_of_endures (x y : Json) (hx : x.WellFormed) (hy : y.WellFormed)
    (hextends : Json.Extends false x y) (depth : Nat) :
    ∀ n, v.registry.Holds n → v.endures path depth n x y = true →
      v.Settles n path x → v.Settles n path y := by
  -- By induction on the depth, for all subschemas at once.
  induction depth with
  | zero => exact fun n _ h => nomatch h
  | succ depth ih =>
      intro n hn h hsettles
      obtain ⟨depth', hdepth'⟩ := hsettles
      obtain ⟨t, ht⟩ := v.exists_deref_of_accepts n path x ⟨depth', x, hdepth'⟩
      have hfollow := (v.registry.follow_eq_ok_iff n t).mpr ht
      have hholds := v.registry.closed_holds.follow _ n t hn hfollow
      by_cases hobject : ∃ members, t.value = .object members
      · have hundisturbed := v.undisturbed_of_endures depth n t hfollow hobject path x y h
        have hbefore := (v.settles_iff_keywords hconvert hdocuments path n t ht hobject hholds x
          hx).mp ⟨depth', hdepth'⟩
        refine (v.settles_iff_keywords hconvert hdocuments path n t ht hobject hholds y hy).mpr
          fun k hk hhas => ?_
        exact v.settlesKeyword_of_undisturbed hdialect hconvert hdocuments path depth t hholds x y hx hy
          hextends hundisturbed ih k hk hhas (hbefore k hk hhas)
      · exact v.settles_of_leaf path n t ht (fun members hvalue => hobject ⟨members, hvalue⟩) x y x
          depth' hdepth'

end Settling

end Validator

end OpenApi
