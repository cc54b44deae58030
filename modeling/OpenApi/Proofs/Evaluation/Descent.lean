import OpenApi.Proofs.Evaluation.Inside
import OpenApi.Proofs.Evaluation.Termination

/-!
# Evaluations That Add Defaults End

An evaluation that adds defaults may go into a default and add another one there, so
the height of its instance is no measure for it. What is one is the number of defaults
that can still be added inside one another, first, and the height of the value that a
place had at the beginning, second. What has become of the value since then does not
matter: whatever is inside of it now is inside of what it was, or is a default.

The measure is about a place, and while the evaluation stays at the place it walks
along the edges of the graph, as it does without defaults. Each keyword leaves a place
with a trail one longer, so the invariant is that the value has grown on a trail, and
that what is still to do on the trail keeps to the bound.

There need not be a bound. A default whose members are to be evaluated by a keyword
that comes later at the same place can have the same default added inside of it, and
so on forever, although no schema is written with itself.

## Main definitions

* `Advances`: A value has grown on a trail of some tasks.
* `Validator.Enough`: A depth is enough below a measure.

## Theorems

* `promises_tasks`: Tasks that come one after the other.
* `promises_inside`: What is inside, as a keyword on members comes to it.
* `promises_visit`, `promises_combinator`: Keywords on members, and combinators.
* `promises_keyword`: Any keyword.
* `acyclic_null`: There are no cycles where nothing is selected.
* `enough_of_founded`: Every depth is enough for what is below it.
* `evaluateIn_terminates_filling`: Without cycles, and with a bound on defaults inside one
  another, some depth is enough.
-/

namespace OpenApi

/-- On a trail of the tasks, a value has become another one, which repeats no key. -/
def Advances (r : Registry) (visits : List Visit) (tasks : List Task) (x z : Json) : Prop :=
  z.WellFormed ∧ ∃ more, Passes r tasks more ∧ Grown r (visits ++ more) x z

section Tasks

variable (r : Registry)

theorem advances_of_grown (visits : List Visit) (tasks : List Task) (x y : Json)
    (hy : y.WellFormed) (hgrown : Grown r visits x y) : Advances r visits tasks x y := by
  refine ⟨hy, [], passes_nil r tasks, ?_⟩
  rwa [List.append_nil]

theorem advances_of_passes (visits : List Visit) (tasks tasks' : List Task) (x z : Json)
    (htasks : ∀ more, Passes r tasks more → Passes r tasks' more)
    (h : Advances r visits tasks x z) : Advances r visits tasks' x z := by
  obtain ⟨hz, more, hmore, hgrown⟩ := h
  exact ⟨hz, more, htasks more hmore, hgrown⟩

theorem advances_append (visits more : List Visit) (tasks tasks' : List Task) (x z : Json)
    (hmore : Passes r tasks more) (h : Advances r (visits ++ more) tasks' x z) :
    Advances r visits (tasks ++ tasks') x z := by
  obtain ⟨hz, rest, hrest, hgrown⟩ := h
  rw [List.append_assoc] at hgrown
  exact ⟨hz, more ++ rest, passes_append r tasks tasks' more rest hmore hrest, hgrown⟩

/-- The first task may be all that is done. -/
theorem passes_cons (task : Task) (rest : List Task) (visits : List Visit)
    (h : Passes r [task] visits) : Passes r (task :: rest) visits := by
  have hlonger := passes_append r [task] rest visits [] h (passes_nil r rest)
  rwa [List.append_nil] at hlonger

/-- Tasks that come one after the other, each of them on a trail that keeps to the
    bound. -/
theorem promises_tasks {α : Type} (bound : Nat) (x : Json) (task : α → Task)
    (step : Json → α → Except Failure Json) (items : List α)
    (hstep : ∀ item ∈ items, ∀ visits y, y.WellFormed → Grown r visits x y →
      FillsAtMost r bound visits [task item] x →
        Promises False (Advances r visits [task item] x) (step y item)) :
    ∀ visits y, y.WellFormed → Grown r visits x y →
      FillsAtMost r bound visits (items.map task) x →
        Promises False (Advances r visits (items.map task) x) (items.foldlM step y) := by
  induction items with
  | nil => exact fun visits y hy hgrown _ => advances_of_grown r visits [] x y hy hgrown
  | cons first rest ih =>
      intro visits y hy hgrown hbound
      have hfirst : FillsAtMost r bound visits [task first] x :=
        fillsAtMost_of_passes r bound visits _ _ x (passes_cons r (task first) _) hbound
      rw [List.foldlM_cons]
      refine promises_bind False _ _ _ _ (hstep first List.mem_cons_self visits y hy hgrown hfirst)
        fun y' hy' => ?_
      -- The others start from a trail that has what the first one has passed.
      obtain ⟨hwell, more, hmore, hgrown'⟩ := hy'
      have hrest := ih (fun item hitem => hstep item (List.mem_cons_of_mem first hitem))
        (visits ++ more) y' hwell hgrown'
        (fillsAtMost_append r bound visits more [task first] (rest.map task) x hbound hmore)
      exact promises_mono False _ _
        (fun z hz => advances_append r visits more [task first] _ x z hmore hz) _ hrest

end Tasks

namespace Validator

variable (v : Validator)

/-- A depth is enough for a schema and a value if it is above a measure: the weight of
    what the value was, first, and the rank of the schema, second. -/
def Enough (depth : Nat) : Prop :=
  ∀ (n : Node) (visits : List Visit) (x y : Json) (bound : Nat), v.registry.Vertex n →
    y.WellFormed → Grown v.registry visits x y →
      FillsAtMost v.registry bound visits [.schema n] x →
        weight v.registry bound x * (v.registry.size + 1) + n.rank v.registry .null < depth →
          ∀ path, Promises False (Advances v.registry visits [.schema n] x)
            (v.evaluateIn depth n path y)

/-- Nothing is selected for a value that is no object, so no schema leads back to itself
    where no schema is written with itself. -/
theorem acyclic_null (hfounded : v.registry.Founded) (n : Node) (hn : v.registry.Vertex n) :
    n.Acyclic v.registry .null := by
  refine (v.registry.acyclic_iff .null hfounded n hn).mpr fun m _ hback => ?_
  obtain ⟨t, _, _, ⟨_, _, path, uri, _, huri, _⟩, _⟩ := hback
  obtain ⟨_, _, _, _, htext, _⟩ := (t.selected_eq_ok_iff path .null uri).mp huri
  exact nomatch htext

section Keywords

variable (hdocuments : ∀ entry ∈ v.registry.documents, entry.2.WellFormed) (depth bound : Nat)
  (henough : v.Enough depth) (t : Node) (ht : v.registry.Vertex t) (visits : List Visit)
  (x y : Json) (hy : y.WellFormed) (hgrown : Grown v.registry visits x y) (path : String)

include hdocuments henough ht hy hgrown

section Members

variable (k : Keyword) (hk : k.judgesItems = true ∨ k.judgesMembers = true)
  (hbound : FillsAtMost v.registry bound visits [.keyword t k] x)
  (hdepth : weight v.registry bound x * (v.registry.size + 1) ≤ depth)

include hk hbound hdepth

omit hdocuments hgrown in
/-- The depth is enough for what is inside, since that has less weight. The weight is
    that of its origin, whatever has become of it. -/
theorem promises_inside (count : Nat) (segment : Segment) (inner : List Visit) (origin w : Json)
    (m : Node) (horigin : Origin v.registry visits x count segment inner origin)
    (hm : (Visit.mk k t).schemaAt? segment = some m) (hw : y.at? segment = some w)
    (hgrown : Grown v.registry inner origin w) :
    Promises False (Advances v.registry inner [.schema m] origin) (v.evaluateIn depth m path w) := by
  obtain ⟨hcount, hbound'⟩ := fillsAtMost_inside v.registry bound count visits inner ⟨k, t⟩ x
    origin segment m hk hbound horigin hm
  have hvertex := vertex_of_schemaAt? v.registry ⟨k, t⟩ segment m ht.1 hm
  have hrank := v.registry.rank_le .null m hvertex
  have hweight := weight_lt v.registry bound count visits inner x origin segment hcount horigin
  have hmul := Nat.mul_le_mul_right (v.registry.size + 1) (Nat.succ_le_of_lt hweight)
  rw [Nat.succ_mul] at hmul
  exact henough m inner origin w (bound - count) hvertex
    (Json.wellFormed_of_mem_parts y w hy (Json.mem_parts_of_at? y w segment hw)) hgrown hbound'
    (by omega) path

/-- The depth is enough for a keyword on members, and the trail gets longer by it. -/
theorem promises_visit :
    Promises False (Advances v.registry visits [.keyword t k] x)
      (v.evaluateKeyword (v.evaluateIn depth) k t path y) := by
  refine promises_of_ne_depth _ _ ?_ fun z hz => ?_
  · refine evaluateKeyword_ne_depth v (v.evaluateIn depth) hdocuments ⟨k, t⟩ hk ht.1 path y hy
      fun segment m w hm hw path => ?_
    obtain ⟨_, _, hat⟩ := exists_of_grown v.registry visits x y hgrown
    obtain ⟨count, inner, origin, horigin, hgrown'⟩ := hat segment w hw
    exact ne_depth_of_promises _ _ (v.promises_inside depth bound henough t ht visits x y hy path k
      hk hbound hdepth count segment inner origin w m horigin hm hw hgrown')
  · have hmakes := makes_of_evaluateKeyword v (v.evaluateIn depth) hdocuments ⟨k, t⟩ hk ht.1 path y
      hy z hz
    have hgrows := grows_of_evaluateKeyword v hdocuments depth k t (v.registry.holds_of_has t ht.1)
      path y z hz hy
    refine ⟨hgrows.1, [⟨k, t⟩], .visit t k [] [] hk .nil, ?_⟩
    refine grown_of_makes v.registry (v.evaluateIn depth) visits ⟨k, t⟩ x y z hgrown hmakes
      fun count segment inner origin m path w w' horigin hm hw hgrown' hevaluate => ?_
    have hpromise := v.promises_inside depth bound henough t ht visits x y hy path k hk hbound
      hdepth count segment inner origin w m horigin hm hw hgrown'
    rw [hevaluate] at hpromise
    exact hpromise.2

end Members

section Branches

variable (hfounded : v.registry.Founded) (n : Node) (hn : v.registry.Vertex n)
  (hfollow : v.registry.follow n = .ok t)
  (hdepth : weight v.registry bound x * (v.registry.size + 1) + n.rank v.registry .null ≤ depth)

omit hdocuments ht hy hgrown

include hfounded hn hfollow hdepth

/-- A schema that is applied where the references lead has a lower rank. -/
theorem promises_edge (m : Node) (hm : t.Applies v.registry .null m .null) (visits : List Visit)
    (y : Json) (hy : y.WellFormed) (hgrown : Grown v.registry visits x y)
    (hbound : FillsAtMost v.registry bound visits [.schema m] x) :
    Promises False (Advances v.registry visits [.schema m] x) (v.evaluateIn depth m path y) := by
  have hedge : n.Leads v.registry .null m := ⟨t, hfollow, hm⟩
  have hrank := v.registry.rank_lt .null n m hn (v.acyclic_null hfounded n hn) hedge
  exact henough m visits x y bound (v.registry.vertex_of_leads .null n m hn hedge) hy hgrown
    hbound (by omega) path

include hy hgrown

/-- `allOf` hands the value from branch to branch. -/
theorem promises_allBranches
    (hbound : FillsAtMost v.registry bound visits [.keyword t .allOf] x) :
    Promises False (Advances v.registry visits [.keyword t .allOf] x)
      (t.applyAllOf v.registry (v.evaluateIn depth) path y) := by
  have htasks : ∀ more, Passes v.registry ((t.branches "allOf").map .schema) more →
      Passes v.registry [.keyword t .allOf] more := fun more hmore =>
    .all t [] more ((List.append_nil _).symm ▸ hmore)
  refine promises_mono False _ _
    (fun z hz => advances_of_passes v.registry visits _ _ x z htasks hz) _ ?_
  refine promises_tasks v.registry bound x .schema _ (t.branches "allOf")
    (fun m hm visits y hy hgrown hbound => ?_) visits y hy hgrown
    (fillsAtMost_of_passes v.registry bound visits _ _ x htasks hbound)
  -- A branch that is skipped leaves the value as it is.
  refine Node.promises_applyMember False _ t _ path v.registry y m
    (advances_of_grown v.registry visits _ x y hy hgrown) fun hexcluded => ?_
  exact v.promises_edge depth bound henough t x path hfounded n hn hfollow hdepth m
    (.member .null m hm hexcluded) visits y hy hgrown hbound

/-- A branch that may be all that is done on the trail. -/
theorem promises_branch (k : Keyword) (m : Node) (happlies : t.Applies v.registry .null m .null)
    (htasks : ∀ more, Passes v.registry [.schema m] more → Passes v.registry [.keyword t k] more)
    (hbound : FillsAtMost v.registry bound visits [.keyword t k] x) :
    Promises False (Advances v.registry visits [.keyword t k] x) (v.evaluateIn depth m path y) := by
  refine promises_mono False _ _
    (fun z hz => advances_of_passes v.registry visits _ _ x z htasks hz) _ ?_
  exact v.promises_edge depth bound henough t x path hfounded n hn hfollow hdepth m happlies visits
    y hy hgrown (fillsAtMost_of_passes v.registry bound visits _ _ x htasks hbound)

/-- The depth is enough for a combinator, since its branches have a lower rank. -/
theorem promises_combinator (hdialect : v.dialect = .jsonSchema) (k : Keyword)
    (hcheck : k.isCheck = false) (hitems : k.judgesItems = false) (hmembers : k.judgesMembers = false)
    (hbound : FillsAtMost v.registry bound visits [.keyword t k] x) :
    Promises False (Advances v.registry visits [.keyword t k] x)
      (v.evaluateKeyword (v.evaluateIn depth) k t path y) := by
  have hself : Advances v.registry visits [.keyword t k] x y :=
    advances_of_grown v.registry visits _ x y hy hgrown
  have hbranch := fun m happlies htasks => v.promises_branch depth bound henough t visits x y hy hgrown
    path hfounded n hn hfollow hdepth k m happlies htasks hbound
  unfold evaluateKeyword
  rw [hdialect]
  cases k with
  | discriminator => exact hself
  | allOf =>
      exact v.promises_allBranches depth bound henough t visits x y hy hgrown path hfounded n hn
        hfollow hdepth hbound
  | anyOf =>
      refine Node.promises_anyOf False _ t _ path y fun m hm => ?_
      exact hbranch m (.choice "anyOf" .null m (Or.inl rfl) hm) fun more hmore =>
        .choice t m .anyOf [] more (Or.inl rfl) hm hmore
  | oneOf =>
      refine Node.promises_oneOf False _ t _ path y fun m hm => ?_
      exact hbranch m (.choice "oneOf" .null m (Or.inr rfl) hm) fun more hmore =>
        .choice t m .oneOf [] more (Or.inr rfl) hm hmore
  | not =>
      -- The schema under `not` sees the same instance, and what it returns is given up.
      refine Node.promises_not False _ t _ path y hself fun m hm => ?_
      exact hbranch m (.negation .null m hm) fun more hmore => .negation t m [] more hm hmore
  | items | additionalItems => exact nomatch hitems
  | properties | additionalProperties => exact nomatch hmembers
  | _ => exact nomatch hcheck

end Branches

end Keywords

section Depth

variable (hdialect : v.dialect = .jsonSchema)
  (hdocuments : ∀ entry ∈ v.registry.documents, entry.2.WellFormed)
  (hfounded : v.registry.Founded)

include hdialect hdocuments hfounded

/-- Any keyword, on a trail that keeps to the bound. -/
theorem promises_keyword (depth bound : Nat) (henough : v.Enough depth) (n t : Node)
    (hn : v.registry.Vertex n) (ht : v.registry.Vertex t)
    (hfollow : v.registry.follow n = .ok t) (k : Keyword) (path : String)
    (visits : List Visit) (x y : Json) (hy : y.WellFormed) (hgrown : Grown v.registry visits x y)
    (hbound : FillsAtMost v.registry bound visits [.keyword t k] x)
    (hdepth : weight v.registry bound x * (v.registry.size + 1) + n.rank v.registry .null ≤ depth) :
    Promises False (Advances v.registry visits [.keyword t k] x)
      (v.evaluateKeyword (v.evaluateIn depth) k t path y) := by
  by_cases hinside : k.judgesItems = true ∨ k.judgesMembers = true
  · exact v.promises_visit hdocuments depth bound henough t ht visits x y hy hgrown path k hinside
      hbound (Nat.le_of_add_right_le hdepth)
  · rw [not_or, Bool.not_eq_true, Bool.not_eq_true] at hinside
    by_cases hcheck : k.isCheck = true
    · -- What checks return is the instance.
      refine promises_mono False (fun z => y = z) _ (fun z hz => hz ▸
        advances_of_grown v.registry visits _ x y hy hgrown) _ ?_
      rcases k.isAssertion_or_type hcheck with hassertion | rfl
      · exact promises_of_isAssertion False v _ k hassertion t path y
      · unfold evaluateKeyword
        rw [hdialect]
        exact t.promises_checkType path y False
    · rw [Bool.not_eq_true] at hcheck
      exact v.promises_combinator depth bound henough t visits x y hy hgrown path hfounded n hn hfollow
        hdepth hdialect k hcheck hinside.1 hinside.2 hbound

/-- Whatever the measure is, a depth above it is enough. -/
theorem enough_of_founded (depth : Nat) : v.Enough depth := by
  induction depth with
  | zero => exact fun n visits x y bound _ _ _ _ hdepth => absurd hdepth (Nat.not_lt_zero _)
  | succ depth ih =>
      intro n visits x y bound hn hy hgrown hbound hdepth path
      change Promises False _ (v.evaluateWith (v.evaluateIn depth) n path y)
      unfold evaluateWith
      refine promises_bind False _ _ _ _ (promises_follow False v.registry n) fun t hfollow => ?_
      have ht := v.registry.vertex_of_follow n t hn hfollow
      split
      · have htasks : ∀ more, Passes v.registry ((Dialect.jsonSchema.keywords.filter
            fun k => t.has k.name).map (.keyword t)) more → Passes v.registry [.schema n] more :=
          fun more hmore => .schema n t [] more hfollow ((List.append_nil _).symm ▸ hmore)
        refine promises_mono False _ _
          (fun z hz => advances_of_passes v.registry visits _ _ x z htasks hz) _ ?_
        unfold evaluateKeywords
        rw [hdialect]
        exact promises_tasks v.registry bound x (.keyword t) _ _
          (fun k _ visits y hy hgrown hbound => v.promises_keyword hdialect hdocuments hfounded depth
            bound ih n t hn ht hfollow k path visits x y hy hgrown hbound (Nat.le_of_lt_succ hdepth))
          visits y hy hgrown (fillsAtMost_of_passes v.registry bound visits _ _ x htasks hbound)
      · exact trivial
      · exact advances_of_grown v.registry visits _ x y hy hgrown

end Depth

/-- Where no schema is written with itself, and no more defaults than a bound can be
    added inside one another, some depth is enough, and evaluating deeper makes no
    difference. -/
theorem evaluateIn_terminates_filling (v : Validator) (hdialect : v.dialect = .jsonSchema)
    (hdocuments : ∀ entry ∈ v.registry.documents, entry.2.WellFormed)
    (hfounded : v.registry.Founded) (x : Json) (hx : x.WellFormed) (n : Node)
    (hn : v.registry.Vertex n) (bound : Nat)
    (hbound : ∀ visits, Passes v.registry [.schema n] visits →
      ¬ Fillings v.registry (bound + 1) visits x) :
    ∃ depth, ∀ path, v.evaluateIn depth n path x ≠ .error .depth
      ∧ ∀ depth' ≥ depth, v.evaluateIn depth' n path x = v.evaluateIn depth n path x := by
  refine ⟨weight v.registry bound x * (v.registry.size + 1) + n.rank v.registry .null + 1,
    fun path => ?_⟩
  have hdepth := ne_depth_of_promises _ _ (v.enough_of_founded hdialect hdocuments hfounded _ n [] x
    x bound hn hx (.same [] x) hbound (Nat.lt_succ_self _) path)
  exact ⟨hdepth, fun depth' hle => v.evaluateIn_eq_of_le _ depth' hle n path x hdepth⟩

/-- The address of the schema of dolls. -/
def dollAddress : Uri := ⟨"http", some (.ofHost "shop"), .segments ["dolls"], none, none⟩

/-- A reference to the whole schema. -/
def dollReference : Json := .object [("$ref", .string "\x23")]

/-- A schema that evaluates the members of another one after its own. -/
def dollSchema (inner : Json) (branch : Ordered Json) : Json :=
  .object [("properties", .object [("inner", inner)]),
    ("allOf", .array [.object [("properties", .object branch)]])]

/-- A validator for dolls that are described by a schema. -/
def dollShop (schema : Json) : Validator := ⟨⟨[(dollAddress, schema)], [], []⟩, .jsonSchema, false⟩

/-- The schema of dolls, or a place in it. -/
def dollNode (value : Json) (place : String) : Node := ⟨value, dollAddress, place, dollAddress, none⟩

/-- Branches come first, then the whole schema, then what refers to it. -/
def dollRank (n : Node) : Nat := ["/allOf/0", ""].idxOf n.pointer

/-- Each doll has another one inside, and is painted red if nothing is said. -/
def paintedDoll : Json :=
  dollSchema dollReference [("paint", .object [("default", .string "red")])]

theorem founded_paintedDoll : (dollShop paintedDoll).registry.Founded :=
  Registry.founded_of_lt _ dollRank (by decide +kernel)

/-- Some depth is enough for a doll with one inside. -/
theorem evaluateIn_terminates_doll :
    ∃ depth, ∀ path, (dollShop paintedDoll).evaluateIn depth (dollNode paintedDoll "") path
          (.object [("inner", .object [])]) ≠ .error .depth
      ∧ ∀ depth' ≥ depth, (dollShop paintedDoll).evaluateIn depth' (dollNode paintedDoll "") path
          (.object [("inner", .object [])])
        = (dollShop paintedDoll).evaluateIn depth (dollNode paintedDoll "") path
          (.object [("inner", .object [])]) := by
  refine evaluateIn_terminates_filling (dollShop paintedDoll) rfl (by decide +kernel)
    founded_paintedDoll _ (by decide +kernel) _
    ⟨(by decide +kernel : (dollShop paintedDoll).registry.nodeAt? _ = some _), Or.inl rfl⟩ 1
    fun visits _ hfillings => ?_
  -- The only default is a text, so nothing is added inside of it.
  have hle := le_one_of_fillings _ (plain_of_fills (dollShop paintedDoll).registry
    (by decide +kernel)) 2 visits _ hfillings
  exact absurd hle (by decide)

/-- Each doll gets another one inside. -/
def endlessDoll : Json :=
  dollSchema (.object [("default", .object [])]) [("inner", dollReference)]

/-- The branch of that schema. -/
def endlessBranch : Node :=
  dollNode (.object [("properties", .object [("inner", dollReference)])]) "/allOf/0"

/-- A doll that is added is evaluated by the branch. -/
theorem evaluateWith_endlessDoll (evaluate : Evaluation) (n : Node) (path : String)
    (hn : (dollShop endlessDoll).registry.follow n = .ok (dollNode endlessDoll ""))
    (h : evaluate endlessBranch path (.object [("inner", .object [])]) = .error .depth) :
    (dollShop endlessDoll).evaluateWith evaluate n path (.object []) = .error .depth := by
  have hfilter : (dollShop endlessDoll).dialect.keywords.filter
      (fun k => (dollNode endlessDoll "").has k.name) = [.properties, .allOf] := by decide +kernel
  have hplaces : (dollNode endlessDoll "").PlacesAll (dollShop endlessDoll).registry evaluate path
      ["inner"] [] [("inner", .object [])] := by
    refine .cons "inner" [] [] _ _ (.added (dollNode (.object [("default", .object [])])
      "/properties/inner") (.object []) (by decide +kernel) rfl ?_) (.nil _)
    exact eq_ok_of_toOption _ _ (by decide +kernel)
  have hproperties : (dollShop endlessDoll).evaluateKeyword evaluate .properties
      (dollNode endlessDoll "") path (.object []) = .ok (.object [("inner", .object [])]) :=
    ((dollNode endlessDoll "").applyProperties_eq_ok_iff _ evaluate path _ rfl [] _).mpr
      ⟨_, hplaces, rfl⟩
  -- The branch gets the instance with the default in it, and this one has no member `inner` inside.
  have hbranches : (dollNode endlessDoll "").branches "allOf" = [endlessBranch] := by
    decide +kernel
  have hall : (dollShop endlessDoll).evaluateKeyword evaluate .allOf (dollNode endlessDoll "") path
      (.object [("inner", .object [])]) = .error .depth := by
    change (dollNode endlessDoll "").applyAllOf _ evaluate path _ = _
    unfold Node.applyAllOf
    rw [hbranches, List.foldlM_cons]
    unfold Node.applyMember
    rw [h]
    rfl
  rw [(dollShop endlessDoll).evaluateWith_object evaluate n _ _ path _ hn rfl]
  unfold evaluateKeywords
  rw [hfilter, List.foldlM_cons]
  refine (bind_eq_error_iff _ _ _).mpr (Or.inr ⟨_, hproperties, ?_⟩)
  rw [List.foldlM_cons, hall]
  rfl

/-- The branch evaluates it by the whole schema. -/
theorem evaluateWith_endlessBranch (evaluate : Evaluation) (path : String)
    (h : ∀ path, evaluate (dollNode dollReference "/allOf/0/properties/inner") path (.object [])
      = .error .depth) :
    (dollShop endlessDoll).evaluateWith evaluate endlessBranch path
      (.object [("inner", .object [])]) = .error .depth := by
  have hfollow : ((dollShop endlessDoll).registry.follow endlessBranch).toOption
      = some endlessBranch := by decide +kernel
  have hfilter : (dollShop endlessDoll).dialect.keywords.filter
      (fun k => endlessBranch.has k.name) = [.properties] := by decide +kernel
  have hchild : endlessBranch.child? ["properties", "inner"]
      = some (dollNode dollReference "/allOf/0/properties/inner") := by decide +kernel
  have hdeclared : endlessBranch.get? "properties" = some (.object [("inner", dollReference)]) := rfl
  -- The only member has a schema that leads back, and that is where the depth runs out.
  have hproperty : endlessBranch.applyProperty (dollShop endlessDoll).registry evaluate path
      ⟨[("inner", .object [])], []⟩ "inner" = .error .depth := by
    unfold Node.applyProperty
    rw [hchild]
    change (Node.judge evaluate _ path "inner" (.object []) >>= _) = _
    unfold Node.judge
    dsimp only
    rw [h]
    rfl
  have hproperties : endlessBranch.applyProperties (dollShop endlessDoll).registry evaluate path
      (.object [("inner", .object [])]) = .error .depth := by
    rw [endlessBranch.applyProperties_eq _ evaluate path _ hdeclared]
    refine (bind_eq_error_iff _ _ _).mpr (Or.inl ?_)
    rw [show Ordered.keys [("inner", dollReference)] = ["inner"] from rfl, List.foldlM_cons,
      hproperty]
    rfl
  rw [(dollShop endlessDoll).evaluateWith_object evaluate endlessBranch _ _ path _
    (eq_ok_of_toOption _ _ hfollow) rfl]
  unfold evaluateKeywords
  rw [hfilter, List.foldlM_cons]
  exact (bind_eq_error_iff _ _ _).mpr (Or.inl hproperties)

/-- No depth is enough for a doll that gets one inside that gets one inside. -/
theorem evaluateIn_endlessDoll :
    (dollShop endlessDoll).dialect = .jsonSchema
      ∧ (∀ entry ∈ (dollShop endlessDoll).registry.documents, entry.2.WellFormed)
      ∧ (dollShop endlessDoll).registry.Founded
      ∧ (dollShop endlessDoll).registry.Vertex (dollNode endlessDoll "")
      ∧ (Json.object []).WellFormed
      ∧ ∀ depth, (dollShop endlessDoll).evaluateIn depth (dollNode endlessDoll "") ""
        (.object []) = .error .depth := by
  have hreference : ((dollShop endlessDoll).registry.follow
      (dollNode dollReference "/allOf/0/properties/inner")).toOption
        = some (dollNode endlessDoll "") := by decide +kernel
  have hroot : ((dollShop endlessDoll).registry.follow (dollNode endlessDoll "")).toOption
      = some (dollNode endlessDoll "") := by decide +kernel
  have hdepth : ∀ depth n path, (dollShop endlessDoll).registry.follow n
      = .ok (dollNode endlessDoll "") →
        (dollShop endlessDoll).evaluateIn depth n path (.object []) = .error .depth := by
    intro depth
    -- Two steps lead from the whole schema back to it.
    induction depth using Nat.twoStepInduction with
    | zero => exact fun n path _ => rfl
    | one => exact fun n path hn => evaluateWith_endlessDoll _ n path hn rfl
    | more depth ih _ =>
        intro n path hn
        refine evaluateWith_endlessDoll _ n path hn ?_
        exact evaluateWith_endlessBranch _ path fun path =>
          ih _ path (eq_ok_of_toOption _ _ hreference)
  exact ⟨rfl, by decide +kernel, Registry.founded_of_lt _ dollRank (by decide +kernel),
    ⟨(by decide +kernel : (dollShop endlessDoll).registry.nodeAt? _ = some _), Or.inl rfl⟩,
    by decide +kernel, fun depth => hdepth depth _ "" (eq_ok_of_toOption _ _ hroot)⟩

end Validator

end OpenApi
