import Mathlib.Algebra.Order.BigOperators.Group.List
import OpenApi.Proofs.Evaluation.Graph
import OpenApi.Proofs.Evaluation.Settling

/-!
# What May Become of an Instance on the Way

An evaluation without conversions changes its instance in one way only: `properties`
adds defaults. What is inside of a default may be evaluated as well, by the keywords
that come later at the same place, and these may add defaults inside of it. To say
how far that can go, it has to be known which keywords may come to a place, and in
which order.

A trail is the list of keywords on members that an evaluation goes through at one
place, one after the other. Which branches are taken and which keywords are there is
left open, so a schema has several trails. Below the place, at an item or a member,
an evaluation goes through the subschemas that the keywords of the trail have there.
If the item or member is a default, only the keywords behind the one that added it
come to it.

The depth that an evaluation needs is bounded if the number of defaults inside one
another is. A default is not higher than the documents are, so a value with its
bound has a weight that goes down with every step into it.

## Main definitions

* `Segment`, `Json.at?`: One step down in a value.
* `Visit`: A keyword on members at a schema.
* `Passes`: The trails of some schemas and keywords.
* `Origin`: Where a value inside comes from.
* `Fillings`: How many defaults can be added inside one another.
* `FillsAtMost`: A bound on that, for all that is still to do.
* `Grown`: What may become of a value on a trail.
* `weight`: A measure that goes down on the way into a value.

## Theorems

* `passes_append`: Trails of tasks that come one after the other.
* `origin_append`: An origin on a longer trail.
* `fillsAtMost_append`, `fillsAtMost_inside`: The bound for what comes later, and for a
  value inside.
* `exists_of_grown`, `grown_of_at?`: What becomes of a value, said of its parts.
* `weight_lt`: The weight goes down.
-/

namespace OpenApi

/-- One step down in a value. -/
inductive Segment where
  /-- To an item of an array. -/
  | item (i : Nat)
  /-- To a member of an object. -/
  | member (name : String)

/-- The value one step down. -/
def Json.at? : Json → Segment → Option Json
  | .array items, .item i => items[i]?
  | .object members, .member name => Ordered.get? members name
  | _, _ => none

theorem Json.height_at?_lt (x y : Json) (segment : Segment) (h : x.at? segment = some y) :
    y.height < x.height := by
  unfold at? at h
  split at h
  · exact height_item_lt _ y (List.mem_of_getElem? h)
  · rename_i members name
    exact height_member_lt members (name, y) (Ordered.mem_of_get? members name y h)
  · exact nomatch h

theorem Json.mem_parts_of_at? (x y : Json) (segment : Segment) (h : x.at? segment = some y) :
    y ∈ x.parts := by
  unfold at? at h
  split at h
  · exact mem_parts_item _ y (List.mem_of_getElem? h)
  · rename_i members name
    exact mem_parts_member members (name, y) (Ordered.mem_of_get? members name y h)
  · exact nomatch h

/-- Whether the value is an object. -/
def Json.isObject : Json → Bool
  | .object _ => true
  | _ => false

/-- A keyword on members at a schema that an evaluation comes to. -/
structure Visit where
  /-- The keyword. -/
  keyword : Keyword
  /-- The schema that has it, references being followed. -/
  schema : Node

namespace Visit

/-- The subschema that a keyword has for what is one step down. -/
def schemaAt? (s : Visit) (segment : Segment) : Option Node :=
  match s.keyword, segment with
  | .items, .item i => s.schema.itemSchema? i
  | .additionalItems, .item i =>
    match s.schema.get? "items" with
    | some (.array tuple) =>
      if i < tuple.length then none else s.schema.child? ["additionalItems"]
    | _ => none
  | .properties, .member name =>
    match s.schema.get? "properties" with
    | some (.object _) => s.schema.child? ["properties", name]
    | _ => none
  | .additionalProperties, .member name =>
    if s.schema.declares name then none else s.schema.child? ["additionalProperties"]
  | _, _ => none

/-- A schema of the registry declares a member with a default. -/
def Fills (r : Registry) (s : Visit) (name : String) (value : Json) : Prop :=
  s.keyword = .properties ∧ r.Has s.schema ∧
    ∃ m, s.schemaAt? (.member name) = some m ∧ m.default? r = .ok (some value)

end Visit

/-- What an evaluation has to do at a place. -/
inductive Task where
  /-- To evaluate a schema. -/
  | schema (n : Node)
  /-- To evaluate a keyword of a schema. -/
  | keyword (n : Node) (k : Keyword)

/-- The keywords on members that some tasks may lead to, one after the other.
    Anything may be left out. -/
inductive Passes (r : Registry) : List Task → List Visit → Prop where
  /-- Nothing is left to do. -/
  | nil : Passes r [] []
  /-- A task is left out. -/
  | skip (task : Task) (rest : List Task) (visits : List Visit) :
      Passes r rest visits → Passes r (task :: rest) visits
  /-- References are followed, and the keywords are evaluated in their order. -/
  | schema (n t : Node) (rest : List Task) (visits : List Visit) :
      r.follow n = .ok t →
        Passes r ((Dialect.jsonSchema.keywords.filter fun k => t.has k.name).map (.keyword t) ++ rest)
          visits → Passes r (.schema n :: rest) visits
  /-- A keyword on members is noted. -/
  | visit (n : Node) (k : Keyword) (rest : List Task) (visits : List Visit) :
      k.judgesItems = true ∨ k.judgesMembers = true → Passes r rest visits →
        Passes r (.keyword n k :: rest) (⟨k, n⟩ :: visits)
  /-- `allOf` has all its branches evaluated. -/
  | all (n : Node) (rest : List Task) (visits : List Visit) :
      Passes r ((n.branches "allOf").map .schema ++ rest) visits →
        Passes r (.keyword n .allOf :: rest) visits
  /-- `anyOf` and `oneOf` take the result of one branch. -/
  | choice (n m : Node) (k : Keyword) (rest : List Task) (visits : List Visit) :
      k = .anyOf ∨ k = .oneOf → m ∈ n.branches k.name → Passes r (.schema m :: rest) visits →
        Passes r (.keyword n k :: rest) visits
  /-- `not` has its schema evaluated. -/
  | negation (n m : Node) (rest : List Task) (visits : List Visit) :
      n.child? ["not"] = some m → Passes r (.schema m :: rest) visits →
        Passes r (.keyword n .not :: rest) visits

/-- What there is to do one step down, after some keywords. -/
def tasksBelow (segment : Segment) (visits : List Visit) : List Task :=
  (visits.filterMap fun s => s.schemaAt? segment).map .schema

/-- Where a value one step down comes from, how many defaults were added for that,
    and which keywords have come to it. -/
inductive Origin (r : Registry) (visits : List Visit) (x : Json) :
    Nat → Segment → List Visit → Json → Prop where
  /-- It was there. -/
  | kept (segment : Segment) (inner : List Visit) (y : Json) :
      x.at? segment = some y → Passes r (tasksBelow segment visits) inner →
        Origin r visits x 0 segment inner y
  /-- It was absent, and a default was added. -/
  | filled (members : Ordered Json) (name : String) (before after : List Visit) (s : Visit)
      (inner : List Visit) (value : Json) :
      x = .object members → Ordered.get? members name = none → visits = before ++ s :: after →
        s.Fills r name value → Passes r (tasksBelow (.member name) after) inner →
          Origin r visits x 1 (.member name) inner value

/-- How many defaults can be added inside one another, where the value at the place
    is the given one at first. -/
inductive Fillings (r : Registry) : Nat → List Visit → Json → Prop where
  /-- None at all. -/
  | nil (visits : List Visit) (x : Json) : Fillings r 0 visits x
  /-- Those further down. -/
  | cons (count k : Nat) (visits inner : List Visit) (x y : Json) (segment : Segment) :
      Origin r visits x count segment inner y → Fillings r k inner y →
        Fillings r (k + count) visits x

/-- What a value may have become after some keywords. -/
inductive Grown (r : Registry) : List Visit → Json → Json → Prop where
  /-- Nothing has changed. -/
  | same (visits : List Visit) (x : Json) : Grown r visits x x
  /-- Values inside have become others, and defaults were added. -/
  | inside (visits : List Visit) (x y : Json) (trail : Segment → List Visit)
      (origin : Segment → Json) :
      (∀ members, y = .object members → ∃ members', x = .object members') →
        (∀ segment, y.at? segment = none → x.at? segment = none) →
          (∀ segment z, y.at? segment = some z →
            ∃ count, Origin r visits x count segment (trail segment) (origin segment)) →
              (∀ segment z, y.at? segment = some z → Grown r (trail segment) (origin segment) z) →
                Grown r visits x y

section Trails

variable (r : Registry)

theorem passes_nil (tasks : List Task) : Passes r tasks [] := by
  induction tasks with
  | nil => exact .nil
  | cons task rest ih => exact .skip task rest [] ih

/-- Trails of tasks that come one after the other. -/
theorem passes_append (tasks tasks' : List Task) (visits visits' : List Visit)
    (h : Passes r tasks visits) (h' : Passes r tasks' visits') :
    Passes r (tasks ++ tasks') (visits ++ visits') := by
  -- A task that others take the place of keeps what is behind it, so the rest stays in reach.
  induction h with
  | nil => exact h'
  | skip task rest visits _ ih => exact .skip task _ _ ih
  | schema n t rest visits ht _ ih =>
      refine .schema n t (rest ++ tasks') _ ht ?_
      rwa [← List.append_assoc]
  | visit n k rest visits hk _ ih => exact .visit n k _ _ hk ih
  | all n rest visits _ ih =>
      refine .all n (rest ++ tasks') _ ?_
      rwa [← List.append_assoc]
  | choice n m k rest visits hk hm _ ih => exact .choice n m k _ _ hk hm ih
  | negation n m rest visits hm _ ih => exact .negation n m _ _ hm ih

theorem tasksBelow_append (segment : Segment) (visits visits' : List Visit) :
    tasksBelow segment (visits ++ visits') = tasksBelow segment visits ++ tasksBelow segment visits' := by
  unfold tasksBelow
  rw [List.filterMap_append, List.map_append]

theorem tasksBelow_singleton (segment : Segment) (s : Visit) (m : Node)
    (hm : s.schemaAt? segment = some m) : tasksBelow segment [s] = [.schema m] := by
  unfold tasksBelow
  rw [List.filterMap_cons, hm]
  rfl

/-- A value that comes from somewhere still does so when more keywords follow. -/
theorem origin_append (visits more inner inner' : List Visit) (x y : Json) (count : Nat)
    (segment : Segment) (h : Origin r visits x count segment inner y)
    (hmore : Passes r (tasksBelow segment more) inner') :
    Origin r (visits ++ more) x count segment (inner ++ inner') y := by
  cases h with
  | kept _ _ _ hy hinner =>
      refine .kept segment _ y hy ?_
      rw [tasksBelow_append]
      exact passes_append r _ _ _ _ hinner hmore
  | filled members name before after s _ _ hx habsent hvisits hfills hinner =>
      -- What follows comes behind the keyword that added the default, and so to the default.
      refine .filled members name before (after ++ more) s _ y hx habsent ?_ hfills ?_
      · rw [hvisits, List.append_assoc, List.cons_append]
      · rw [tasksBelow_append]
        exact passes_append r _ _ _ _ hinner hmore

end Trails

section Bounds

variable (r : Registry)

/-- Whatever the tasks lead to, no more defaults than that can be added inside one
    another. -/
def FillsAtMost (bound : Nat) (visits : List Visit) (tasks : List Task) (x : Json) : Prop :=
  ∀ more, Passes r tasks more → ¬ Fillings r (bound + 1) (visits ++ more) x

theorem fillsAtMost_append (bound : Nat) (visits more : List Visit) (tasks tasks' : List Task)
    (x : Json) (h : FillsAtMost r bound visits (tasks ++ tasks') x) (hmore : Passes r tasks more) :
    FillsAtMost r bound (visits ++ more) tasks' x := by
  intro rest hrest hfillings
  rw [List.append_assoc] at hfillings
  exact h (more ++ rest) (passes_append r tasks tasks' more rest hmore hrest) hfillings

theorem fillsAtMost_of_passes (bound : Nat) (visits : List Visit) (tasks tasks' : List Task)
    (x : Json) (htasks : ∀ more, Passes r tasks' more → Passes r tasks more)
    (h : FillsAtMost r bound visits tasks x) : FillsAtMost r bound visits tasks' x :=
  fun more hmore => h more (htasks more hmore)

/-- One default less can be added inside a value that is a default itself. -/
theorem fillsAtMost_inside (bound count : Nat) (visits inner : List Visit) (s : Visit) (x y : Json)
    (segment : Segment) (m : Node)
    (hs : s.keyword.judgesItems = true ∨ s.keyword.judgesMembers = true)
    (h : FillsAtMost r bound visits [.keyword s.schema s.keyword] x)
    (horigin : Origin r visits x count segment inner y) (hm : s.schemaAt? segment = some m) :
    count ≤ bound ∧ FillsAtMost r (bound - count) inner [.schema m] y := by
  have hvisit : Passes r [.keyword s.schema s.keyword] [s] :=
    .visit s.schema s.keyword [] [] hs .nil
  -- Defaults that the subschema adds inside are added inside here, on a trail with one more
  -- keyword.
  have hinside : ∀ k more, Passes r [.schema m] more → Fillings r k (inner ++ more) y →
      k + count ≠ bound + 1 := by
    intro k more hmore hfillings heq
    have hlonger := origin_append r visits [s] inner more x y count segment horigin
      ((tasksBelow_singleton segment s m hm).symm ▸ hmore)
    exact h [s] hvisit (heq ▸ .cons count k _ _ x y segment hlonger hfillings)
  have hle : count ≤ 1 := by
    cases horigin with
    | kept => exact Nat.zero_le 1
    | filled => exact Nat.le_refl 1
  have hnone := hinside 0 [] (passes_nil r _) (.nil _ y)
  have hbound : count ≤ bound := by omega
  refine ⟨hbound, fun more hmore hfillings => hinside _ more hmore hfillings ?_⟩
  omega

/-- How high the documents are together. -/
def Registry.top : Nat := (r.documents.map fun entry => entry.2.height).sum

/-- What a keyword has for a value inside is a schema of the registry, without an
    exclusion. -/
theorem vertex_of_schemaAt? (s : Visit) (segment : Segment) (m : Node) (hs : r.Has s.schema)
    (h : s.schemaAt? segment = some m) : r.Vertex m := by
  have hchild : ∀ segments, s.schema.Canonical segments → s.schema.child? segments = some m →
      r.Vertex m := fun segments hcanonical hm =>
    ⟨r.closed_has.child? r segments s.schema m hs hcanonical hm,
      Or.inl (Node.exclusion_of_child? segments s.schema m hm)⟩
  -- Each keyword goes down by segments that a lookup takes as well.
  unfold Visit.schemaAt? at h
  split at h
  · obtain ⟨segments, hcanonical, hm⟩ := Node.canonical_itemSchema? s.schema m _ h
    exact hchild segments hcanonical hm
  · split at h
    · split at h
      · exact nomatch h
      · exact hchild _ (Node.canonical_of_index? _ m "additionalItems" rfl h) h
    · exact nomatch h
  · split at h
    · rename_i declared hdeclared
      exact hchild _ (Node.canonical_property _ m declared _ hdeclared h) h
    · exact nomatch h
  · split at h
    · exact nomatch h
    · exact hchild _ (Node.canonical_of_index? _ m "additionalProperties" rfl h) h
  · exact nomatch h

/-- A default is written at some schema of the registry. -/
theorem exists_of_fills (s : Visit) (name : String) (value : Json) (h : s.Fills r name value) :
    ∃ target, r.Has target ∧ target.get? "default" = some value := by
  obtain ⟨_, hs, m, hm, hdefault⟩ := h
  obtain ⟨target, htarget, hvalue⟩ := (bind_eq_ok_iff _ _ _).mp hdefault
  exact ⟨target, r.closed_has.follow r m target (vertex_of_schemaAt? r s _ m hs hm).1 htarget,
    Except.ok.inj hvalue⟩

/-- A default is a part of some document. -/
theorem height_le_of_fills (s : Visit) (name : String) (value : Json)
    (h : s.Fills r name value) : value.height ≤ r.top := by
  obtain ⟨target, htarget, hvalue⟩ := exists_of_fills r s name value h
  obtain ⟨entry, hentry, hpart⟩ := r.holds_of_has target htarget
  have hinside := Json.mem_parts_of_get? target.value "default" value hvalue
  refine Nat.le_trans (Json.height_le_of_mem_parts entry.2 value
    (Json.mem_parts_trans _ _ _ hpart hinside)) ?_
  exact List.le_sum_of_mem (List.mem_map_of_mem hentry)

/-- A measure for a value that so many defaults can be added to inside one another. -/
def weight (bound : Nat) (x : Json) : Nat := bound * (r.top + 1) + x.height

/-- A value that was there is not as high, and a default counts itself. -/
theorem weight_lt (bound count : Nat) (visits inner : List Visit) (x y : Json) (segment : Segment)
    (hcount : count ≤ bound) (h : Origin r visits x count segment inner y) :
    weight r (bound - count) y < weight r bound x := by
  unfold weight
  cases h with
  | kept _ _ _ hy _ =>
      exact Nat.add_lt_add_left (Json.height_at?_lt x y segment hy) _
  | filled members name before after s _ _ _ _ _ hfills _ =>
      -- One default less to come outweighs the height of any default.
      have hheight := height_le_of_fills r s name y hfills
      obtain ⟨rest, rfl⟩ := Nat.exists_eq_add_of_le hcount
      rw [Nat.add_sub_cancel_left, Nat.add_comm 1 rest, Nat.succ_mul]
      omega

/-- No object is inside of the value. -/
def Json.Plain (x : Json) : Prop := ∀ y ∈ x.parts, y.isObject = false

instance (x : Json) : Decidable x.Plain :=
  inferInstanceAs (Decidable (∀ y ∈ x.parts, y.isObject = false))

/-- Nothing can be added where there is no object. -/
theorem eq_zero_of_fillings (k : Nat) (visits : List Visit) (x : Json) (hx : x.Plain)
    (h : Fillings r k visits x) : k = 0 := by
  induction h with
  | nil => rfl
  | cons count k visits inner x y segment horigin _ ih =>
      cases horigin with
      | kept _ _ _ hy _ =>
          rw [ih fun z hz => hx z (Json.mem_parts_trans x y z (Json.mem_parts_of_at? x y segment hy) hz)]
      | filled members _ _ _ _ _ _ hobject _ _ _ _ =>
          have hplain := hx x (Json.mem_parts_self x)
          rw [hobject] at hplain
          exact nomatch hplain

/-- Where no default has an object inside, nothing is added to what was added. -/
theorem le_one_of_fillings (hdefaults : ∀ s name value, Visit.Fills r s name value → value.Plain)
    (k : Nat) (visits : List Visit) (x : Json) (h : Fillings r k visits x) : k ≤ 1 := by
  induction h with
  | nil => exact Nat.zero_le 1
  | cons count k visits inner x y segment horigin hrest ih =>
      cases horigin with
      | kept => exact ih
      | filled members name _ _ s _ _ _ _ _ hfills _ =>
          rw [eq_zero_of_fillings r k inner y (hdefaults s name y hfills) hrest]

theorem plain_of_fills (hdocuments : ∀ entry ∈ r.documents, ∀ z ∈ entry.2.parts,
    ∀ value ∈ z.get? "default", value.Plain) (s : Visit) (name : String) (value : Json)
    (h : s.Fills r name value) : value.Plain := by
  obtain ⟨target, htarget, hvalue⟩ := exists_of_fills r s name value h
  obtain ⟨entry, hentry, hpart⟩ := r.holds_of_has target htarget
  exact hdocuments entry hentry target.value hpart value hvalue

end Bounds

section Values

variable (r : Registry)

/-- What has become of a value, said of the values inside. -/
theorem grown_of_at? (visits : List Visit) (x y : Json)
    (hobject : ∀ members, y = .object members → ∃ members', x = .object members')
    (hkept : ∀ segment, y.at? segment = none → x.at? segment = none)
    (h : ∀ segment z, y.at? segment = some z → ∃ count inner w,
      Origin r visits x count segment inner w ∧ Grown r inner w z) : Grown r visits x y := by
  -- There is one value at each place, so its trail and its origin can be chosen by the place.
  have hchoice : ∀ segment, ∃ inner w, ∀ z, y.at? segment = some z →
      (∃ count, Origin r visits x count segment inner w) ∧ Grown r inner w z := by
    intro segment
    cases hz : y.at? segment with
    | none => exact ⟨[], .null, fun z hz' => nomatch hz'⟩
    | some z =>
        obtain ⟨count, inner, w, horigin, hgrown⟩ := h segment z hz
        refine ⟨inner, w, fun z' hz' => ?_⟩
        rw [← Option.some.inj hz']
        exact ⟨⟨count, horigin⟩, hgrown⟩
  choose trail origin hboth using hchoice
  exact .inside visits x y trail origin hobject hkept (fun segment z hz => (hboth segment z hz).1)
    fun segment z hz => (hboth segment z hz).2

theorem exists_of_grown (visits : List Visit) (x y : Json) (h : Grown r visits x y) :
    (∀ members, y = .object members → ∃ members', x = .object members')
      ∧ (∀ segment, y.at? segment = none → x.at? segment = none)
      ∧ ∀ segment z, y.at? segment = some z → ∃ count inner w,
          Origin r visits x count segment inner w ∧ Grown r inner w z := by
  cases h with
  | same =>
      refine ⟨fun members hx => ⟨members, hx⟩, fun segment hx => hx, fun segment z hz => ?_⟩
      exact ⟨0, [], z, .kept segment [] z hz (passes_nil r _), .same [] z⟩
  | inside _ _ _ trail origin hobject hkept horigin hgrown =>
      refine ⟨hobject, hkept, fun segment z hz => ?_⟩
      obtain ⟨count, h⟩ := horigin segment z hz
      exact ⟨count, _, _, h, hgrown segment z hz⟩

end Values

end OpenApi
