import OpenApi.Proofs.Evaluation.Grown
import OpenApi.Proofs.Evaluation.Size

/-!
# Settling

When a schema returns an instance as it is, whatever the depth that takes. This
can be said part by part: a schema settles if each of its keywords does, a
keyword on items or members if each judgement of one does, and `allOf` if each of
its branches is skipped or settles. There are finitely many parts, so one depth
is enough for all of them. That nothing but the instance comes out in the end
says the same of every part on the way, because no part takes back what another
one has added.

## Main definitions

* `Validator.Settles`, `Validator.SettlesKeyword`: An instance is returned as it
  is.
* `Node.ItemBecomes`, `Node.AdditionalItemBecomes`, `Node.EntryBecomes`: What
  becomes of one item or member.
* `Keyword.isInside`: The keywords in front of the combinators.
* `firstGood`, `onlyGood`: How `anyOf` and `oneOf` choose a branch.

## Theorems

* `settles_iff_keywords`: A schema settles by its keywords.
* `settlesKeyword_items_iff`, `settlesKeyword_additionalItems_iff`,
  `settlesKeyword_properties_iff`, `settlesKeyword_additionalProperties_iff`: Keywords
  settle by the items or members they judge.
* `settlesKeyword_allOf_iff`: `allOf` settles by its branches.
* `settlesKeyword_anyOf`, `settlesKeyword_oneOf`, `settlesKeyword_not`: The other
  combinators settle by branches that settle and branches that reject.
-/

namespace OpenApi

/-- The keywords on the items of an array. -/
def Keyword.judgesItems : Keyword → Bool
  | .items | .additionalItems => true
  | _ => false

/-- The keywords on the members of an object. -/
def Keyword.judgesMembers : Keyword → Bool
  | .properties | .additionalProperties => true
  | _ => false

/-- The keywords in front of the combinators, as JSON Schema has them. -/
def Keyword.isInside : Keyword → Bool
  | .discriminator | .allOf | .anyOf | .oneOf | .not => false
  | _ => true

/-- Such a keyword checks the instance or judges what is in it. -/
theorem Keyword.cases_of_isInside (k : Keyword) (hk : k.isInside = true) :
    k.isCheck = true ∨ k.judgesItems = true ∨ k.judgesMembers = true := by
  cases k with
  | items | additionalItems => exact Or.inr (Or.inl rfl)
  | properties | additionalProperties => exact Or.inr (Or.inr rfl)
  | discriminator | allOf | anyOf | oneOf | not => exact absurd hk Bool.false_ne_true
  | _ => exact Or.inl rfl

section Lists

variable {α β : Type}

/-- What is related to each item from some depth on is related to all from some
    depth on. -/
theorem exists_depth_forall₂_iff (R : Nat → α → β → Prop)
    (hmono : ∀ depth depth' a b, depth ≤ depth' → R depth a b → R depth' a b) (f : α → β)
    (items : List α) :
    (∃ depth, List.Forall₂ (R depth) items (items.map f))
      ↔ ∀ a ∈ items, ∃ depth, R depth a (f a) := by
  simp only [List.forall₂_map_right_iff, List.forall₂_same]
  constructor
  · rintro ⟨depth, h⟩ a ha
    exact ⟨depth, h a ha⟩
  · exact exists_depth (fun depth a => R depth a (f a))
      (fun depth depth' a hle => hmono depth depth' a (f a) hle) items

theorem exists_of_forall₂_zipIdx {R : α × Nat → β → Prop} (xs : List α) (ys : List β)
    (h : List.Forall₂ R xs.zipIdx ys) (i : Nat) (y : β) (hy : ys[i]? = some y) :
    ∃ x, xs[i]? = some x ∧ R (x, i) y := by
  obtain ⟨pair, hpair, hR⟩ := exists_getElem?_of_forall₂ xs.zipIdx ys h i y hy
  rw [List.getElem?_zipIdx, Nat.zero_add] at hpair
  obtain ⟨x, hx, rfl⟩ := Option.map_eq_some_iff.mp hpair
  exact ⟨x, hx, hR⟩

/-- A member that each pair of entries has in common is found in both. -/
theorem get?_of_forall₂ {R : String × α → String × α → Prop} (members members' : Ordered α)
    (h : List.Forall₂ R members members') (name : String)
    (hR : ∀ a b, R a b → a.1 = b.1 ∧ (a.1 = name → a.2 = b.2)) :
    Ordered.get? members' name = Ordered.get? members name := by
  unfold Ordered.get?
  induction h with
  | nil => rfl
  | @cons a b _ _ hab _ ih =>
      obtain ⟨hkey, hvalue⟩ := hR a b hab
      -- The two lists have the same key in front, and under the name in question the same value.
      rw [List.lookup_cons, List.lookup_cons, ih, ← hkey]
      by_cases hname : a.1 = name
      · rw [hvalue hname]
      · rw [show (name == a.1) = false from beq_false_of_ne fun h => hname h.symm]

end Lists

namespace Node

variable (n : Node) (evaluate : Evaluation) (path : String)

/-- `items` makes a value of an item. -/
def ItemBecomes (pair : Json × Nat) (y : Json) : Prop :=
  judge evaluate (n.itemSchema? pair.2) path (toString pair.2) pair.1 = .ok (.ok y)

/-- `additionalItems`, behind a list under `items`, makes a value of an item. -/
def AdditionalItemBecomes (tuple : List Json) (pair : Json × Nat) (y : Json) : Prop :=
  (if pair.2 < tuple.length then .ok (.ok pair.1)
    else n.judgeAdditional evaluate "additionalItems" .additionalItems path (toString pair.2) pair.1)
      = .ok (.ok y)

/-- `additionalProperties` makes a member of a member, under the same key. -/
def EntryBecomes (a b : String × Json) : Prop :=
  a.1 = b.1 ∧ n.judgeUndeclared evaluate path a.1 a.2 = .ok (.ok b.2)

section Under

variable (evaluate' : Evaluation) (hunder : evaluate.Under evaluate')

include hunder

theorem itemBecomes_of_under (pair : Json × Nat) (y : Json)
    (h : n.ItemBecomes evaluate path pair y) : n.ItemBecomes evaluate' path pair y :=
  ok_of_below _ _ (below_judge evaluate evaluate' hunder path _ _ pair.1) (.ok y) h

theorem additionalItemBecomes_of_under (tuple : List Json) (pair : Json × Nat) (y : Json)
    (h : n.AdditionalItemBecomes evaluate path tuple pair y) :
    n.AdditionalItemBecomes evaluate' path tuple pair y := by
  unfold AdditionalItemBecomes at h ⊢
  by_cases hi : pair.2 < tuple.length
  · rwa [if_pos hi] at h ⊢
  · rw [if_neg hi] at h ⊢
    exact ok_of_below _ _ (n.below_judgeAdditional evaluate evaluate' hunder path _ _ _ pair.1)
      (.ok y) h

theorem entryBecomes_of_under (a b : String × Json) (h : n.EntryBecomes evaluate path a b) :
    n.EntryBecomes evaluate' path a b := by
  refine ⟨h.1, ?_⟩
  have hjudge := h.2
  unfold judgeUndeclared at hjudge ⊢
  by_cases hdeclares : n.declares a.1 = true
  · rwa [if_pos hdeclares] at hjudge ⊢
  · rw [if_neg hdeclares] at hjudge ⊢
    exact ok_of_below _ _ (n.below_judgeAdditional evaluate evaluate' hunder path _ _ _ a.2)
      (.ok b.2) hjudge

theorem fills_of_under (r : Registry) (name : String) (before after : Option Json)
    (h : n.Fills r evaluate path name before after) : n.Fills r evaluate' path name before after := by
  unfold Fills at h ⊢
  split at h
  · exact h
  · obtain ⟨value', hvalue', hevaluate⟩ := h
    exact ⟨value', hvalue', ok_of_below _ _ (hunder _ _ _) value' hevaluate⟩
  · exact h

end Under

end Node

section Choices

variable {α : Type} (good bad : α → Bool)

/-- Some item is good, and those in front of it are bad. -/
def firstGood : List α → Bool
  | [] => false
  | a :: rest => good a || (bad a && firstGood rest)

/-- One item is good, and all others are bad. -/
def onlyGood : List α → Bool
  | [] => false
  | a :: rest => (good a && rest.all bad) || (bad a && onlyGood rest)

end Choices

namespace Node

variable (evaluate : Evaluation) (path : String) (y : Json) (good bad : Node → Bool)

/-- Behind branches that reject, the first one that returns the instance counts. -/
theorem firstAccepted_of_firstGood (branches : List Node)
    (hbranches : ∀ m ∈ branches, (good m = true → evaluate m path y = .ok y)
      ∧ (bad m = true → ∃ w, evaluate m path y = .error (.violation w)))
    (h : firstGood good bad branches = true) :
    firstAccepted evaluate path y branches = .ok (.ok y) := by
  induction branches with
  | nil => cases h
  | cons first rest ih =>
      obtain ⟨hgood, hbad⟩ := hbranches first List.mem_cons_self
      unfold firstGood at h
      rw [Bool.or_eq_true, Bool.and_eq_true] at h
      unfold firstAccepted
      rcases h with hfirst | ⟨hfirst, hrest⟩
      · rw [hgood hfirst]
        rfl
      · obtain ⟨w, hw⟩ := hbad hfirst
        rw [hw, ih (fun m hm => hbranches m (List.mem_cons_of_mem first hm)) hrest]
        rfl

theorem exists_verdicts_of_rejecting (branches : List Node)
    (hbranches : ∀ m ∈ branches, ∃ w, evaluate m path y = .error (.violation w)) :
    ∃ verdicts, branches.mapM (fun m => verdict (evaluate m path y)) = .ok verdicts
      ∧ verdicts.filterMap Verdict.value? = [] := by
  induction branches with
  | nil => exact ⟨[], rfl, rfl⟩
  | cons first rest ih =>
      obtain ⟨w, hw⟩ := hbranches first List.mem_cons_self
      obtain ⟨verdicts, hverdicts, hvalues⟩ := ih fun m hm =>
        hbranches m (List.mem_cons_of_mem first hm)
      refine ⟨.error w :: verdicts, ?_, hvalues⟩
      rw [List.mapM_cons, hw, hverdicts]
      rfl

/-- Among branches that reject, the only one that returns the instance counts. -/
theorem exists_verdicts_of_onlyGood (branches : List Node)
    (hbranches : ∀ m ∈ branches, (good m = true → evaluate m path y = .ok y)
      ∧ (bad m = true → ∃ w, evaluate m path y = .error (.violation w)))
    (h : onlyGood good bad branches = true) :
    ∃ verdicts, branches.mapM (fun m => verdict (evaluate m path y)) = .ok verdicts
      ∧ verdicts.filterMap Verdict.value? = [y] := by
  induction branches with
  | nil => cases h
  | cons first rest ih =>
      obtain ⟨hgood, hbad⟩ := hbranches first List.mem_cons_self
      have htail := fun m hm => hbranches m (List.mem_cons_of_mem first hm)
      unfold onlyGood at h
      rw [Bool.or_eq_true, Bool.and_eq_true, Bool.and_eq_true, List.all_eq_true] at h
      -- Behind the good branch all reject, and in front of it the search goes on.
      rcases h with ⟨hfirst, hrest⟩ | ⟨hfirst, hrest⟩
      · obtain ⟨verdicts, hverdicts, hvalues⟩ := exists_verdicts_of_rejecting evaluate path y rest
          fun m hm => (htail m hm).2 (hrest m hm)
        refine ⟨.ok y :: verdicts, ?_, congrArg (y :: ·) hvalues⟩
        rw [List.mapM_cons, hgood hfirst, hverdicts]
        rfl
      · obtain ⟨w, hw⟩ := hbad hfirst
        obtain ⟨verdicts, hverdicts, hvalues⟩ := ih htail hrest
        refine ⟨.error w :: verdicts, ?_, hvalues⟩
        rw [List.mapM_cons, hw, hverdicts]
        rfl

end Node

namespace Validator

variable (v : Validator)

/-- A schema returns an instance as it is, at some depth. -/
def Settles (n : Node) (path : String) (x : Json) : Prop :=
  ∃ depth, v.evaluateIn depth n path x = .ok x

/-- A keyword of a schema returns an instance as it is, at some depth. -/
def SettlesKeyword (k : Keyword) (n : Node) (path : String) (x : Json) : Prop :=
  ∃ depth, v.evaluateKeyword (v.evaluateIn depth) k n path x = .ok x

/-- A keyword that judges the members of its instance one by one settles if each
    judgement does. -/
theorem settles_iff_of_forall₂ {α β : Type} (apply : Evaluation → Except Failure Json)
    (R : Evaluation → α → β → Prop)
    (hmono : ∀ evaluate evaluate' a b, evaluate.Under evaluate' → R evaluate a b →
      R evaluate' a b)
    (wrap : List β → Json) (hwrap : Function.Injective wrap)
    (items : List α)
    (happly : ∀ evaluate y, apply evaluate = .ok y
      ↔ ∃ values, List.Forall₂ (R evaluate) items values ∧ y = wrap values)
    (f : α → β) :
    (∃ depth, apply (v.evaluateIn depth) = .ok (wrap (items.map f)))
      ↔ ∀ a ∈ items, ∃ depth, R (v.evaluateIn depth) a (f a) := by
  rw [← exists_depth_forall₂_iff (fun depth => R (v.evaluateIn depth)) _ f items]
  · refine exists_congr fun depth => (happly _ _).trans ?_
    constructor
    · rintro ⟨values, hvalues, heq⟩
      rwa [hwrap heq]
    · exact fun h => ⟨_, h, rfl⟩
  · exact fun depth depth' a b hle => hmono _ _ a b (v.evaluateIn_below depth depth' hle)

section Members

variable (n : Node) (path : String)

theorem settlesKeyword_items_iff (xs : List Json) :
    v.SettlesKeyword .items n path (.array xs)
      ↔ ∀ pair ∈ xs.zipIdx, ∃ depth, n.ItemBecomes (v.evaluateIn depth) path pair pair.1 := by
  have hiff := v.settles_iff_of_forall₂ (fun evaluate => n.applyItems evaluate path (.array xs))
    (fun evaluate => n.ItemBecomes evaluate path)
    (fun evaluate evaluate' pair y hunder =>
      n.itemBecomes_of_under evaluate path evaluate' hunder pair y)
    Json.array (fun _ _ => Json.array.inj) xs.zipIdx
    (fun evaluate y => n.applyItems_eq_ok_iff evaluate path xs y) Prod.fst
  rwa [List.zipIdx_map_fst] at hiff

theorem settlesKeyword_additionalItems_iff (tuple : List Json)
    (htuple : n.get? "items" = some (.array tuple)) (xs : List Json) :
    v.SettlesKeyword .additionalItems n path (.array xs)
      ↔ ∀ pair ∈ xs.zipIdx, ∃ depth,
          n.AdditionalItemBecomes (v.evaluateIn depth) path tuple pair pair.1 := by
  have hiff := v.settles_iff_of_forall₂
    (fun evaluate => n.applyAdditionalItems evaluate path (.array xs))
    (fun evaluate => n.AdditionalItemBecomes evaluate path tuple)
    (fun evaluate evaluate' pair y hunder =>
      n.additionalItemBecomes_of_under evaluate path evaluate' hunder tuple pair y)
    Json.array (fun _ _ => Json.array.inj) xs.zipIdx
    (fun evaluate y => n.applyAdditionalItems_eq_ok_iff evaluate path tuple xs htuple y) Prod.fst
  rwa [List.zipIdx_map_fst] at hiff

theorem settlesKeyword_additionalProperties_iff (members : Ordered Json) :
    v.SettlesKeyword .additionalProperties n path (.object members)
      ↔ ∀ entry ∈ members, ∃ depth, n.EntryBecomes (v.evaluateIn depth) path entry entry := by
  have hiff := v.settles_iff_of_forall₂
    (fun evaluate => n.applyAdditionalProperties evaluate path (.object members))
    (fun evaluate => n.EntryBecomes evaluate path)
    (fun evaluate evaluate' a b hunder =>
      n.entryBecomes_of_under evaluate path evaluate' hunder a b)
    Json.object (fun _ _ => Json.object.inj) members
    (fun evaluate y => n.applyAdditionalProperties_eq_ok_iff evaluate path members y) id
  rwa [List.map_id] at hiff

theorem settlesKeyword_properties_iff (declared : Ordered Json)
    (hdeclared : n.get? "properties" = some (.object declared))
    (hnames : (Ordered.keys declared).Nodup) (members : Ordered Json)
    (hnodup : (Ordered.keys members).Nodup) :
    v.SettlesKeyword .properties n path (.object members)
      ↔ ∀ name ∈ Ordered.keys declared, ∃ depth, n.Fills v.registry (v.evaluateIn depth) path name
          (Ordered.get? members name) (Ordered.get? members name) := by
  constructor
  -- What is returned is the instance, so each member becomes what it is.
  · rintro ⟨depth, h⟩ name _
    obtain ⟨members', hsame, _, _, hfills⟩ := n.exists_of_applyProperties v.registry _ path declared
      hdeclared hnames members hnodup _ h
    have hfill := hfills name
    rw [← Json.object.inj hsame] at hfill
    exact ⟨depth, hfill⟩
  · intro h
    obtain ⟨depth, hdepth⟩ := exists_depth (fun depth name => n.Fills v.registry
      (v.evaluateIn depth) path name (Ordered.get? members name) (Ordered.get? members name))
      (fun depth depth' name hle => n.fills_of_under _ path _ (v.evaluateIn_below depth depth' hle)
        v.registry name _ _) (Ordered.keys declared) h
    exact ⟨depth, n.applyProperties_eq_self v.registry _ path declared hdeclared members hnodup
      hdepth⟩

/-- `properties` looks at the members it declares. -/
theorem settlesKeyword_properties_congr
    (hdocuments : ∀ entry ∈ v.registry.documents, entry.2.WellFormed) (hn : v.registry.Holds n)
    (members members' : Ordered Json) (hnodup : (Ordered.keys members).Nodup)
    (hnodup' : (Ordered.keys members').Nodup)
    (hsame : ∀ name, n.declares name = true →
      Ordered.get? members' name = Ordered.get? members name)
    (h : v.SettlesKeyword .properties n path (.object members)) :
    v.SettlesKeyword .properties n path (.object members') := by
  by_cases hdeclared : ∃ declared, n.get? "properties" = some (.object declared)
  · obtain ⟨declared, hdeclared⟩ := hdeclared
    have hnames := v.registry.nodup_keys_of_get? hdocuments n hn "properties" declared hdeclared
    rw [v.settlesKeyword_properties_iff n path declared hdeclared hnames _ hnodup] at h
    rw [v.settlesKeyword_properties_iff n path declared hdeclared hnames _ hnodup']
    intro name hname
    rw [hsame name ((n.declares_iff declared hdeclared name).mpr hname)]
    exact h name hname
  · exact ⟨0, n.applyProperties_of_not_object v.registry _ path _ fun hc => hdeclared hc.2⟩

end Members

section Others

variable (evaluate : Evaluation) (n : Node) (path : String)

theorem evaluateKeyword_of_not_array (k : Keyword) (hk : k.judgesItems = true) (x : Json)
    (hx : ∀ xs, x ≠ .array xs) : v.evaluateKeyword evaluate k n path x = .ok x := by
  unfold evaluateKeyword
  cases k with
  | items =>
      cases x with
      | array xs => exact absurd rfl (hx xs)
      | _ => rfl
  | additionalItems =>
      exact n.applyAdditionalItems_of_not_array evaluate path x fun h => h.1.elim fun xs => hx xs
  | _ => exact absurd hk Bool.false_ne_true

theorem evaluateKeyword_of_not_object (k : Keyword) (hk : k.judgesMembers = true) (x : Json)
    (hx : ∀ members, x ≠ .object members) : v.evaluateKeyword evaluate k n path x = .ok x := by
  unfold evaluateKeyword
  cases k with
  | properties =>
      exact n.applyProperties_of_not_object v.registry evaluate path x fun h =>
        h.1.elim fun members => hx members
  | additionalProperties =>
      cases x with
      | object members => exact absurd rfl (hx members)
      | _ => rfl
  | _ => exact absurd hk Bool.false_ne_true

end Others

section Schemas

variable (hconvert : v.converts = false)
  (hdocuments : ∀ entry ∈ v.registry.documents, entry.2.WellFormed) (path : String)

/-- References do not matter. -/
theorem settles_congr (n t : Node) (x : Json) (h : v.registry.deref n = .ok t)
    (hsettles : v.Settles t path x) : v.Settles n path x := by
  obtain ⟨depth, hdepth⟩ := hsettles
  have hfollow : v.registry.follow n = v.registry.follow t := by
    rw [(v.registry.follow_eq_ok_iff n t).mpr h,
      (v.registry.follow_eq_ok_iff t t).mpr (v.registry.deref_of_deref n t h)]
  exact ⟨depth, (v.evaluateIn_congr n path x t hfollow depth).trans hdepth⟩

/-- A schema that is no object returns every instance or none. -/
theorem settles_of_leaf (n t : Node) (ht : v.registry.deref n = .ok t)
    (hleaf : ∀ members, t.value ≠ .object members) (x y z : Json) (depth : Nat)
    (h : v.evaluateIn depth n path x = .ok z) : v.Settles n path y := by
  rcases depth with _ | depth
  · cases h
  · refine ⟨1, ?_⟩
    unfold evaluateIn evaluateWith at h ⊢
    rw [(v.registry.follow_eq_ok_iff n t).mpr ht] at h ⊢
    simp only [bind, Except.bind] at h ⊢
    cases hvalue : t.value with
    | object members => exact absurd hvalue (hleaf members)
    | bool accepts => cases accepts with
        | true => rfl
        | false =>
            rw [hvalue] at h
            cases h
    | _ => rfl

/-- A branch of `allOf` that returns its instance is skipped or settles. -/
theorem settles_of_applyMember (n m : Node) (depth : Nat) (x : Json)
    (h : n.applyMember v.registry (v.evaluateIn depth) path x m = .ok x) :
    n.isExcluded v.registry m = .ok true
      ∨ (n.isExcluded v.registry m = .ok false ∧ v.Settles m path x) := by
  rcases (n.applyMember_eq_ok_iff v.registry _ path x m x).mp h with hskip | ⟨hkeep, hself⟩
  · exact Or.inl hskip.1
  · exact Or.inr ⟨hkeep, depth, hself⟩

include hconvert hdocuments

/-- A schema settles exactly if each of its keywords does. -/
theorem settles_iff_keywords (n t : Node) (ht : v.registry.deref n = .ok t)
    (hobject : ∃ members, t.value = .object members) (hholds : v.registry.Holds t) (x : Json)
    (hx : x.WellFormed) :
    v.Settles n path x
      ↔ ∀ k ∈ v.dialect.keywords, t.has k.name = true → v.SettlesKeyword k t path x := by
  constructor
  -- A row that gives its instance back does so at each of its keywords.
  · rintro ⟨depth, h⟩ k hk hhas
    rcases depth with _ | depth
    · cases h
    · rw [v.evaluateIn_succ n t ht hobject] at h
      exact ⟨depth, v.evaluateKeyword_eq_self hdocuments hconvert t hholds path depth _ x hx h k hk
        hhas⟩
  · intro h
    obtain ⟨depth, hdepth⟩ := exists_depth (fun depth (k : Keyword) =>
      v.evaluateKeyword (v.evaluateIn depth) k t path x = .ok x)
      (fun depth depth' k hle => v.evaluateKeyword_ok_of_le t path x k depth depth' hle x)
      (v.dialect.keywords.filter fun k : Keyword => t.has k.name) fun k hk =>
        h k (List.mem_filter.mp hk).1 (List.mem_filter.mp hk).2
    refine ⟨depth + 1, ?_⟩
    rw [v.evaluateIn_succ n t ht hobject]
    exact foldlM_eq_self _ x _ hdepth

/-- `allOf` settles exactly if each branch is skipped or settles. -/
theorem settlesKeyword_allOf_iff (n : Node) (hn : v.registry.Holds n) (x : Json)
    (hx : x.WellFormed) :
    v.SettlesKeyword .allOf n path x
      ↔ ∀ m ∈ n.branches "allOf", n.isExcluded v.registry m = .ok true
          ∨ (n.isExcluded v.registry m = .ok false ∧ v.Settles m path x) := by
  constructor
  -- If the last branch gives the instance back, so does each one, because nothing shrinks.
  · rintro ⟨depth, h⟩ m hm
    rcases v.applyMember_eq_self_or_lt hdocuments hconvert n path depth (n.branches "allOf")
      (fun m hm => v.registry.closed_holds.branches _ n m "allOf" hn hm) x x hx h with ⟨_, hall⟩ | hlt
    · exact v.settles_of_applyMember path n m depth x (hall m hm)
    · exact absurd hlt (Nat.lt_irrefl _)
  · intro h
    have hsome : ∀ m ∈ n.branches "allOf", ∃ depth,
        n.applyMember v.registry (v.evaluateIn depth) path x m = .ok x := by
      intro m hm
      rcases h m hm with hskip | ⟨hkeep, depth, hself⟩
      · exact ⟨0, (n.applyMember_eq_ok_iff v.registry _ path x m x).mpr (Or.inl ⟨hskip, rfl⟩)⟩
      · exact ⟨depth, (n.applyMember_eq_ok_iff v.registry _ path x m x).mpr (Or.inr ⟨hkeep, hself⟩)⟩
    obtain ⟨depth, hdepth⟩ := exists_depth _ (fun depth depth' m hle =>
      v.applyMember_ok_of_le n path x m depth depth' hle x) (n.branches "allOf") hsome
    exact ⟨depth, foldlM_eq_self _ x _ hdepth⟩

end Schemas

section Choices

variable (n : Node) (path : String) (y : Json) (good bad : Node → Bool)

/-- From some depth on, good branches return the instance and bad ones reject it. -/
theorem exists_depth_of_branches (branches : List Node)
    (hgood : ∀ m ∈ branches, good m = true → v.Settles m path y)
    (hbad : ∀ m ∈ branches, bad m = true → ∃ w, v.Rejects m path y w) :
    ∃ depth, ∀ m ∈ branches, (good m = true → v.evaluateIn depth m path y = .ok y)
      ∧ (bad m = true → ∃ w, v.evaluateIn depth m path y = .error (.violation w)) := by
  -- One depth at which the good ones return, one at which the bad ones reject, and the larger of them.
  obtain ⟨d, hd⟩ := exists_depth (fun depth m => good m = true → v.evaluateIn depth m path y = .ok y)
    (fun depth depth' m hle h hm => v.evaluateIn_ok_of_le m path y depth depth' hle y (h hm)) branches
    fun m hm => by
      by_cases hgoodm : good m = true
      · obtain ⟨depth, hdepth⟩ := hgood m hm hgoodm
        exact ⟨depth, fun _ => hdepth⟩
      · exact ⟨0, fun h => absurd h hgoodm⟩
  obtain ⟨d', hd'⟩ := exists_depth (fun depth m => bad m = true →
      ∃ w, v.evaluateIn depth m path y = .error (.violation w))
    (fun depth depth' m hle h hm => (h hm).imp fun w hw =>
      v.evaluateIn_violation_of_le m path y depth depth' hle w hw) branches
    fun m hm => by
      by_cases hbadm : bad m = true
      · obtain ⟨w, depth, hdepth⟩ := hbad m hm hbadm
        exact ⟨depth, fun _ => ⟨w, hdepth⟩⟩
      · exact ⟨0, fun h => absurd h hbadm⟩
  refine ⟨max d d', fun m hm => ⟨fun hgoodm => ?_, fun hbadm => ?_⟩⟩
  · exact v.evaluateIn_ok_of_le m path y d _ (Nat.le_max_left d d') y (hd m hm hgoodm)
  · obtain ⟨w, hw⟩ := hd' m hm hbadm
    exact ⟨w, v.evaluateIn_violation_of_le m path y d' _ (Nat.le_max_right d d') w hw⟩

theorem settlesKeyword_anyOf
    (hgood : ∀ m ∈ n.branches "anyOf", good m = true → v.Settles m path y)
    (hbad : ∀ m ∈ n.branches "anyOf", bad m = true → ∃ w, v.Rejects m path y w)
    (h : firstGood good bad (n.branches "anyOf") = true) : v.SettlesKeyword .anyOf n path y := by
  obtain ⟨depth, hdepth⟩ := v.exists_depth_of_branches path y good bad (n.branches "anyOf") hgood hbad
  refine ⟨depth, ?_⟩
  change n.applyAnyOf (v.evaluateIn depth) path y = .ok y
  unfold Node.applyAnyOf
  rw [Node.firstAccepted_of_firstGood (v.evaluateIn depth) path y good bad (n.branches "anyOf") hdepth h]
  rfl

theorem settlesKeyword_oneOf (hdialect : v.dialect = .jsonSchema)
    (hgood : ∀ m ∈ n.branches "oneOf", good m = true → v.Settles m path y)
    (hbad : ∀ m ∈ n.branches "oneOf", bad m = true → ∃ w, v.Rejects m path y w)
    (h : onlyGood good bad (n.branches "oneOf") = true) : v.SettlesKeyword .oneOf n path y := by
  obtain ⟨depth, hdepth⟩ := v.exists_depth_of_branches path y good bad (n.branches "oneOf") hgood hbad
  refine ⟨depth, ?_⟩
  unfold evaluateKeyword
  rw [hdialect]
  change n.applyOneOf (v.evaluateIn depth) path y = .ok y
  obtain ⟨verdicts, hverdicts, hvalues⟩ := Node.exists_verdicts_of_onlyGood (v.evaluateIn depth) path y
    good bad (n.branches "oneOf") hdepth h
  unfold Node.applyOneOf
  rw [hverdicts]
  dsimp only [bind, Except.bind]
  rw [hvalues]

/-- `not` settles where its schema rejects. -/
theorem settlesKeyword_not (h : ∀ m, n.child? ["not"] = some m → ∃ w, v.Rejects m path y w) :
    v.SettlesKeyword .not n path y := by
  rcases hchild : n.child? ["not"] with _ | m
  · refine ⟨0, ?_⟩
    change n.applyNot _ path y = .ok y
    unfold Node.applyNot
    rw [hchild]
  · obtain ⟨w, depth, hdepth⟩ := h m hchild
    refine ⟨depth, ?_⟩
    change n.applyNot _ path y = .ok y
    unfold Node.applyNot
    rw [hchild]
    dsimp only
    rw [hdepth]
    rfl

end Choices

end Validator

end OpenApi
