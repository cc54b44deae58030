import Mathlib.Data.Set.Card
import Mathlib.Logic.Relation
import OpenApi.Proofs.Evaluation.Reach
import OpenApi.Proofs.Registry.Places

/-!
# Where an Evaluation Stays at Its Instance

Going down in an instance ends after finitely many steps. What can go on forever
is the other kind of step, from a schema to another one for the same instance:
references are followed, and then comes a branch of a combinator or the schema a
discriminator selects. These steps are the edges of a graph on the nodes of a
registry. The selections depend on the instance, so there is a graph for every
instance.

An exclusion takes an edge away, and it belongs to the vertex: the same place
with another exclusion is another vertex. There are still finitely many of them,
since an exclusion is the scope of some node. So where a vertex leads to no cycle
every path from it is finite, and the number of nodes that can be reached goes
down with every edge.

The schemas a schema is written with make a simpler graph, which is the same for
all instances and knows neither discriminators nor exclusions. If that one has no
cycle, a cycle has to pass through a selection. So what is left to ask is whether
an instance leads from a schema that it selects back to the one that selects, and
that only of the schemas on the way.

## Main definitions

* `Node.parts`: The schemas a schema is written with.
* `Node.Leads`: The edges.
* `Node.rank`: How many vertices can be reached.
* `Node.Acyclic`: A vertex leads to no cycle.
* `Node.ComesBack`: A selected schema leads back to where it was selected.
* `Registry.Vertex`: The vertices.
* `Registry.Founded`: No schema is written with itself.

## Theorems

* `applies_cases`: A step goes down, or to a part of the schema, or is a selection.
* `vertex_of_leads`: Edges lead from vertices to vertices.
* `finite_vertices`: There are finitely many vertices.
* `rank_lt`: The rank goes down along every edge.
* `rank_le`: The rank is bounded.
* `founded_of_lt`: Numbers that go down rule out cycles of the simpler graph.
* `acyclic_iff`: Cycles come from selections.
-/

namespace OpenApi

namespace Node

/-- The schema that a reference leads to in one hop. -/
def referred? (r : Registry) (n : Node) : Option Node :=
  match n.get? "$ref" with
  | some (.string text) => r.resolve? text n.base
  | _ => none

/-- The schemas a schema is written with: the target of its reference, its
    branches, and what it negates. -/
def parts (r : Registry) (n : Node) : List Node :=
  (n.referred? r).toList ++ n.branches "allOf" ++ n.branches "anyOf" ++ n.branches "oneOf"
    ++ (n.child? ["not"]).toList

variable (r : Registry)

theorem bare_eq_self (n : Node) (h : n.exclusion = none) : n.bare = n := by
  cases n with
  | mk value document pointer base exclusion =>
      rw [show exclusion = none from h]
      rfl

theorem exclusion_of_branches (n m : Node) (key : String) (h : m ∈ n.branches key) :
    m.exclusion = none := by
  rcases canonical_branch n m key h with ⟨i, _, hchild⟩
  exact exclusion_of_child? _ n m hchild

theorem mem_parts_iff (n m : Node) :
    m ∈ n.parts r ↔ n.referred? r = some m ∨
      (∃ key, (key = "allOf" ∨ key = "anyOf" ∨ key = "oneOf") ∧ m ∈ n.branches key) ∨
        n.child? ["not"] = some m := by
  unfold parts
  simp only [List.mem_append, Option.mem_toList, or_and_right, exists_or,
    exists_eq_left, or_assoc]

/-- The schemas a schema is written with are without exclusions, and the registry
    has them. -/
theorem found_of_parts (n m : Node) (hn : r.Has n) (h : m ∈ n.parts r) :
    r.nodeAt? m.place = some m := by
  have hfound : r.Has m → m.exclusion = none → r.nodeAt? m.place = some m := by
    intro hhas hnone
    rw [Registry.Has, bare_eq_self m hnone] at hhas
    exact hhas
  rcases (mem_parts_iff r n m).mp h with hreferred | ⟨key, _, hbranch⟩ | hchild
  · unfold referred? at hreferred
    split at hreferred
    · rcases Option.bind_eq_some_iff.mp hreferred with ⟨uri, _, hnode⟩
      rcases Option.bind_eq_some_iff.mp hnode with ⟨place, _, hplace⟩
      rw [(r.place_of_found place m hplace).1]
      exact hplace
    · exact absurd hreferred (by simp only [reduceCtorEq, not_false_eq_true])
  · exact hfound (r.closed_has.branches r n m key hn hbranch) (exclusion_of_branches n m key hbranch)
  · exact hfound (r.closed_has.key r n m "not" rfl hn hchild) (exclusion_of_child? _ n m hchild)

/-- References lead along parts, and the exclusion comes along. -/
theorem parts_of_derefWithin (hops : Nat) :
    ∀ n t : Node, r.derefWithin hops n = .ok t →
      Relation.ReflTransGen (fun n m => m ∈ parts r n) n.bare t.bare ∧ t.exclusion = n.exclusion := by
  induction hops with
  | zero => exact fun n t h => absurd h (by simp only [Registry.derefWithin, reduceCtorEq,
      not_false_eq_true])
  | succ hops ih =>
      intro n t h
      unfold Registry.derefWithin at h
      split at h
      · rw [Except.ok.inj h]
        exact ⟨.refl, rfl⟩
      · rename_i text htext
        split at h
        · rename_i next hnext
          rcases Option.bind_eq_some_iff.mp hnext with ⟨uri, _, hfound⟩
          rcases Option.bind_eq_some_iff.mp hfound with ⟨place, _, hnode⟩
          have htext' : n.bare.get? "$ref" = some (.string text) := htext
          have hreferred : n.bare.referred? r = some next.bare := by
            unfold referred?
            rw [htext']
            exact hnext.trans (congrArg some (r.place_of_found place next hnode).2.symm)
          obtain ⟨hpath, hexclusion⟩ := ih _ t h
          exact ⟨.head ((mem_parts_iff r n.bare _).mpr (Or.inl hreferred)) hpath, hexclusion⟩
        · exact absurd h (by simp only [reduceCtorEq, not_false_eq_true])
      · exact absurd h (by simp only [reduceCtorEq, not_false_eq_true])

theorem parts_of_follow (n t : Node) (h : r.follow n = .ok t) :
    Relation.ReflTransGen (fun n m => m ∈ parts r n) n.bare t.bare ∧ t.exclusion = n.exclusion :=
  parts_of_derefWithin r Registry.maxHops n t ((r.follow_eq_ok_iff n t).mp h)

/-- Whatever a schema applies gets less of the instance, or is a schema that it is
    written with, or one that it selects. -/
theorem applies_cases (n m : Node) (x y : Json) (h : n.Applies r x m y) :
    y.height < x.height ∨
      y = x ∧ (m.bare ∈ n.bare.parts r ∨ ∃ t, n.Selects r x t ∧ m = t.excluding n.scope) := by
  have hpart : ∀ key, (key = "allOf" ∨ key = "anyOf" ∨ key = "oneOf") → m ∈ n.branches key →
      m.bare ∈ n.bare.parts r := by
    intro key hkey hbranch
    rw [bare_eq_self m (exclusion_of_branches n m key hbranch)]
    exact (mem_parts_iff r n.bare m).mpr (Or.inr (Or.inl ⟨key, hkey, hbranch⟩))
  cases h with
  | item items i _ _ hitem _ =>
      exact Or.inl (Json.height_item_lt items y (List.mem_of_getElem? hitem))
  | additionalItem items _ i _ _ _ _ hitem _ =>
      exact Or.inl (Json.height_item_lt items y (List.mem_of_getElem? hitem))
  | property members name _ _ hmember _ _ =>
      exact Or.inl (Json.height_member_lt members (name, y) hmember)
  | additionalProperty members name _ _ hmember _ _ =>
      exact Or.inl (Json.height_member_lt members (name, y) hmember)
  | member _ _ hbranch _ => exact Or.inr ⟨rfl, Or.inl (hpart "allOf" (Or.inl rfl) hbranch)⟩
  | choice key _ _ hkey hbranch => exact Or.inr ⟨rfl, Or.inl (hpart key (Or.inr hkey) hbranch)⟩
  | negation _ _ hchild =>
      refine Or.inr ⟨rfl, Or.inl ?_⟩
      rw [bare_eq_self m (exclusion_of_child? _ n m hchild)]
      exact (mem_parts_iff r n.bare m).mpr (Or.inr (Or.inr hchild))
  | selection _ t hselects => exact Or.inr ⟨rfl, Or.inr ⟨t, hselects, rfl⟩⟩

/-- Evaluating the schema at a node goes on with the schema at another node, for
    the same instance: references are followed first, and what is there applies it. -/
def Leads (x : Json) (n m : Node) : Prop := ∃ t, r.follow n = .ok t ∧ t.Applies r x m x

/-- An edge that is no selection is a path of the simpler graph. -/
theorem parts_of_leads (x : Json) (n m : Node) (h : Leads r x n m) :
    Relation.TransGen (fun n m => m ∈ parts r n) n.bare m.bare ∨
      ∃ t k, r.follow n = .ok t ∧ t.Selects r x k ∧ m = k.excluding t.scope := by
  obtain ⟨t, hfollow, happlies⟩ := h
  rcases applies_cases r t m x x happlies with hlower | ⟨_, hpart | ⟨k, hselects, hm⟩⟩
  · exact absurd hlower (Nat.lt_irrefl _)
  · exact Or.inl (.tail' (parts_of_follow r n t hfollow).1 hpart)
  · exact Or.inr ⟨t, k, hfollow, hselects, hm⟩

/-- How many vertices can be reached from a node. -/
noncomputable def rank (x : Json) (n : Node) : Nat :=
  {m : Node | Relation.TransGen (Leads r x) n m}.ncard

/-- A node leads to no node that leads back to itself. -/
def Acyclic (x : Json) (n : Node) : Prop :=
  ∀ m, Relation.ReflTransGen (Leads r x) n m → ¬ Relation.TransGen (Leads r x) m m

/-- The schema that a discriminator selects for an instance leads back to the node
    with the discriminator. -/
def ComesBack (x : Json) (n : Node) : Prop :=
  ∃ t m, r.follow n = .ok t ∧ t.Selects r x m ∧
    Relation.ReflTransGen (Leads r x) (m.excluding t.scope) n

end Node

namespace Registry

variable (r : Registry) (x : Json)

/-- A node of the registry that excludes nothing or another node. -/
def Vertex (n : Node) : Prop :=
  r.Has n ∧ (n.exclusion = none ∨ ∃ m, r.Has m ∧ n.exclusion = some m.scope)

theorem vertex_of_follow (n t : Node) (hn : r.Vertex n) (h : r.follow n = .ok t) : r.Vertex t := by
  refine ⟨r.closed_has.follow r n t hn.1 h, ?_⟩
  rw [(Node.parts_of_follow r n t h).2]
  exact hn.2

theorem vertex_of_applies (n m : Node) (y : Json) (hn : r.Vertex n) (h : n.Applies r x m y) :
    r.Vertex m := by
  refine ⟨r.closed_has.applies r n m x y hn.1 h, ?_⟩
  cases h with
  | item items i _ _ _ hschema =>
      rcases Node.canonical_itemSchema? n m i hschema with ⟨segments, _, hchild⟩
      exact Or.inl (Node.exclusion_of_child? segments n m hchild)
  | additionalItem items _ i _ _ _ _ _ hchild => exact Or.inl (Node.exclusion_of_child? _ n m hchild)
  | property members name _ _ _ _ hchild => exact Or.inl (Node.exclusion_of_child? _ n m hchild)
  | additionalProperty members name _ _ _ _ hchild =>
      exact Or.inl (Node.exclusion_of_child? _ n m hchild)
  | member _ _ hbranch _ => exact Or.inl (Node.exclusion_of_branches n m _ hbranch)
  | choice key _ _ _ hbranch => exact Or.inl (Node.exclusion_of_branches n m key hbranch)
  | negation _ _ hchild => exact Or.inl (Node.exclusion_of_child? _ n m hchild)
  | selection _ t _ => exact Or.inr ⟨n, hn.1, rfl⟩

theorem vertex_of_leads (n m : Node) (hn : r.Vertex n) (h : n.Leads r x m) : r.Vertex m := by
  obtain ⟨t, hfollow, happlies⟩ := h
  exact r.vertex_of_applies x t m x (r.vertex_of_follow n t hn hfollow) happlies

theorem vertex_of_reflTransGen (n m : Node) (hn : r.Vertex n)
    (h : Relation.ReflTransGen (Node.Leads r x) n m) : r.Vertex m := by
  induction h with
  | refl => exact hn
  | tail _ hedge ih => exact r.vertex_of_leads x _ _ ih hedge

/-- All that an evaluation comes to are vertices. -/
theorem vertex_of_reaches (n m : Node) (y : Json) (hn : r.Vertex n) (h : r.Reaches n x m y) :
    r.Vertex m := by
  induction h with
  | start => exact hn
  | step k t m y z _ hfollow happlies ih =>
      exact r.vertex_of_applies y t m z (r.vertex_of_follow k t ih hfollow) happlies

/-- Along edges an evaluation comes to others with the same part of the instance. -/
theorem reaches_of_reflTransGen (n m k : Node) (y : Json) (hm : r.Reaches n x m y)
    (h : Relation.ReflTransGen (Node.Leads r y) m k) : r.Reaches n x k y := by
  induction h with
  | refl => exact hm
  | @tail k' k _ hedge ih =>
      obtain ⟨t, hfollow, happlies⟩ := hedge
      exact .step k' t k y y ih hfollow happlies

/-- All vertices. -/
def vertices : List Node :=
  r.nodes.flatMap fun n =>
    (none :: r.nodes.map fun m => some m.scope).map fun e => { n with exclusion := e }

theorem mem_vertices_of_vertex (n : Node) (h : r.Vertex n) : n ∈ r.vertices := by
  rcases h with ⟨hn, hexclusion⟩
  refine List.mem_flatMap.mpr ⟨n.bare, r.mem_nodes_of_has n hn, ?_⟩
  refine List.mem_map.mpr ⟨n.exclusion, ?_, rfl⟩
  rcases hexclusion with h | ⟨m, hm, h⟩
  · rw [h]
    exact List.mem_cons_self
  · rw [h]
    exact List.mem_cons_of_mem _ (List.mem_map.mpr ⟨m.bare, r.mem_nodes_of_has m hm, rfl⟩)

theorem finite_vertices : {n : Node | r.Vertex n}.Finite :=
  (List.finite_toSet r.vertices).subset r.mem_vertices_of_vertex

/-- How many vertices there are. -/
noncomputable def size : Nat := {n : Node | r.Vertex n}.ncard

theorem rank_le (n : Node) (hn : r.Vertex n) : n.rank r x ≤ r.size :=
  Set.ncard_le_ncard (fun m hm => r.vertex_of_reflTransGen x n m hn hm.to_reflTransGen)
    r.finite_vertices

/-- What can be reached from the end of an edge can be reached from its start,
    and the end itself can only be reached from the start. -/
theorem rank_lt (n m : Node) (hn : r.Vertex n) (hacyclic : n.Acyclic r x) (h : n.Leads r x m) :
    m.rank r x < n.rank r x := by
  have hfinite : {k : Node | Relation.TransGen (Node.Leads r x) n k}.Finite :=
    r.finite_vertices.subset fun k hk => r.vertex_of_reflTransGen x n k hn hk.to_reflTransGen
  refine Set.ncard_lt_ncard ⟨fun k hk => .head h hk, fun hsub => ?_⟩ hfinite
  exact hacyclic m (.single h) (hsub (Relation.TransGen.single h))

/-- No schema is written with itself, directly or through others. -/
def Founded : Prop :=
  ∀ place n, r.nodeAt? place = some n → ¬ Relation.TransGen (fun n m => m ∈ Node.parts r n) n n

/-- It is enough to number the nodes such that the numbers go down. -/
theorem founded_of_lt (number : Node → Nat)
    (h : ∀ n ∈ r.nodes, ∀ m ∈ n.parts r, number m < number n) : r.Founded := by
  intro place n hn hcycle
  have hpath : ∀ m, Relation.TransGen (fun n m => m ∈ Node.parts r n) n m →
      r.nodeAt? m.place = some m ∧ number m < number n := by
    have hmem : ∀ k, r.nodeAt? k.place = some k → k ∈ r.nodes := by
      intro k hk
      rw [← (r.place_of_found k.place k hk).2]
      exact r.mem_nodes_of_has k (r.has_of_found k.place k hk)
    rw [← (r.place_of_found place n hn).1] at hn
    intro m hm
    induction hm with
    | single hm =>
        exact ⟨Node.found_of_parts r n _ (r.has_of_found _ n hn) hm, h n (hmem n hn) _ hm⟩
    | @tail k m _ hm ih =>
        exact ⟨Node.found_of_parts r k m (r.has_of_found _ k ih.1) hm,
          (h k (hmem k ih.1) m hm).trans ih.2⟩
  exact Nat.lt_irrefl _ (hpath n hcycle).2

/-- A path without selections is a path of the simpler graph. -/
theorem parts_or_selects_of_transGen (n m : Node) (h : Relation.TransGen (Node.Leads r x) n m) :
    Relation.TransGen (fun n m => m ∈ Node.parts r n) n.bare m.bare ∨
      ∃ s t k, Relation.ReflTransGen (Node.Leads r x) n s ∧ r.follow s = .ok t ∧ t.Selects r x k ∧
        Relation.ReflTransGen (Node.Leads r x) (k.excluding t.scope) m := by
  induction h with
  | single h =>
      rcases Node.parts_of_leads r x _ _ h with hpart | ⟨t, k, hfollow, hselects, rfl⟩
      · exact Or.inl hpart
      · exact Or.inr ⟨n, t, k, .refl, hfollow, hselects, .refl⟩
  | @tail s m hpath h ih =>
      rcases ih with hparts | ⟨s', t, k, hs, hfollow, hselects, hk⟩
      · rcases Node.parts_of_leads r x s m h with hpart | ⟨t, k, hfollow, hselects, rfl⟩
        · exact Or.inl (hparts.trans hpart)
        · exact Or.inr ⟨s, t, k, hpath.to_reflTransGen, hfollow, hselects, .refl⟩
      · exact Or.inr ⟨s', t, k, hs, hfollow, hselects, hk.tail h⟩

/-- Where no schema is written with itself, the only cycles that a vertex leads to are
    those that a selection closes. -/
theorem acyclic_iff (hfounded : r.Founded) (n : Node) (hn : r.Vertex n) :
    n.Acyclic r x ↔
      ∀ m, Relation.ReflTransGen (Node.Leads r x) n m → ¬ m.ComesBack r x := by
  constructor
  · rintro hacyclic m hm ⟨t, k, hfollow, hselects, hback⟩
    exact hacyclic m hm (.head' ⟨t, hfollow, .selection x k hselects⟩ hback)
  · intro hback m hm hcycle
    rcases parts_or_selects_of_transGen r x m m hcycle with
      hparts | ⟨s, t, k, hs, hfollow, hselects, hk⟩
    · exact hfounded m.place m.bare (r.vertex_of_reflTransGen x n m hn hm).1 hparts
    · -- The cycle is entered at the selection instead.
      exact hback s (hm.trans hs) ⟨t, k, hfollow, hselects, hk.trans hs⟩

end Registry

end OpenApi
