import OpenApi.Proofs.Evaluation.Trail

/-!
# What a Keyword Makes of What Is Inside

The four keywords on members, said in one way. Whatever is inside of the result is
what was there before, or what the subschema for that place has returned, or a default
where there was nothing. Nothing inside gets lost.

None of these keywords asks for depth by itself. So the depth suffices for the keyword
if it suffices for each subschema and the value it is for, as that was before the
keyword began: `properties` changes the members one after the other, but comes to each
of them only once.

One more keyword on a trail adds to what may become of a value, which is how an
evaluation stays on a trail from one keyword to the next.

## Main definitions

* `Visit.Becomes`: What a keyword makes of a value inside.
* `Visit.Makes`: What a keyword makes of its instance.

## Theorems

* `makes_of_evaluateKeyword`: What the keywords on members return.
* `evaluateKeyword_ne_depth`: The depth suffices for them.
* `grown_of_makes`: One more keyword on a trail.
-/

namespace OpenApi

namespace Visit

variable (r : Registry) (evaluate : Evaluation) (s : Visit)

/-- What a keyword on members makes of a value inside. -/
inductive Becomes (x : Json) (segment : Segment) : Json → Prop where
  /-- It stays what it was. -/
  | left (z : Json) : x.at? segment = some z → Becomes x segment z
  /-- It is what its schema returns. -/
  | evaluated (m : Node) (path : String) (w z : Json) :
      s.schemaAt? segment = some m → x.at? segment = some w → evaluate m path w = .ok z →
        Becomes x segment z
  /-- It was absent and is a default. -/
  | filled (members : Ordered Json) (name : String) (z : Json) :
      x = .object members → segment = .member name → Ordered.get? members name = none →
        s.Fills r name z → Becomes x segment z

/-- What a keyword on members makes of its instance. -/
structure Makes (x y : Json) : Prop where
  /-- Objects are made of objects alone. -/
  object : ∀ members, y = .object members → ∃ members', x = .object members'
  /-- Nothing inside gets lost. -/
  kept : ∀ segment, y.at? segment = none → x.at? segment = none
  /-- What is inside has become so. -/
  becomes : ∀ segment z, y.at? segment = some z → s.Becomes r evaluate x segment z

theorem makes_self (x : Json) : s.Makes r evaluate x x :=
  ⟨fun members hx => ⟨members, hx⟩, fun _ hx => hx, fun _ z hz => .left z hz⟩

theorem makes_array (items items' : List Json) (hlength : items'.length = items.length)
    (h : ∀ i z, items'[i]? = some z → s.Becomes r evaluate (.array items) (.item i) z) :
    s.Makes r evaluate (.array items) (.array items') where
  object members hmembers := nomatch hmembers
  kept segment hnone := by
    cases segment with
    | item i =>
        have hi := List.getElem?_eq_none_iff.mp (hnone : items'[i]? = none)
        exact List.getElem?_eq_none_iff.mpr (hlength ▸ hi)
    | member name => rfl
  becomes segment z hz := by
    cases segment with
    | item i => exact h i z hz
    | member name => exact nomatch hz

theorem makes_object (members members' : Ordered Json)
    (hkept : ∀ name, Ordered.get? members' name = none → Ordered.get? members name = none)
    (h : ∀ name z, Ordered.get? members' name = some z →
      s.Becomes r evaluate (.object members) (.member name) z) :
    s.Makes r evaluate (.object members) (.object members') where
  object _ _ := ⟨members, rfl⟩
  kept segment hnone := by
    cases segment with
    | item i => rfl
    | member name => exact hkept name hnone
  becomes segment z hz := by
    cases segment with
    | item i => exact nomatch hz
    | member name => exact h name z hz

/-- A value that is judged stays what it was or is what its schema returns. -/
theorem becomes_of_judge (schema? : Option Node) (path place : String) (x w z : Json)
    (segment : Segment) (hschema : ∀ m, schema? = some m → s.schemaAt? segment = some m)
    (hw : x.at? segment = some w) (h : Node.judge evaluate schema? path place w = .ok (.ok z)) :
    s.Becomes r evaluate x segment z := by
  rcases (Node.judge_eq_ok_iff evaluate path schema? place w z).mp h with ⟨_, rfl⟩ | ⟨m, hm, hz⟩
  · exact .left z hw
  · exact .evaluated m _ w z (hschema m hm) hw hz

end Visit

section Members

variable (r : Registry) (evaluate : Evaluation) (n : Node) (path : String)

theorem makes_of_applyItems (x y : Json) (h : n.applyItems evaluate path x = .ok y) :
    (Visit.mk .items n).Makes r evaluate x y := by
  cases x with
  | array items =>
      obtain ⟨items', hitems, rfl⟩ := (n.applyItems_eq_ok_iff evaluate path items y).mp h
      have hlength := hitems.length_eq
      rw [List.length_zipIdx] at hlength
      refine Visit.makes_array r evaluate _ items items' hlength.symm fun i z hz => ?_
      obtain ⟨w, hw, hjudge⟩ := exists_of_forall₂_zipIdx items items' hitems i z hz
      exact Visit.becomes_of_judge r evaluate _ _ path _ _ w z (.item i) (fun m hm => hm) hw hjudge
  | _ =>
      rw [← Except.ok.inj h]
      exact Visit.makes_self r evaluate _ _

theorem makes_of_applyAdditionalItems (x y : Json)
    (h : n.applyAdditionalItems evaluate path x = .ok y) :
    (Visit.mk .additionalItems n).Makes r evaluate x y := by
  by_cases harrays : (∃ items, x = .array items) ∧ ∃ tuple, n.get? "items" = some (.array tuple)
  · obtain ⟨⟨items, rfl⟩, tuple, htuple⟩ := harrays
    obtain ⟨items', hitems, rfl⟩ :=
      (n.applyAdditionalItems_eq_ok_iff evaluate path tuple items htuple y).mp h
    have hlength := hitems.length_eq
    rw [List.length_zipIdx] at hlength
    refine Visit.makes_array r evaluate _ items items' hlength.symm fun i z hz => ?_
    obtain ⟨w, hw, hjudge⟩ := exists_of_forall₂_zipIdx items items' hitems i z hz
    -- The items that the list covers are left to the other keyword.
    by_cases hi : i < tuple.length
    · rw [if_pos hi] at hjudge
      rw [← Except.ok.inj (Except.ok.inj hjudge)]
      exact .left w hw
    · rw [if_neg hi] at hjudge
      have hplain := ((n.judgeAdditional_eq_ok_iff evaluate path _ _ _ w z).mp hjudge).2
      refine Visit.becomes_of_judge r evaluate _ _ path _ _ w z (.item i) (fun m hm => ?_) hw hplain
      unfold Visit.schemaAt?
      rw [htuple]
      exact (if_neg hi).trans hm
  · rw [n.applyAdditionalItems_of_not_array evaluate path x harrays] at h
    rw [← Except.ok.inj h]
    exact Visit.makes_self r evaluate _ x

theorem makes_of_applyAdditionalProperties (x y : Json)
    (h : n.applyAdditionalProperties evaluate path x = .ok y) :
    (Visit.mk .additionalProperties n).Makes r evaluate x y := by
  cases x with
  | object members =>
      obtain ⟨members', hmembers, rfl⟩ :=
        (n.applyAdditionalProperties_eq_ok_iff evaluate path members y).mp h
      have hkeys : Ordered.keys members' = Ordered.keys members :=
        Json.keys_rewritten (R := fun _ _ => True) members members'
          (hmembers.imp fun _ _ hab => ⟨hab.1, trivial⟩)
      refine Visit.makes_object r evaluate _ members members' (fun name hname => ?_)
        fun name z hz => ?_
      · rw [Ordered.get?_eq_none_iff] at hname ⊢
        exact hkeys ▸ hname
      · obtain ⟨w, hw, _, hjudge⟩ :=
          exists_get?_of_forall₂ (fun _ _ hab => hab.1) members members' hmembers name z hz
        unfold Node.judgeUndeclared at hjudge
        -- A declared member is left alone here.
        by_cases hdeclares : n.declares name = true
        · rw [if_pos hdeclares] at hjudge
          have hsame : w = z := Except.ok.inj (Except.ok.inj hjudge)
          exact .left z (hsame ▸ hw)
        · rw [if_neg hdeclares] at hjudge
          have hplain := ((n.judgeAdditional_eq_ok_iff evaluate path _ _ _ w z).mp hjudge).2
          exact Visit.becomes_of_judge r evaluate _ _ path _ _ w z (.member name)
            (fun m hm => (if_neg hdeclares).trans hm) hw hplain
  | _ =>
      rw [← Except.ok.inj h]
      exact Visit.makes_self r evaluate _ _

theorem makes_of_applyProperties (hdocuments : ∀ entry ∈ r.documents, entry.2.WellFormed)
    (hn : r.Has n) (x y : Json) (hx : x.WellFormed)
    (h : n.applyProperties r evaluate path x = .ok y) :
    (Visit.mk .properties n).Makes r evaluate x y := by
  by_cases hobjects : (∃ members, x = .object members)
      ∧ ∃ declared, n.get? "properties" = some (.object declared)
  · obtain ⟨⟨members, rfl⟩, declared, hdeclared⟩ := hobjects
    have hnames := r.nodup_keys_of_get? hdocuments n (r.holds_of_has n hn) "properties" declared
      hdeclared
    obtain ⟨members', rfl, hfront, _, hfills⟩ := n.exists_of_applyProperties r evaluate path
      declared hdeclared hnames members ((Json.wellFormed_object_iff members).mp hx).1 y h
    have hschema : ∀ name m, n.child? ["properties", name] = some m →
        (Visit.mk .properties n).schemaAt? (.member name) = some m := by
      intro name m hm
      unfold Visit.schemaAt?
      rw [hdeclared]
      exact hm
    refine Visit.makes_object r evaluate _ members members' (fun name hname => ?_)
      fun name z hz => ?_
    · rw [Ordered.get?_eq_none_iff] at hname ⊢
      exact fun hmem => hname (hfront.subset hmem)
    · -- A declared member is evaluated if it was there, and a default if it is there now only.
      have hfill := hfills name
      unfold Node.Fills at hfill
      split at hfill
      · exact .left z (hfill.symm.trans hz)
      · rename_i schema w hchild hw
        obtain ⟨z', hz', hevaluate⟩ := hfill
        have hsame : z' = z := Option.some.inj (hz'.symm.trans hz)
        exact .evaluated schema _ w z (hschema name schema hchild) hw (hsame ▸ hevaluate)
      · rename_i schema hchild habsent
        rw [hz] at hfill
        exact .filled members name z rfl rfl habsent
          ⟨rfl, hn, schema, hschema name schema hchild, hfill⟩
  · rw [n.applyProperties_of_not_object r evaluate path x hobjects] at h
    rw [← Except.ok.inj h]
    exact Visit.makes_self r evaluate _ x

end Members

section Depth

variable (r : Registry) (evaluate : Evaluation) (path : String)

theorem judge_ne_depth (schema? : Option Node) (place : String) (w : Json)
    (h : ∀ m, schema? = some m → ∀ path, evaluate m path w ≠ .error .depth) :
    Node.judge evaluate schema? path place w ≠ .error .depth := by
  cases schema? with
  | none => exact nofun
  | some m =>
      exact ne_depth_of_promises _ _ (promises_verdict False _ _ (promises_self False _ (h m rfl _)))

theorem judgeAdditional_ne_depth (n : Node) (key : String) (kind : ViolationKind) (place : String)
    (w : Json) (h : ∀ m, n.child? [key] = some m → ∀ path, evaluate m path w ≠ .error .depth) :
    n.judgeAdditional evaluate key kind path place w ≠ .error .depth := by
  unfold Node.judgeAdditional
  split
  · exact nofun
  · exact judge_ne_depth evaluate path _ place w h

/-- A keyword that gathers verdicts needs no more depth than those. -/
theorem collect_ne_depth {α β : Type} (n : Node) (kind : ViolationKind)
    (step : α → Except Failure (Verdict β)) (wrap : List β → Json) (items : List α)
    (h : ∀ item ∈ items, step item ≠ .error .depth) :
    (do
      let verdicts ← items.mapM step
      let values ← n.gather path kind verdicts
      .ok (wrap values)) ≠ Except.error Failure.depth := by
  refine bind_ne_depth _ _ (mapM_ne_depth step items h) fun verdicts _ => ?_
  refine bind_ne_depth _ _ ?_ fun _ _ => nofun
  unfold Node.gather
  split
  · exact nofun
  · exact nofun

section Members

variable (n : Node) (x : Json)

theorem applyItems_ne_depth (h : ∀ segment m w, (Visit.mk .items n).schemaAt? segment = some m →
    x.at? segment = some w → ∀ path, evaluate m path w ≠ .error .depth) :
    n.applyItems evaluate path x ≠ .error .depth := by
  cases x with
  | array items =>
      refine collect_ne_depth path n .items _ Json.array items.zipIdx fun pair hpair => ?_
      refine judge_ne_depth evaluate path _ _ pair.1 fun m hm => ?_
      exact h (.item pair.2) m pair.1 hm (List.mem_zipIdx_iff_getElem?.mp hpair)
  | _ => exact nofun

theorem applyAdditionalItems_ne_depth
    (h : ∀ segment m w, (Visit.mk .additionalItems n).schemaAt? segment = some m →
      x.at? segment = some w → ∀ path, evaluate m path w ≠ .error .depth) :
    n.applyAdditionalItems evaluate path x ≠ .error .depth := by
  unfold Node.applyAdditionalItems
  split
  · rename_i tuple items htuple
    refine collect_ne_depth path n .additionalItems _ Json.array items.zipIdx fun pair hpair => ?_
    dsimp only
    by_cases hi : pair.2 < tuple.length
    · rw [if_pos hi]
      exact nofun
    · rw [if_neg hi]
      refine judgeAdditional_ne_depth evaluate path n _ _ _ pair.1 fun m hm => ?_
      refine h (.item pair.2) m pair.1 ?_ (List.mem_zipIdx_iff_getElem?.mp hpair)
      unfold Visit.schemaAt?
      rw [htuple]
      exact (if_neg hi).trans hm
  · exact nofun

theorem applyAdditionalProperties_ne_depth
    (hx : x.WellFormed) (h : ∀ segment m w,
      (Visit.mk .additionalProperties n).schemaAt? segment = some m →
        x.at? segment = some w → ∀ path, evaluate m path w ≠ .error .depth) :
    n.applyAdditionalProperties evaluate path x ≠ .error .depth := by
  cases x with
  | object members =>
      have hnodup := ((Json.wellFormed_object_iff members).mp hx).1
      refine collect_ne_depth path n .additionalProperties _ Json.object members
        fun (name, value) hentry => ?_
      dsimp only
      split
      · exact nofun
      · rename_i hdeclares
        refine bind_ne_depth _ _ ?_ fun _ _ => nofun
        refine judgeAdditional_ne_depth evaluate path n _ _ _ value fun m hm => ?_
        exact h (.member name) m value ((if_neg hdeclares).trans hm)
          ((Ordered.get?_eq_some_iff members hnodup name value).mpr hentry)
  | _ => exact nofun

theorem applyProperty_ne_depth (p : Node.Progress) (name : String)
    (h : ∀ m w, n.child? ["properties", name] = some m → Ordered.get? p.members name = some w →
      ∀ path, evaluate m path w ≠ .error .depth) :
    n.applyProperty r evaluate path p name ≠ .error .depth := by
  unfold Node.applyProperty
  split
  · exact nofun
  · rename_i schema hschema
    split
    · rename_i w hw
      refine bind_ne_depth _ _ ?_ fun verdict _ => ?_
      · exact judge_ne_depth evaluate path (some schema) name w fun m hm =>
          h m w (hm ▸ hschema) hw
      · cases verdict with
        | ok value => exact nofun
        | error w => exact nofun
    · refine bind_ne_depth _ _ ?_ fun default? _ => ?_
      · exact bind_ne_depth _ _ (follow_ne_depth r schema) fun _ _ => nofun
      · cases default? with
        | none => exact nofun
        | some value => exact nofun

/-- The loop over declared names comes to each member once, so it finds it as it was. -/
theorem foldlM_applyProperty_ne_depth (members : Ordered Json) (names : List String)
    (h : ∀ name ∈ names, ∀ m w, n.child? ["properties", name] = some m →
      Ordered.get? members name = some w → ∀ path, evaluate m path w ≠ .error .depth) :
    ∀ p : Node.Progress, names.Nodup → (Ordered.keys p.members).Nodup →
      (∀ name ∈ names, Ordered.get? p.members name = Ordered.get? members name) →
        names.foldlM (n.applyProperty r evaluate path) p ≠ .error .depth := by
  induction names with
  | nil => exact fun p _ _ _ => nofun
  | cons name rest ih =>
      intro p hnames hnodup hsame
      obtain ⟨hname, hrest⟩ := List.nodup_cons.mp hnames
      rw [List.foldlM_cons]
      refine bind_ne_depth _ _ ?_ fun next hnext => ?_
      · refine applyProperty_ne_depth r evaluate path n p name fun m w hm hw => ?_
        rw [hsame name List.mem_cons_self] at hw
        exact h name List.mem_cons_self m w hm hw
      · -- The names are distinct, so what the others come to is left alone by this step.
        obtain ⟨hnodup', hothers⟩ := n.others_of_visits r evaluate path p next name hnodup
          (n.visits_of_applyProperty r evaluate path p next name hnext)
        refine ih (fun other hother => h other (List.mem_cons_of_mem name hother)) next hrest hnodup'
          fun other hother => ?_
        rw [hothers other fun heq => hname (heq ▸ hother)]
        exact hsame other (List.mem_cons_of_mem name hother)

theorem applyProperties_ne_depth (hdocuments : ∀ entry ∈ r.documents, entry.2.WellFormed)
    (hn : r.Has n) (hx : x.WellFormed)
    (h : ∀ segment m w, (Visit.mk .properties n).schemaAt? segment = some m →
      x.at? segment = some w → ∀ path, evaluate m path w ≠ .error .depth) :
    n.applyProperties r evaluate path x ≠ .error .depth := by
  unfold Node.applyProperties
  split
  · rename_i members declared hdeclared
    have hnames := r.nodup_keys_of_get? hdocuments n (r.holds_of_has n hn) "properties" declared
      hdeclared
    refine bind_ne_depth _ _ ?_ fun p _ => ?_
    · refine foldlM_applyProperty_ne_depth r evaluate path n members _ (fun name _ m w hm hw => ?_) _
        hnames ((Json.wellFormed_object_iff members).mp hx).1 (fun _ _ => rfl)
      refine h (.member name) m w ?_ hw
      unfold Visit.schemaAt?
      rw [hdeclared]
      exact hm
    · split
      · exact nofun
      · exact nofun
  · exact nofun

end Members

end Depth

section Keywords

variable (v : Validator) (evaluate : Evaluation)
  (hdocuments : ∀ entry ∈ v.registry.documents, entry.2.WellFormed) (s : Visit)
  (hs : s.keyword.judgesItems = true ∨ s.keyword.judgesMembers = true)
  (hn : v.registry.Has s.schema) (path : String) (x : Json) (hx : x.WellFormed)

include hdocuments hs hn hx

theorem makes_of_evaluateKeyword (y : Json)
    (h : v.evaluateKeyword evaluate s.keyword s.schema path x = .ok y) :
    s.Makes v.registry evaluate x y := by
  rcases s with ⟨k, n⟩
  cases k with
  | items => exact makes_of_applyItems v.registry evaluate n path x y h
  | additionalItems => exact makes_of_applyAdditionalItems v.registry evaluate n path x y h
  | properties => exact makes_of_applyProperties v.registry evaluate n path hdocuments hn x y hx h
  | additionalProperties =>
      exact makes_of_applyAdditionalProperties v.registry evaluate n path x y h
  | _ =>
      rcases hs with hs | hs
      · exact nomatch hs
      · exact nomatch hs

/-- The keywords on members need no more depth than their subschemas. -/
theorem evaluateKeyword_ne_depth
    (h : ∀ segment m w, s.schemaAt? segment = some m → x.at? segment = some w →
      ∀ path, evaluate m path w ≠ .error .depth) :
    v.evaluateKeyword evaluate s.keyword s.schema path x ≠ .error .depth := by
  rcases s with ⟨k, n⟩
  cases k with
  | items => exact applyItems_ne_depth evaluate path n x h
  | additionalItems => exact applyAdditionalItems_ne_depth evaluate path n x h
  | properties =>
      exact applyProperties_ne_depth v.registry evaluate path n x hdocuments hn hx h
  | additionalProperties => exact applyAdditionalProperties_ne_depth evaluate path n x hx h
  | _ =>
      rcases hs with hs | hs
      · exact nomatch hs
      · exact nomatch hs

end Keywords

/-- A keyword comes behind those that have been evaluated, and so do those that its
    subschemas lead to one step down. -/
theorem grown_of_makes (r : Registry) (evaluate : Evaluation) (visits : List Visit) (s : Visit)
    (x y z : Json) (hgrown : Grown r visits x y) (hmakes : s.Makes r evaluate y z)
    (hinside : ∀ count segment inner origin m path w w', Origin r visits x count segment inner origin →
      s.schemaAt? segment = some m → y.at? segment = some w → Grown r inner origin w →
        evaluate m path w = .ok w' →
          ∃ more, Passes r [.schema m] more ∧ Grown r (inner ++ more) origin w') :
    Grown r (visits ++ [s]) x z := by
  obtain ⟨hobject, hkept, hat⟩ := exists_of_grown r visits x y hgrown
  refine grown_of_at? r (visits ++ [s]) x z (fun members hz => ?_)
    (fun segment hz => hkept segment (hmakes.kept segment hz)) (fun segment w' hw' => ?_)
  · obtain ⟨members', hy⟩ := hmakes.object members hz
    exact hobject members' hy
  · -- Each value inside keeps its origin, and gets a longer trail if its schema is evaluated.
    cases hmakes.becomes segment w' hw' with
    | left _ hw =>
        obtain ⟨count, inner, origin, horigin, hgrown'⟩ := hat segment w' hw
        have hlonger := origin_append r visits [s] inner [] x origin count segment horigin
          (passes_nil r _)
        rw [List.append_nil] at hlonger
        exact ⟨count, inner, origin, hlonger, hgrown'⟩
    | evaluated m path w _ hm hw hevaluate =>
        obtain ⟨count, inner, origin, horigin, hgrown'⟩ := hat segment w hw
        obtain ⟨more, hmore, hgrown''⟩ :=
          hinside count segment inner origin m path w w' horigin hm hw hgrown' hevaluate
        rw [← tasksBelow_singleton segment s m hm] at hmore
        exact ⟨count, inner ++ more, origin,
          origin_append r visits [s] inner more x origin count segment horigin hmore, hgrown''⟩
    | filled members name _ hy hsegment habsent hfills =>
        -- What is absent now was absent at first.
        obtain ⟨members', hx⟩ := hobject members hy
        have habsent' := hkept (.member name) (hy ▸ habsent)
        rw [hx] at habsent'
        rw [hsegment]
        exact ⟨1, [], w', .filled members' name visits [] s [] w' hx habsent' rfl hfills
          (passes_nil r _), .same [] w'⟩

end OpenApi
