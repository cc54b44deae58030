import OpenApi.Proofs.Evaluation.Acceptance
import OpenApi.Proofs.Evaluation.Growth

/-!
# The Size of Instances

Without conversions an evaluation either returns its instance or one that is
larger, because all it does is to add members. So no step can undo what another
has done, and an evaluation that returns its instance in the end has returned it
after every keyword and every branch of `allOf`.

The size is the number of values inside an instance. It would not do to count
members at the top, since most of them are added further down.

## Main definitions

* `Json.Enlarges`: The second value is the first one or larger.
* `Json.Becomes`: All that is known of what an evaluation makes of an instance.

## Theorems

* `rewriting_enlarges`, `enlarges_of_filled`: Enlarging is a rewriting that may add
  members.
* `evaluateKeyword_eq_self`: A row of keywords that returns its instance.
* `applyMember_eq_self_or_lt`: Branches of `allOf` that return their instance.
* `becomes_of_evaluateIn`, `becomes_of_evaluateKeywords`: What becomes of an
  instance.
-/

namespace OpenApi

section Sequences

variable {α β ε : Type}

theorem eq_or_lt_trans (size : α → Nat) (x y z : α) (hxy : x = y ∨ size x < size y)
    (hyz : y = z ∨ size y < size z) : x = z ∨ size x < size z := by
  rcases hxy with rfl | hlt
  · exact hyz
  · rcases hyz with rfl | hlt'
    · exact Or.inr hlt
    · exact Or.inr (Nat.lt_trans hlt hlt')

/-- Lists whose items are the same or have more inside have the same or more inside. -/
theorem eq_or_lt_flatMap (inside : α → List β) (xs ys : List α)
    (h : List.Forall₂ (fun x y => x = y ∨ (inside x).length < (inside y).length) xs ys) :
    xs = ys ∨ (xs.flatMap inside).length < (ys.flatMap inside).length := by
  induction h with
  | nil => exact Or.inl rfl
  | @cons x y xs ys hxy _ ih =>
      simp only [List.flatMap_cons, List.length_append]
      rcases hxy with rfl | hlt
      · rcases ih with rfl | hlt
        · exact Or.inl rfl
        · exact Or.inr (Nat.add_lt_add_left hlt _)
      · rcases ih with rfl | hlt'
        · exact Or.inr (Nat.add_lt_add_right hlt _)
        · exact Or.inr (Nat.add_lt_add hlt hlt')

/-- A loop whose steps leave the state as it is or make it larger ends with a larger
    state, or none of its steps did anything. -/
theorem foldlM_eq_self_or_lt (size : β → Nat) (P : β → Prop) (step : β → α → Except ε β)
    (items : List α)
    (h : ∀ item ∈ items, ∀ state next, P state → step state item = .ok next →
      P next ∧ (state = next ∨ size state < size next)) :
    ∀ state last, P state → items.foldlM step state = .ok last →
      (state = last ∧ ∀ item ∈ items, step state item = .ok state) ∨ size state < size last := by
  induction items with
  | nil =>
      intro state last _ hlast
      exact Or.inl ⟨Except.ok.inj hlast, fun item hitem => absurd hitem List.not_mem_nil⟩
  | cons first rest ih =>
      intro state last hstate hlast
      rw [List.foldlM_cons] at hlast
      obtain ⟨next, hnext, htail⟩ := (bind_eq_ok_iff _ _ last).mp hlast
      obtain ⟨hgood, hfirst⟩ := h first List.mem_cons_self state next hstate hnext
      have hrest := ih (fun item hitem => h item (List.mem_cons_of_mem first hitem)) next last hgood
        htail
      -- Once the state has become larger it stays larger than it was.
      rcases hfirst with rfl | hlt
      · rcases hrest with ⟨rfl, hall⟩ | hlt
        · refine Or.inl ⟨rfl, fun item hitem => ?_⟩
          rcases List.mem_cons.mp hitem with rfl | hitem
          · exact hnext
          · exact hall item hitem
        · exact Or.inr hlt
      · rcases hrest with ⟨rfl, _⟩ | hlt'
        · exact Or.inr hlt
        · exact Or.inr (Nat.lt_trans hlt hlt')

/-- Members under the same keys are paired with each other. -/
theorem forall₂_of_keys {R : α → α → Prop} (members : Ordered α) :
    ∀ members' : Ordered α, Ordered.keys members' = Ordered.keys members →
      (∀ a ∈ members, ∀ b ∈ members', a.1 = b.1 → R a.2 b.2) →
        List.Forall₂ (fun a b => a.1 = b.1 ∧ R a.2 b.2) members members' := by
  induction members with
  | nil =>
      intro members' hkeys _
      rw [List.map_eq_nil_iff.mp hkeys]
      exact .nil
  | cons a rest ih =>
      intro members' hkeys hR
      cases members' with
      | nil => cases hkeys
      | cons b rest' =>
          obtain ⟨hkey, htail⟩ := List.cons.inj hkeys
          refine .cons ⟨hkey.symm, hR a List.mem_cons_self b List.mem_cons_self hkey.symm⟩ ?_
          exact ih rest' htail fun a' ha' b' hb' =>
            hR a' (List.mem_cons_of_mem a ha') b' (List.mem_cons_of_mem b hb')

end Sequences

namespace Json

/-- The second value is the first one or has more values inside. -/
def Enlarges (x y : Json) : Prop :=
  x.WellFormed → y.WellFormed ∧ (x = y ∨ x.parts.length < y.parts.length)

theorem itemParts_eq_flatMap (items : List Json) : itemParts items = items.flatMap parts := by
  induction items with
  | nil => rfl
  | cons x rest ih => rw [itemParts, ih, List.flatMap_cons]

theorem memberParts_eq_flatMap (members : Ordered Json) :
    memberParts members = members.flatMap fun entry => entry.2.parts := by
  induction members with
  | nil => rfl
  | cons entry rest ih => rw [memberParts, ih, List.flatMap_cons]

theorem eq_or_lt_of_members (members members' : Ordered Json)
    (h : List.Forall₂ (fun a b => a.1 = b.1 ∧ (a.2 = b.2 ∨ a.2.parts.length < b.2.parts.length))
      members members') :
    members = members' ∨ (memberParts members).length < (memberParts members').length := by
  rw [memberParts_eq_flatMap, memberParts_eq_flatMap]
  exact eq_or_lt_flatMap (fun entry : String × Json => entry.2.parts) members members'
    (h.imp fun a b hab => hab.2.imp (Prod.ext hab.1) id)

theorem rewriting_enlarges : Rewriting Enlarges where
  refl x hx := ⟨hx, Or.inl rfl⟩
  trans x y z hxy hyz hx := by
    obtain ⟨hy, hsize⟩ := hxy hx
    obtain ⟨hz, hsize'⟩ := hyz hy
    exact ⟨hz, eq_or_lt_trans (fun x : Json => x.parts.length) x y z hsize hsize'⟩
  array items items' h hitems := by
    -- The values inside are known to be well-formed before it is said what becomes of them.
    rw [wellFormed_array_iff] at hitems ⊢
    have hboth := (List.forall₂_and_left items items').mpr ⟨hitems, h⟩
    refine ⟨fun y hy => ?_, ?_⟩
    · obtain ⟨x, _, hx, hxy⟩ := exists_of_forall₂ items items' hboth y hy
      exact (hxy hx).1
    · have hsizes := eq_or_lt_flatMap parts items items'
        (hboth.imp fun x y hxy => (hxy.2 hxy.1).2)
      simp only [parts, List.length_cons, Nat.add_lt_add_iff_right, itemParts_eq_flatMap]
      exact hsizes.imp (congrArg array) id
  object members members' h hmembers := by
    have hkeys := keys_rewritten members members' h
    rw [wellFormed_object_iff] at hmembers ⊢
    have hboth := (List.forall₂_and_left members members').mpr ⟨hmembers.2, h⟩
    refine ⟨⟨hkeys.symm ▸ hmembers.1, fun b hb => ?_⟩, ?_⟩
    · obtain ⟨a, _, ha, hab⟩ := exists_of_forall₂ members members' hboth b hb
      exact (hab.2 ha).1
    · have hsizes := eq_or_lt_of_members members members'
        (hboth.imp fun a b hab => ⟨hab.2.1, (hab.2.2 hab.1).2⟩)
      simp only [parts, List.length_cons, Nat.add_lt_add_iff_right]
      exact hsizes.imp (congrArg object) id
  wellFormed _ _ h hx := (h hx).1

/-- Adding members makes an object larger. -/
theorem enlarges_of_filled (x y : Json) (h : x.WellFormed → y.WellFormed ∧ Filled Enlarges x y) :
    Enlarges x y := by
  intro hx
  obtain ⟨hy, hfilled⟩ := h hx
  refine ⟨hy, ?_⟩
  cases hfilled with
  | same => exact Or.inl rfl
  | members members members' hprefix hrewrites =>
      rw [wellFormed_object_iff] at hx hy
      obtain ⟨extra, hextra⟩ := hprefix
      obtain ⟨front, added, rfl, hfront, _⟩ := List.map_eq_append_iff.mp hextra.symm
      -- What was there before is in front, and has been enlarged at most.
      have hpairs : List.Forall₂ (fun a b => a.1 = b.1 ∧ Enlarges a.2 b.2) members front := by
        refine forall₂_of_keys members front hfront fun a ha b hb hkey => ?_
        refine hrewrites a.1 a.2 b.2 ((Ordered.get?_eq_some_iff members hx.1 a.1 a.2).mpr ha) ?_
        rw [hkey]
        exact (Ordered.get?_eq_some_iff _ hy.1 b.1 b.2).mpr (List.mem_append_left added hb)
      have hsizes := eq_or_lt_of_members members front
        (((List.forall₂_and_left members front).mpr ⟨hx.2, hpairs⟩).imp fun a b hab =>
          ⟨hab.2.1, (hab.2.2 hab.1).2⟩)
      simp only [parts, List.length_cons, Nat.add_lt_add_iff_right]
      cases added with
      | nil =>
          rw [List.append_nil]
          exact hsizes.imp (congrArg object) id
      | cons entry rest =>
          -- An added member counts for one value at least.
          have hpos : 0 < (memberParts (entry :: rest)).length := by
            rw [memberParts, List.length_append]
            exact Nat.add_pos_left (List.length_pos_of_mem (mem_parts_self entry.2)) _
          have hle : (memberParts members).length ≤ (memberParts front).length :=
            hsizes.elim (fun heq => heq ▸ Nat.le_refl _) Nat.le_of_lt
          have hsum : (memberParts (front ++ entry :: rest)).length
              = (memberParts front).length + (memberParts (entry :: rest)).length := by
            simp only [memberParts_eq_flatMap, List.flatMap_append, List.length_append]
          rw [hsum]
          exact Or.inr (Nat.lt_of_le_of_lt hle (Nat.lt_add_of_pos_right hpos))

end Json

namespace Validator

variable (v : Validator) (hdocuments : ∀ entry ∈ v.registry.documents, entry.2.WellFormed)
  (hconvert : v.converts = false) (n : Node) (hn : v.registry.Holds n) (path : String) (depth : Nat)

include hdocuments hconvert hn

theorem enlarges_of_evaluateIn (x y : Json) (h : v.evaluateIn depth n path x = .ok y) :
    Json.Enlarges x y :=
  rewrites_of_evaluateIn Json.rewriting_enlarges v hdocuments
    (fun hconverts => absurd (hconvert.symm.trans hconverts) Bool.false_ne_true)
    Json.enlarges_of_filled depth n hn path x y h

theorem enlarges_of_evaluateKeyword (k : Keyword) (x y : Json)
    (h : v.evaluateKeyword (v.evaluateIn depth) k n path x = .ok y) : Json.Enlarges x y :=
  rewrites_of_evaluateKeyword Json.rewriting_enlarges v hdocuments
    (fun hconverts => absurd (hconvert.symm.trans hconverts) Bool.false_ne_true)
    Json.enlarges_of_filled depth k n hn path x y h

/-- In a row of keywords that returns its instance, each of them returns it. -/
theorem evaluateKeyword_eq_self (keywords : List Keyword) (x : Json) (hx : x.WellFormed)
    (h : v.evaluateKeywords (v.evaluateIn depth) keywords n path x = .ok x) (k : Keyword)
    (hk : k ∈ keywords) (hhas : n.has k.name = true) :
    v.evaluateKeyword (v.evaluateIn depth) k n path x = .ok x := by
  have hloop := foldlM_eq_self_or_lt (fun x : Json => x.parts.length) Json.WellFormed _
    (keywords.filter fun k : Keyword => n.has k.name) (fun k _ x y hx hy =>
      v.enlarges_of_evaluateKeyword hdocuments hconvert n hn path depth k x y hy hx) x x hx h
  rcases hloop with ⟨_, hall⟩ | hlt
  · exact hall k (List.mem_filter.mpr ⟨hk, hhas⟩)
  · exact absurd hlt (Nat.lt_irrefl _)

theorem enlarges_of_evaluateKeywords (keywords : List Keyword) (x y : Json)
    (h : v.evaluateKeywords (v.evaluateIn depth) keywords n path x = .ok y) : Json.Enlarges x y :=
  rewrites_of_evaluateKeywords Json.rewriting_enlarges v hdocuments
    (fun hconverts => absurd (hconvert.symm.trans hconverts) Bool.false_ne_true)
    Json.enlarges_of_filled depth keywords n hn path x y h

omit hn in
/-- Branches of `allOf` return a larger instance, or each of them returns the one it
    was given. -/
theorem applyMember_eq_self_or_lt (branches : List Node)
    (hbranches : ∀ m ∈ branches, v.registry.Holds m) (x y : Json) (hx : x.WellFormed)
    (h : branches.foldlM (n.applyMember v.registry (v.evaluateIn depth) path) x = .ok y) :
    (x = y ∧ ∀ m ∈ branches, n.applyMember v.registry (v.evaluateIn depth) path x m = .ok x)
      ∨ x.parts.length < y.parts.length := by
  refine foldlM_eq_self_or_lt (fun x : Json => x.parts.length) Json.WellFormed _ branches
    (fun m hm x y hx hy => ?_) x y hx h
  rcases (n.applyMember_eq_ok_iff v.registry _ path x m y).mp hy with ⟨_, rfl⟩ | ⟨_, hy⟩
  · exact ⟨hx, Or.inl rfl⟩
  · exact v.enlarges_of_evaluateIn hdocuments hconvert m (hbranches m hm) path depth x y hy hx

end Validator

/-- What an evaluation without conversions makes of an instance without repeated
    keys. -/
structure Json.Becomes (x y : Json) : Prop where
  /-- No key is repeated. -/
  wellFormed : y.WellFormed
  /-- Nothing is taken away at the top. -/
  grown : Extends false x y
  /-- If anything is added at all, the value gets larger. -/
  larger : x = y ∨ x.parts.length < y.parts.length

theorem Json.becomes_refl (x : Json) (hx : x.WellFormed) : Becomes x x := ⟨hx, .same x, Or.inl rfl⟩

theorem Json.becomes_trans (x y z : Json) (hxy : Becomes x y) (hyz : Becomes y z) : Becomes x z := by
  exact ⟨hyz.wellFormed, extends_trans false x y z hxy.grown hyz.grown,
    eq_or_lt_trans (fun x : Json => x.parts.length) x y z hxy.larger hyz.larger⟩

namespace Validator

variable (v : Validator) (hdocuments : ∀ entry ∈ v.registry.documents, entry.2.WellFormed)
  (hconvert : v.converts = false) (n : Node) (hn : v.registry.Holds n) (path : String) (depth : Nat)

include hdocuments hconvert hn

theorem becomes_of_evaluateIn (x y : Json) (hx : x.WellFormed)
    (h : v.evaluateIn depth n path x = .ok y) : Json.Becomes x y := by
  obtain ⟨hy, hlarger⟩ := v.enlarges_of_evaluateIn hdocuments hconvert n hn path depth x y h hx
  have hgrows := v.grows_of_evaluateIn hdocuments depth n hn path x y h hx
  rw [hconvert] at hgrows
  exact ⟨hy, hgrows.2, hlarger⟩

theorem becomes_of_evaluateKeywords (keywords : List Keyword) (x y : Json) (hx : x.WellFormed)
    (h : v.evaluateKeywords (v.evaluateIn depth) keywords n path x = .ok y) : Json.Becomes x y := by
  obtain ⟨hy, hlarger⟩ := v.enlarges_of_evaluateKeywords hdocuments hconvert n hn path depth keywords
    x y h hx
  have hgrows := v.grows_of_evaluateKeywords hdocuments depth keywords n hn path x y h hx
  rw [hconvert] at hgrows
  exact ⟨hy, hgrows.2, hlarger⟩

end Validator

end OpenApi
