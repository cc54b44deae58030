import OpenApi.Proofs.Evaluation.Outcome
import OpenApi.Proofs.Json.Parts
import OpenApi.Schema.Members

/-!
# Rewriting of Instances

What an evaluation may make of an instance. The keywords that apply subschemas
take an array or an object apart, evaluate its members and put the results
together again, and several keywords hand the instance on to each other. So
whatever is known of single steps has to be closed under doing nothing, under
one step after the other, and under arrays and objects member by member. A
relation with these properties is a `Rewriting`.

Equality is one, which is how instances are shown to come back unchanged. A
weaker one admits the conversion of texts.

Members keep their keys and their order here. That excludes defaults, which add
members, so the lemmas that use a rewriting are about schemas without them.

## Main definitions

* `Json.Rewriting`: The closure properties.
* `Json.Rewritten`: Members with the same keys and rewritten values.
* `Evaluation.Keeps`: An evaluation promises to rewrite an instance.

## Theorems

* `rewritten_replace`: Replacing a value by a rewritten one.
* `rewritten_restore`: Restoring the order of scrambled rewritten members.
* `promises_gather`: Verdicts that all accept give rewritten members.
-/

namespace OpenApi

/-- What an evaluation may make of an instance. -/
structure Json.Rewriting (R : Json → Json → Prop) : Prop where
  /-- An instance may come back as it is. -/
  refl : ∀ x, R x x
  /-- What came back may be rewritten again. -/
  trans : ∀ x y z, R x y → R y z → R x z
  /-- The items of an array may be rewritten. -/
  array : ∀ items items', List.Forall₂ R items items' → R (.array items) (.array items')
  /-- The members of an object may be rewritten under their keys. -/
  object : ∀ members members',
    List.Forall₂ (fun a b => a.1 = b.1 ∧ R a.2 b.2) members members' →
      R (.object members) (.object members')
  /-- No object gets two members under one key. -/
  wellFormed : ∀ x y, R x y → x.WellFormed → y.WellFormed

/-- Members with the same keys in the same order, and rewritten values. -/
def Json.Rewritten (R : Json → Json → Prop) (members members' : Ordered Json) : Prop :=
  List.Forall₂ (fun a b => a.1 = b.1 ∧ R a.2 b.2) members members'

/-- At whatever path, the evaluation of a node rewrites an instance. -/
def Evaluation.Keeps (evaluate : Evaluation) (deep : Prop) (R : Json → Json → Prop) (n : Node)
    (x : Json) : Prop :=
  ∀ path, Promises deep (R x) (evaluate n path x)

/-- Whatever is in the second list has a partner in the first. -/
theorem exists_of_forall₂ {α β : Type} {R : α → β → Prop} (items : List α) (items' : List β)
    (h : List.Forall₂ R items items') (b : β) (hb : b ∈ items') : ∃ a ∈ items, R a b := by
  induction h with
  | nil => exact absurd hb List.not_mem_nil
  | @cons a b' _ _ hab _ ih =>
      rcases List.mem_cons.mp hb with rfl | hrest
      · exact ⟨a, List.mem_cons_self, hab⟩
      · rcases ih hrest with ⟨a', ha', hR⟩
        exact ⟨a', List.mem_cons_of_mem a ha', hR⟩

/-- What stands at a place of the second list has a partner at that place of the
    first. -/
theorem exists_getElem?_of_forall₂ {α β : Type} {R : α → β → Prop} (items : List α)
    (items' : List β) (h : List.Forall₂ R items items') (i : Nat) (b : β)
    (hb : items'[i]? = some b) : ∃ a, items[i]? = some a ∧ R a b := by
  obtain ⟨hi', rfl⟩ := List.getElem?_eq_some_iff.mp hb
  have hi : i < items.length := h.length_eq ▸ hi'
  exact ⟨items[i], List.getElem?_eq_getElem hi, (List.forall₂_iff_get.mp h).2 i hi hi'⟩

/-- What is found under a key in the second list has a partner under that key in
    the first. -/
theorem exists_get?_of_forall₂ {α β : Type} {R : String × α → String × β → Prop}
    (hkey : ∀ a b, R a b → a.1 = b.1) (entries : Ordered α) (entries' : Ordered β)
    (h : List.Forall₂ R entries entries') (key : String) (y : β)
    (hy : Ordered.get? entries' key = some y) :
    ∃ x, Ordered.get? entries key = some x ∧ R (key, x) (key, y) := by
  induction h with
  | nil => exact nomatch hy
  | @cons a b _ _ hab _ ih =>
      rcases a with ⟨k, x⟩
      rcases b with ⟨k', y'⟩
      have hk : k = k' := hkey _ _ hab
      rw [Ordered.get?, List.lookup_cons] at hy ⊢
      rw [hk]
      split at hy
      · rename_i hequal
        rw [hk, ← eq_of_beq hequal] at hab
        exact ⟨x, rfl, Option.some.inj hy ▸ hab⟩
      · exact ih hy

/-- Lists are related in two steps if their items are. -/
theorem forall₂_trans_of_mem {α β γ : Type} {R : α → β → Prop} {S : β → γ → Prop}
    {T : α → γ → Prop} (items : List α) (items' : List β) (h : List.Forall₂ R items items')
    (htrans : ∀ a ∈ items, ∀ b c, R a b → S b c → T a c) :
    ∀ items'', List.Forall₂ S items' items'' → List.Forall₂ T items items'' := by
  induction h with
  | nil =>
      intro items'' h'
      rw [List.forall₂_nil_left_iff.mp h']
      exact List.Forall₂.nil
  | @cons a b _ _ hab _ ih =>
      intro items'' h'
      cases h' with
      | @cons _ c _ _ hbc hrest =>
          exact List.Forall₂.cons (htrans a List.mem_cons_self b c hab hbc)
            (ih (fun x hx => htrans x (List.mem_cons_of_mem a hx)) _ hrest)

namespace Json

variable {R : Json → Json → Prop}

/-- Equality is a rewriting: nothing changes. -/
theorem rewriting_eq : Rewriting (fun x y => x = y) where
  refl _ := rfl
  trans _ _ _ := Eq.trans
  array items items' h := by
    rw [List.forall₂_eq_eq_eq] at h
    rw [h]
  object members members' h := by
    have heq : List.Forall₂ (fun a b : String × Json => a = b) members members' :=
      h.imp fun a b hab => Prod.ext hab.1 hab.2
    rw [List.forall₂_eq_eq_eq] at heq
    rw [heq]
  wellFormed _ _ h hx := h ▸ hx

theorem keys_rewritten (members members' : Ordered Json) (h : Rewritten R members members') :
    Ordered.keys members' = Ordered.keys members := by
  induction h with
  | nil => rfl
  | cons hab _ ih =>
      rw [Ordered.keys, List.map_cons, Ordered.keys, List.map_cons, hab.1]
      rw [Ordered.keys, Ordered.keys] at ih
      rw [ih]

theorem exists_of_rewritten (members members' : Ordered Json) (h : Rewritten R members members')
    (entry' : String × Json) (hmem : entry' ∈ members') :
    ∃ x, (entry'.1, x) ∈ members ∧ R x entry'.2 := by
  rcases exists_of_forall₂ members members' h entry' hmem with ⟨entry, hentry, hkey, hR⟩
  refine ⟨entry.2, ?_, hR⟩
  rw [← hkey]
  exact hentry

theorem rewritten_replace (hR : Rewriting R) (members members' : Ordered Json) (key : String)
    (value : Json) (h : Rewritten R members members')
    (hvalue : ∀ entry ∈ members', entry.1 = key → R entry.2 value) :
    Rewritten R members (Ordered.replace members' key value) := by
  induction h with
  | nil => exact List.Forall₂.nil
  | @cons a b _ _ hab _ ih =>
      rw [Ordered.replace, List.map_cons]
      refine List.Forall₂.cons ?_ (ih fun entry hentry => hvalue entry (List.mem_cons_of_mem _ hentry))
      by_cases hb : b.1 = key
      · rw [if_pos hb]
        exact ⟨hab.1.trans hb, hR.trans _ _ _ hab.2 (hvalue b List.mem_cons_self hb)⟩
      · rw [if_neg hb]
        exact hab

/-- Members that were scrambled and rewritten come back into their places. -/
theorem rewritten_restore (members members' scrambled : Ordered Json)
    (hnodup : (Ordered.keys members).Nodup) (h : Rewritten R members members')
    (hperm : List.Perm scrambled members') :
    Ordered.restore scrambled (Ordered.keys members) = members' := by
  have hkeys := keys_rewritten members members' h
  rcases Ordered.restore_of_perm members' [] scrambled (by rwa [List.append_nil, hkeys])
    (by rwa [List.append_nil]) with ⟨extra, hextra, hrestore⟩
  rw [← hkeys, hrestore, hextra.eq_nil, List.append_nil]

end Json

theorem values_of_no_violations {α β : Type} (good : α → β → Prop) (items : List α)
    (verdicts : List (Verdict β))
    (h : List.Forall₂ (fun item => Verdict.Good (good item)) items verdicts)
    (hnone : verdicts.filterMap Verdict.violation? = []) :
    List.Forall₂ good items (verdicts.filterMap Verdict.value?) := by
  induction h with
  | nil => exact List.Forall₂.nil
  | @cons item v _ _ hgood _ ih =>
      cases v with
      | ok value =>
          simp only [List.filterMap_cons, Verdict.violation?, Verdict.value?] at hnone ⊢
          exact List.Forall₂.cons hgood (ih hnone)
      | error violation =>
          simp only [List.filterMap_cons, Verdict.violation?] at hnone
          exact absurd hnone (List.cons_ne_nil _ _)

theorem value_of_verdict {α β : Type} (good : β → Prop) (items : List α)
    (verdicts : List (Verdict β)) (h : List.Forall₂ (fun _ => Verdict.Good good) items verdicts)
    (value : β) (hmem : value ∈ verdicts.filterMap Verdict.value?) : good value := by
  rcases List.mem_filterMap.mp hmem with ⟨v, hv, hvalue⟩
  induction h with
  | nil => exact absurd hv List.not_mem_nil
  | @cons _ v' _ _ hgood _ ih =>
      rcases List.mem_cons.mp hv with rfl | hrest
      · cases v with
        | ok w =>
            rw [Verdict.value?, Option.some.injEq] at hvalue
            rw [← hvalue]
            exact hgood
        | error violation => simp only [Verdict.value?, reduceCtorEq] at hvalue
      · exact ih (List.mem_filterMap.mpr ⟨v, hrest, hvalue⟩) hrest

/-- What verdicts are gathered into when all of them accept. -/
theorem promises_gather {α β : Type} (deep : Prop) (good : α → β → Prop) (n : Node) (path : String)
    (kind : ViolationKind) (items : List α) (verdicts : List (Verdict β))
    (h : List.Forall₂ (fun item => Verdict.Good (good item)) items verdicts) :
    Promises deep (List.Forall₂ good items) (n.gather path kind verdicts) := by
  unfold Node.gather
  rcases hcauses : verdicts.filterMap Verdict.violation? with _ | ⟨cause, causes⟩
  · exact values_of_no_violations good items verdicts h hcauses
  · exact trivial

end OpenApi
