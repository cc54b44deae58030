import OpenApi.Proofs.Json.Parts
import OpenApi.Proofs.Ordered
import OpenApi.Yaml.Value

/-!
# Values of YAML Texts

What reading a YAML text gives is well-formed: no object inside it repeats a key.
A mapping may repeat one, in the text or through a reference, but the entries of
an object are inserted one after the other, so a repeated key only replaces the
value that was there.

Reading goes down in the tree of nodes and follows references in between, so the
induction is on the depth that is left. How many references may still be followed
does not matter.

## Theorems

* `wellFormed_of_scalarValue?`: Scalars have no keys.
* `wellFormed_of_valueIn?`: Nodes have well-formed values.
* `wellFormed_of_read?`: So have texts.
-/

namespace OpenApi

namespace Yaml

theorem wellFormed_of_leaf (x : Json) (hparts : x.parts = [x]) (hkeys : x.keys = []) :
    x.WellFormed := by
  intro y hy
  rw [hparts, List.mem_singleton] at hy
  rw [hy, hkeys]
  exact List.nodup_nil

theorem wellFormed_of_realSpelled? (cs : List Char) (x : Json) (h : realSpelled? cs = some x) :
    x.WellFormed := by
  unfold realSpelled? at h
  extract_lets unsigned special at h
  split at h
  · rw [← Option.some.inj h]
    exact wellFormed_of_leaf _ rfl rfl
  · split at h
    · exact absurd h (by simp only [reduceCtorEq, not_false_eq_true])
    · rcases Option.bind_eq_some_iff.mp h with ⟨d, _, h⟩
      rcases Option.map_eq_some_iff.mp h with ⟨y, _, rfl⟩
      exact wellFormed_of_leaf _ rfl rfl

theorem wellFormed_of_otherValue (text : String) : (otherValue text).WellFormed := by
  unfold otherValue
  split
  · exact wellFormed_of_leaf _ rfl rfl
  · rcases hreal : realSpelled? text.toList with _ | x
    · exact wellFormed_of_leaf _ rfl rfl
    · exact wellFormed_of_realSpelled? _ x hreal

theorem wellFormed_of_spelled (text : String) (x : Json)
    (h : nullSpelled? text = some x ∨ boolSpelled? text = some x) : x.WellFormed := by
  rcases h with h | h
  · unfold nullSpelled? at h
    split at h
    · rw [← Option.some.inj h]
      exact wellFormed_of_leaf _ rfl rfl
    · exact absurd h (by simp only [reduceCtorEq, not_false_eq_true])
  · unfold boolSpelled? at h
    split at h
    · rw [← Option.some.inj h]
      exact wellFormed_of_leaf _ rfl rfl
    · split at h
      · rw [← Option.some.inj h]
        exact wellFormed_of_leaf _ rfl rfl
      · exact absurd h (by simp only [reduceCtorEq, not_false_eq_true])

theorem wellFormed_of_plainValue? (text : String) (x : Json) (h : plainValue? text = some x) :
    x.WellFormed := by
  unfold plainValue? at h
  split at h
  · rw [← Option.some.inj h]
    exact wellFormed_of_leaf _ rfl rfl
  · split at h
    · rename_i value hvalue
      rw [Option.orElse_eq_or, Option.or_eq_some_iff] at hvalue
      rw [← Option.some.inj h]
      exact wellFormed_of_spelled text value (hvalue.imp id And.right)
    · split at h
      · split at h
        · rw [← Option.some.inj h]
          exact wellFormed_of_leaf _ rfl rfl
        · split at h
          · exact absurd h (by simp only [reduceCtorEq, not_false_eq_true])
          · rw [← Option.some.inj h]
            exact wellFormed_of_otherValue text
      · rw [← Option.some.inj h]
        exact wellFormed_of_otherValue text

theorem wellFormed_of_taggedValue? (tag text : String) (x : Json)
    (h : taggedValue? tag text = some x) : x.WellFormed := by
  unfold taggedValue? at h
  split at h
  · exact wellFormed_of_spelled text x (Or.inl h)
  · split at h
    · exact wellFormed_of_spelled text x (Or.inr h)
    · split at h
      · rcases Option.bind_eq_some_iff.mp h with ⟨i, _, h⟩
        split at h
        · rw [← Option.some.inj h]
          exact wellFormed_of_leaf _ rfl rfl
        · exact absurd h (by simp only [reduceCtorEq, not_false_eq_true])
      · split at h
        · exact wellFormed_of_realSpelled? _ x h
        · rw [← Option.some.inj h]
          exact wellFormed_of_leaf _ rfl rfl

/-- Scalars have no keys. -/
theorem wellFormed_of_scalarValue? (tag : Option String) (plain : Bool) (text : String) (x : Json)
    (h : scalarValue? tag plain text = some x) : x.WellFormed := by
  unfold scalarValue? at h
  split at h
  · exact absurd h (by simp only [reduceCtorEq, not_false_eq_true])
  · split at h
    · exact wellFormed_of_taggedValue? _ text x h
    · split at h
      · exact wellFormed_of_plainValue? text x h
      · rw [← Option.some.inj h]
        exact wellFormed_of_leaf _ rfl rfl

/-- A reader that fails gives nothing. -/
theorem run_failure_ne {α : Type} (left : Nat) (result : α × Nat) :
    (failure : StateT Nat Option α).run left ≠ some result :=
  (Option.some_ne_none result).symm

/-- Whatever each step of a loop gives is among what the loop gives. -/
theorem forall_mem_of_mapM {α β : Type} (f : α → StateT Nat Option β) (P : β → Prop)
    (hf : ∀ x left y left', (f x).run left = some (y, left') → P y) (xs : List α) :
    ∀ left ys left', (xs.mapM f).run left = some (ys, left') → ∀ y ∈ ys, P y := by
  induction xs with
  | nil =>
      intro left ys left' h y hy
      rw [List.mapM_nil] at h
      rw [← (Prod.mk.inj (Option.some.inj h)).1] at hy
      exact absurd hy List.not_mem_nil
  | cons x rest ih =>
      intro left ys left' h y hy
      rw [List.mapM_cons, StateT.run_bind] at h
      rcases Option.bind_eq_some_iff.mp h with ⟨⟨first, middle⟩, hfirst, h⟩
      rw [StateT.run_bind] at h
      rcases Option.bind_eq_some_iff.mp h with ⟨⟨others, last⟩, hothers, h⟩
      rw [← (Prod.mk.inj (Option.some.inj h)).1] at hy
      rcases List.mem_cons.mp hy with rfl | hy
      · exact hf x left y middle hfirst
      · exact ih middle others last hothers y hy

namespace Tree

/-- A repeated key is inserted once. -/
theorem wellFormed_of_ofEntries (entries : List (String × Json))
    (h : ∀ entry ∈ entries, entry.2.WellFormed) :
    (Json.object (Ordered.ofEntries entries)).WellFormed :=
  (Json.wellFormed_object_iff _).mpr ⟨Ordered.nodup_keys_ofEntries entries,
    fun entry hentry => h entry (Ordered.mem_of_mem_ofEntries entries entry hentry)⟩

theorem wellFormed_of_leafValue? (node : Tree Nat) (left : Nat) (x : Json) (left' : Nat)
    (h : (leafValue? node).run left = some (x, left')) : x.WellFormed := by
  unfold leafValue? at h
  split at h
  · split at h
    · rename_i value hvalue
      rw [← (Prod.mk.inj (Option.some.inj h)).1]
      exact wellFormed_of_scalarValue? _ _ _ value hvalue
    · exact absurd h (run_failure_ne left _)
  · exact absurd h (run_failure_ne left _)

/-- Reading a node goes down to nodes with less depth left. -/
theorem wellFormed_of_valueIn? (nodes : List (Nat × Tree Nat)) (depth : Nat) :
    ∀ node left x left', (valueIn? nodes depth node).run left = some (x, left') →
      x.WellFormed := by
  induction depth with
  | zero =>
      intro node left x left' h
      rw [valueIn?, StateT.run_bind] at h
      rcases Option.bind_eq_some_iff.mp h with ⟨⟨target, middle⟩, _, h⟩
      exact wellFormed_of_leafValue? target middle x left' h
  | succ depth ih =>
      intro node left x left' h
      rw [valueIn?, StateT.run_bind] at h
      rcases Option.bind_eq_some_iff.mp h with ⟨⟨target, middle⟩, _, h⟩
      dsimp only at h
      split at h
      · split at h
        · exact absurd h (run_failure_ne middle _)
        · rw [StateT.run_bind] at h
          rcases Option.bind_eq_some_iff.mp h with ⟨⟨items, last⟩, hitems, h⟩
          rw [← (Prod.mk.inj (Option.some.inj h)).1]
          exact (Json.wellFormed_array_iff items).mpr
            (forall_mem_of_mapM _ _ ih _ middle items last hitems)
      · split at h
        · exact absurd h (run_failure_ne middle _)
        · rw [StateT.run_bind] at h
          rcases Option.bind_eq_some_iff.mp h with ⟨⟨members, last⟩, hmembers, h⟩
          rw [← (Prod.mk.inj (Option.some.inj h)).1]
          refine wellFormed_of_ofEntries members
            (forall_mem_of_mapM _ (fun member => member.2.WellFormed) ?_ _ middle members last
              hmembers)
          -- The key of an entry may spend a reference before its value is read.
          intro entry start member stop h
          rw [StateT.run_bind] at h
          rcases Option.bind_eq_some_iff.mp h with ⟨⟨key, between⟩, _, h⟩
          rw [StateT.run_bind] at h
          rcases Option.bind_eq_some_iff.mp h with ⟨⟨value, stop'⟩, hvalue, h⟩
          rw [← (Prod.mk.inj (Option.some.inj h)).1]
          exact ih entry.2 between value stop' hvalue
      · exact wellFormed_of_leafValue? _ middle x left' h

end Tree

/-- What a text stands for repeats no key. -/
theorem wellFormed_of_read? (text : String) (x : Json) (h : read? text = some x) :
    x.WellFormed := by
  rcases Option.bind_eq_some_iff.mp h with ⟨tokens, _, h⟩
  rcases Option.bind_eq_some_iff.mp h with ⟨document, _, h⟩
  rcases Option.bind_eq_some_iff.mp h with ⟨⟨tree, _⟩, _, h⟩
  rcases Option.bind_eq_some_iff.mp h with ⟨⟨value, left⟩, hvalue, h⟩
  rw [← Option.some.inj h]
  exact Tree.wellFormed_of_valueIn? _ Tree.maxDepth tree _ value left hvalue

end Yaml

end OpenApi
