import Mathlib.Data.List.Induction
import Mathlib.Data.List.Nodup
import OpenApi.Schema.Members

/-!
# Entries without Repeated Keys

What looking up, inserting and erasing do to entries whose keys are distinct.

Erasing moves the last entry into the gap, so a sequence of erasures and
insertions scrambles the order. The statements are therefore up to permutation:
taking an entry out and putting it back gives the same entries in some order,
and `restore` undoes whatever happened to the order in between. With distinct
keys a permutation loses nothing, because a lookup does not depend on the order.

## Theorems

* `get?_eq_some_iff`: With distinct keys a lookup finds exactly the entries.
* `get?_eq_none_iff`: A lookup fails exactly for absent keys.
* `insert_of_not_mem`: A new key is inserted at the end.
* `keys_ofEntries`, `get?_ofEntries`: Inserting pairs one after the other keeps
  the first place and the last value of a key.
* `insert_erase_perm`: Replacing a value by erasing and inserting changes that
  entry alone, up to the order.
* `perm_of_get?`: With distinct keys, lookups determine the entries.
* `restore_of_perm`: Restoring puts scrambled entries back and leaves added ones
  behind them.
* `restore_of_subset`: Restoring moves entries, and puts the given keys first.
* `forall₂_of_keys`, `exists_append_of_prefix`: Entries that begin with given keys.
-/

namespace OpenApi

namespace Ordered

variable {α : Type}

theorem get?_eq_none_iff (entries : Ordered α) (key : String) :
    get? entries key = none ↔ key ∉ keys entries := by
  induction entries with
  | nil => simp only [get?, keys, List.lookup_nil, List.map_nil, List.not_mem_nil,
      not_false_eq_true]
  | cons entry rest ih =>
      rcases entry with ⟨k, value⟩
      rw [get?, keys] at ih
      rw [get?, keys, List.map_cons, List.mem_cons, not_or, List.lookup_cons]
      by_cases hk : key = k
      · simp only [hk, beq_self_eq_true, reduceCtorEq, not_true_eq_false, false_and]
      · rw [beq_false_of_ne hk]
        simp only [hk, not_false_eq_true, true_and]
        exact ih

theorem mem_of_get? (entries : Ordered α) (key : String) (value : α)
    (h : get? entries key = some value) : (key, value) ∈ entries := by
  induction entries with
  | nil => exact absurd h (by simp only [get?, List.lookup_nil, reduceCtorEq, not_false_eq_true])
  | cons entry rest ih =>
      rcases entry with ⟨k, v⟩
      rw [get?, List.lookup_cons] at h
      by_cases hk : key = k
      · subst hk
        simp only [beq_self_eq_true, Option.some.injEq] at h
        rw [h]
        exact List.mem_cons_self
      · rw [beq_false_of_ne hk] at h
        exact List.mem_cons_of_mem _ (ih h)

theorem mem_keys_of_mem (entries : Ordered α) (key : String) (value : α)
    (h : (key, value) ∈ entries) : key ∈ keys entries :=
  List.mem_map_of_mem (f := Prod.fst) h

theorem get?_eq_some_iff (entries : Ordered α) (hnodup : (keys entries).Nodup) (key : String)
    (value : α) : get? entries key = some value ↔ (key, value) ∈ entries := by
  constructor
  · exact mem_of_get? entries key value
  · intro h
    induction entries with
    | nil => exact absurd h List.not_mem_nil
    | cons entry rest ih =>
        rcases entry with ⟨k, v⟩
        rw [keys, List.map_cons, List.nodup_cons] at hnodup
        rw [get?, List.lookup_cons]
        rcases List.mem_cons.mp h with heq | hmem
        · rw [Prod.mk.injEq] at heq
          rw [heq.1, beq_self_eq_true, heq.2]
        · have hk : key ≠ k := by
            rintro rfl
            exact hnodup.1 (mem_keys_of_mem rest key value hmem)
          rw [beq_false_of_ne hk]
          exact ih hnodup.2 hmem

theorem insert_of_not_mem (entries : Ordered α) (key : String) (value : α)
    (h : key ∉ keys entries) : insert entries key value = entries ++ [(key, value)] := by
  induction entries with
  | nil => rfl
  | cons entry rest ih =>
      rcases entry with ⟨k, v⟩
      rw [keys, List.map_cons, List.mem_cons, not_or] at h
      rw [insert, if_neg (fun hc => h.1 hc.symm), ih h.2, List.cons_append]

theorem keys_insert (entries : Ordered α) (key : String) (value : α) :
    keys (insert entries key value)
      = if key ∈ keys entries then keys entries else keys entries ++ [key] := by
  induction entries with
  | nil => rfl
  | cons entry rest ih =>
      rcases entry with ⟨k, v⟩
      rw [insert]
      -- A key that is there stays in its place, and one that is not goes to the end.
      by_cases hk : k = key
      · have hmem : key ∈ keys ((k, v) :: rest) := hk ▸ List.mem_cons_self
        rw [if_pos hk, if_pos hmem, hk]
        rfl
      · have hmem : key ∈ keys ((k, v) :: rest) ↔ key ∈ keys rest := by
          rw [keys, List.map_cons, List.mem_cons]
          exact ⟨fun h => h.resolve_left fun hc => hk hc.symm, Or.inr⟩
        rw [if_neg hk]
        change k :: keys (insert rest key value) = _
        rw [ih]
        by_cases hrest : key ∈ keys rest
        · rw [if_pos hrest, if_pos (hmem.mpr hrest)]
          rfl
        · rw [if_neg hrest, if_neg (fun h => hrest (hmem.mp h))]
          rfl

theorem get?_insert (entries : Ordered α) (key : String) (value : α) (other : String) :
    get? (insert entries key value) other
      = if other = key then some value else get? entries other := by
  induction entries with
  | nil =>
      rw [insert, get?, get?, List.lookup_cons, List.lookup_nil]
      by_cases hother : other = key
      · rw [if_pos hother, hother, beq_self_eq_true]
      · rw [if_neg hother, beq_false_of_ne hother]
  | cons entry rest ih =>
      rcases entry with ⟨k, v⟩
      rw [get?, get?] at ih
      rw [insert, get?, get?]
      by_cases hk : k = key
      · rw [if_pos hk, List.lookup_cons, List.lookup_cons, hk]
        by_cases hother : other = key
        · rw [if_pos hother, hother, beq_self_eq_true]
        · rw [if_neg hother, beq_false_of_ne hother]
      · rw [if_neg hk, List.lookup_cons, List.lookup_cons, ih]
        by_cases hother : other = k
        · rw [hother, beq_self_eq_true, if_neg hk, if_neg hk]
        · rw [beq_false_of_ne hother]

theorem mem_insert (entries : Ordered α) (key : String) (value : α) (entry : String × α)
    (h : entry ∈ insert entries key value) : entry = (key, value) ∨ entry ∈ entries := by
  induction entries with
  | nil => exact Or.inl (List.mem_singleton.mp h)
  | cons first rest ih =>
      rw [insert] at h
      split at h
      · exact (List.mem_cons.mp h).imp_right (List.mem_cons_of_mem first)
      · rcases List.mem_cons.mp h with rfl | h
        · exact Or.inr List.mem_cons_self
        · exact (ih h).imp_right (List.mem_cons_of_mem first)

theorem mem_of_mem_erase (entries : Ordered α) (key : String) (entry : String × α)
    (h : entry ∈ erase entries key) : entry ∈ entries := by
  induction entries with
  | nil => exact h
  | cons first rest ih =>
      rw [erase] at h
      split at h
      · split at h
        · exact absurd h List.not_mem_nil
        · rename_i last hlast
          rcases List.mem_cons.mp h with rfl | h
          · exact List.mem_cons_of_mem first (List.mem_of_getLast? hlast)
          · exact List.mem_cons_of_mem first ((List.dropLast_sublist rest).mem h)
      · rcases List.mem_cons.mp h with rfl | h
        · exact List.mem_cons_self
        · exact List.mem_cons_of_mem first (ih h)

theorem ofEntries_concat (pairs : List (String × α)) (pair : String × α) :
    ofEntries (pairs ++ [pair]) = insert (ofEntries pairs) pair.1 pair.2 := by
  unfold ofEntries
  rw [List.foldl_append]
  rfl

/-- A repeated key keeps its first place. -/
theorem keys_ofEntries (pairs : List (String × α)) :
    keys (ofEntries pairs) = (pairs.map Prod.fst).eraseDups := by
  induction pairs using List.reverseRecOn with
  | nil => rfl
  | append_singleton pairs pair ih =>
      have hmem : pair.1 ∈ keys (ofEntries pairs) ↔ pair.1 ∈ pairs.map Prod.fst := by
        rw [ih, List.mem_eraseDups]
      rw [ofEntries_concat, keys_insert, List.map_append, List.eraseDups_append, List.map_singleton]
      by_cases hpair : pair.1 ∈ pairs.map Prod.fst
      · have hnone : [pair.1].removeAll (pairs.map Prod.fst) = [] := by
          simp only [List.removeAll, List.filter_cons, List.filter_nil, List.elem_eq_mem, hpair,
            decide_true, Bool.not_true, Bool.false_eq_true, if_false]
        rw [if_pos (hmem.mpr hpair), ih, hnone, List.eraseDups_nil, List.append_nil]
      · have hone : [pair.1].removeAll (pairs.map Prod.fst) = [pair.1] := by
          simp only [List.removeAll, List.filter_cons, List.filter_nil, List.elem_eq_mem, hpair,
            decide_false, Bool.not_false, if_true]
        rw [if_neg (fun h => hpair (hmem.mp h)), ih, hone]
        rfl

/-- Inserting repeats no key. -/
theorem nodup_keys_ofEntries (pairs : List (String × α)) : (keys (ofEntries pairs)).Nodup := by
  induction pairs using List.reverseRecOn with
  | nil => exact List.nodup_nil
  | append_singleton pairs pair ih =>
      rw [ofEntries_concat, keys_insert]
      by_cases hpair : pair.1 ∈ keys (ofEntries pairs)
      · rw [if_pos hpair]
        exact ih
      · rw [if_neg hpair, ← List.concat_eq_append]
        exact ih.concat hpair

/-- What is among the entries was inserted. -/
theorem mem_of_mem_ofEntries (pairs : List (String × α)) (entry : String × α)
    (h : entry ∈ ofEntries pairs) : entry ∈ pairs := by
  induction pairs using List.reverseRecOn with
  | nil => exact h
  | append_singleton pairs pair ih =>
      rw [ofEntries_concat] at h
      rcases mem_insert _ _ _ entry h with rfl | h
      · exact List.mem_append_right pairs List.mem_cons_self
      · exact List.mem_append_left _ (ih h)

/-- A repeated key has its last value. -/
theorem get?_ofEntries (pairs : List (String × α)) (key : String) :
    get? (ofEntries pairs) key = pairs.reverse.lookup key := by
  induction pairs using List.reverseRecOn with
  | nil => rfl
  | append_singleton pairs pair ih =>
      rw [ofEntries_concat, get?_insert, List.reverse_append, List.reverse_singleton,
        List.singleton_append, List.lookup_cons, ih]
      by_cases hkey : key = pair.1
      · rw [if_pos hkey, hkey, beq_self_eq_true]
      · rw [if_neg hkey, beq_false_of_ne hkey]

theorem lookup_map_values {β : Type} (f : α → β) (key : String) (pairs : List (String × α)) :
    (pairs.map fun pair => (pair.1, f pair.2)).lookup key = (pairs.lookup key).map f := by
  induction pairs with
  | nil => rfl
  | cons pair rest ih =>
      rw [List.map_cons, List.lookup_cons, List.lookup_cons, ih]
      by_cases hkey : key = pair.1
      · rw [hkey, beq_self_eq_true]
        rfl
      · rw [beq_false_of_ne hkey]

/-- Erasing takes out the entry a lookup finds, and reorders the others. -/
theorem cons_erase_perm (entries : Ordered α) (key : String) (value : α)
    (h : get? entries key = some value) :
    List.Perm ((key, value) :: erase entries key) entries := by
  induction entries with
  | nil => exact absurd h (by simp only [get?, List.lookup_nil, reduceCtorEq, not_false_eq_true])
  | cons entry rest ih =>
      rcases entry with ⟨k, v⟩
      rw [get?, List.lookup_cons] at h
      rw [erase]
      by_cases hk : k = key
      · subst hk
        simp only [beq_self_eq_true, Option.some.injEq] at h
        rw [if_pos rfl, h]
        refine List.Perm.cons _ ?_
        -- The last entry moves to the front of those that are left.
        rcases hlast : rest.getLast? with _ | last
        · rw [List.getLast?_eq_none_iff.mp hlast]
        · have hsplit := List.dropLast_append_getLast? last hlast
          exact (List.perm_append_singleton last rest.dropLast).symm.trans (List.Perm.of_eq hsplit)
      · rw [if_neg hk]
        rw [beq_false_of_ne (fun hc => hk hc.symm)] at h
        exact (List.Perm.swap _ _ _).trans (List.Perm.cons _ (ih h))

theorem keys_perm (entries entries' : Ordered α) (h : List.Perm entries entries') :
    List.Perm (keys entries) (keys entries') := h.map Prod.fst

/-- With distinct keys a lookup does not depend on the order. -/
theorem get?_perm (entries entries' : Ordered α) (hnodup : (keys entries).Nodup)
    (h : List.Perm entries entries') (key : String) : get? entries key = get? entries' key := by
  have hnodup' : (keys entries').Nodup := (keys_perm _ _ h).nodup_iff.mp hnodup
  refine Option.ext fun value => ?_
  rw [get?_eq_some_iff entries hnodup, get?_eq_some_iff entries' hnodup']
  exact h.mem_iff

theorem get?_erase_of_ne (entries : Ordered α) (hnodup : (keys entries).Nodup) (key : String)
    (value : α) (h : get? entries key = some value) (other : String) (hother : other ≠ key) :
    get? (erase entries key) other = get? entries other := by
  have hperm := cons_erase_perm entries key value h
  rw [← get?_perm _ _ ((keys_perm _ _ hperm).nodup_iff.mpr hnodup) hperm other, get?, get?,
    List.lookup_cons, beq_false_of_ne hother]

/-- Putting a value under a key, said without regard to the order. -/
def replace (entries : Ordered α) (key : String) (value : α) : Ordered α :=
  entries.map fun entry => if entry.1 = key then (key, value) else entry

theorem keys_replace (entries : Ordered α) (key : String) (value : α) :
    keys (replace entries key value) = keys entries := by
  rw [keys, keys, replace, List.map_map]
  refine List.map_congr_left (fun entry _ => ?_)
  by_cases h : entry.1 = key
  · rw [Function.comp_apply, if_pos h, h]
  · rw [Function.comp_apply, if_neg h]

theorem replace_of_not_mem (entries : Ordered α) (key : String) (value : α)
    (h : key ∉ keys entries) : replace entries key value = entries := by
  rw [replace]
  refine (List.map_congr_left (fun entry hentry => ?_)).trans (List.map_id entries)
  rw [if_neg, id_eq]
  rintro rfl
  exact h (mem_keys_of_mem entries entry.1 entry.2 hentry)

theorem not_mem_keys_erase (entries : Ordered α) (hnodup : (keys entries).Nodup) (key : String)
    (value : α) (h : get? entries key = some value) : key ∉ keys (erase entries key) := by
  have hkeys := (keys_perm _ _ (cons_erase_perm entries key value h)).nodup_iff.mpr hnodup
  rw [keys, List.map_cons, List.nodup_cons] at hkeys
  exact hkeys.1

/-- Taking an entry out and putting it back gives the same entries in some order. -/
theorem insert_erase_self_perm (entries : Ordered α) (hnodup : (keys entries).Nodup) (key : String)
    (value : α) (h : get? entries key = some value) :
    List.Perm (insert (erase entries key) key value) entries := by
  rw [insert_of_not_mem _ _ _ (not_mem_keys_erase entries hnodup key value h)]
  exact (List.perm_append_singleton _ _).trans (cons_erase_perm entries key value h)

/-- Taking an entry out and putting another value back replaces the value, up
    to the order of the entries. -/
theorem insert_erase_perm (entries : Ordered α) (hnodup : (keys entries).Nodup) (key : String)
    (value value' : α) (h : get? entries key = some value) :
    List.Perm (insert (erase entries key) key value') (replace entries key value') := by
  have habsent := not_mem_keys_erase entries hnodup key value h
  rw [insert_of_not_mem _ _ _ habsent]
  have hmap := (cons_erase_perm entries key value h).map
    fun entry => if entry.1 = key then (key, value') else entry
  rw [List.map_cons, if_pos rfl] at hmap
  have hrest : (erase entries key).map (fun entry => if entry.1 = key then (key, value') else entry)
      = erase entries key := replace_of_not_mem _ _ _ habsent
  rw [hrest] at hmap
  exact (List.perm_append_singleton _ _).trans hmap

/-- Inserting entries with new keys appends them. -/
theorem foldl_insert_of_nodup (added front : Ordered α) (h : (keys (front ++ added)).Nodup) :
    added.foldl (fun front entry => insert front entry.1 entry.2) front = front ++ added := by
  induction added generalizing front with
  | nil => rw [List.foldl_nil, List.append_nil]
  | cons entry rest ih =>
      have hnew : entry.1 ∉ keys front := by
        rw [keys, List.map_append, List.map_cons] at h
        intro hmem
        exact (List.disjoint_of_nodup_append h) hmem List.mem_cons_self
      rw [List.foldl_cons, insert_of_not_mem _ _ _ hnew]
      rw [ih (front ++ [entry]) (by rwa [List.append_assoc, List.singleton_append])]
      rw [List.append_assoc, List.singleton_append]

/-- One step of restoring an order: an entry moves from those that are left to
    the end of those in front. -/
def restoreStep (state : Ordered α × Ordered α) (key : String) : Ordered α × Ordered α :=
  match get? state.2 key with
  | some value => (insert state.1 key value, erase state.2 key)
  | none => state

theorem foldl_restoreStep (original : Ordered α) :
    ∀ (front left extra : Ordered α), (keys (front ++ (original ++ extra))).Nodup →
      List.Perm left (original ++ extra) →
      ∃ extra', List.Perm extra' extra ∧
        (keys original).foldl restoreStep (front, left) = (front ++ original, extra') := by
  induction original with
  | nil =>
      intro front left extra _ hperm
      exact ⟨left, hperm, by rw [keys, List.map_nil, List.foldl_nil, List.append_nil]⟩
  | cons entry rest ih =>
      intro front left extra hnodup hperm
      rcases entry with ⟨key, value⟩
      have hparts := hnodup
      rw [keys, List.map_append, List.nodup_append'] at hparts
      -- The next key is among those that are left, and not yet among those in front.
      have hnew : key ∉ keys front := fun hmem => hparts.2.2 hmem List.mem_cons_self
      have hget : get? left key = some value := by
        refine (get?_eq_some_iff left ?_ key value).mpr ?_
        · exact (keys_perm _ _ hperm).nodup_iff.mpr hparts.2.1
        · exact hperm.mem_iff.mpr List.mem_cons_self
      have hstep : restoreStep (front, left) key = (front ++ [(key, value)], erase left key) := by
        simp only [restoreStep, hget, insert_of_not_mem front key value hnew]
      have hleft : List.Perm (erase left key) (rest ++ extra) :=
        ((cons_erase_perm left key value hget).trans hperm).cons_inv
      rcases ih (front ++ [(key, value)]) (erase left key) extra
        (by rwa [List.append_assoc, List.singleton_append]) hleft with ⟨extra', hextra, hfold⟩
      refine ⟨extra', hextra, ?_⟩
      rw [keys, List.map_cons, List.foldl_cons, hstep]
      rw [keys] at hfold
      rw [hfold, List.append_assoc, List.singleton_append]

/-- Restoring an order puts the entries that were there back into their places.
    Entries that were added follow, in an order that depends on what happened
    in between. -/
theorem restore_of_perm (original extra entries : Ordered α)
    (hnodup : (keys (original ++ extra)).Nodup) (hperm : List.Perm entries (original ++ extra)) :
    ∃ extra', List.Perm extra' extra ∧ restore entries (keys original) = original ++ extra' := by
  rcases foldl_restoreStep original [] entries extra hnodup hperm with ⟨extra', hextra, hfold⟩
  refine ⟨extra', hextra, ?_⟩
  have hrestore : restore entries (keys original)
      = ((keys original).foldl restoreStep ([], entries)).2.foldl
        (fun front entry => insert front entry.1 entry.2)
        ((keys original).foldl restoreStep ([], entries)).1 := rfl
  rw [hrestore, hfold, List.nil_append]
  refine foldl_insert_of_nodup extra' original ?_
  exact (keys_perm _ _ (List.Perm.append_left original hextra)).nodup_iff.mpr hnodup

/-- The entries under given keys can be put in front, in the order of the keys. -/
theorem exists_perm_append (ks : List String) (hks : ks.Nodup) :
    ∀ entries : Ordered α, (keys entries).Nodup → (∀ key ∈ ks, key ∈ keys entries) →
      ∃ front extra, keys front = ks ∧ List.Perm entries (front ++ extra) := by
  induction ks with
  | nil => exact fun entries _ _ => ⟨[], entries, rfl, List.Perm.refl entries⟩
  | cons key rest ih =>
      intro entries hnodup hsubset
      rw [List.nodup_cons] at hks
      rcases hvalue : get? entries key with _ | value
      · exact absurd (hsubset key List.mem_cons_self) ((get?_eq_none_iff entries key).mp hvalue)
      · have hperm := cons_erase_perm entries key value hvalue
        have hkeys := keys_perm _ _ hperm
        have hrest : ∀ other ∈ rest, other ∈ keys (erase entries key) := by
          intro other hother
          -- The erased key is not among the others.
          have hmem := hkeys.mem_iff.mpr (hsubset other (List.mem_cons_of_mem key hother))
          rcases List.mem_cons.mp hmem with rfl | hmem
          · exact absurd hother hks.1
          · exact hmem
        obtain ⟨front, extra, hfront, hextra⟩ := ih hks.2 (erase entries key)
          (List.nodup_cons.mp (hkeys.nodup_iff.mpr hnodup)).2 hrest
        exact ⟨(key, value) :: front, extra, congrArg (key :: ·) hfront,
          hperm.symm.trans (hextra.cons _)⟩

/-- Restoring an order among more entries than it speaks about. -/
theorem restore_of_subset (ks : List String) (hks : ks.Nodup) (entries : Ordered α)
    (hnodup : (keys entries).Nodup) (hsubset : ∀ key ∈ ks, key ∈ keys entries) :
    List.Perm (restore entries ks) entries ∧ ks <+: keys (restore entries ks) := by
  obtain ⟨front, extra, rfl, hperm⟩ := exists_perm_append ks hks entries hnodup hsubset
  have hparts : (keys (front ++ extra)).Nodup := (keys_perm _ _ hperm).nodup_iff.mp hnodup
  obtain ⟨extra', hextra, hrestore⟩ := restore_of_perm front extra entries hparts hperm
  rw [hrestore]
  refine ⟨(List.Perm.append_left front hextra).trans hperm.symm, ?_⟩
  rw [keys, keys, List.map_append]
  exact List.prefix_append _ _

/-- Entries with the same keys in the same order correspond to each other. -/
theorem forall₂_of_keys {β : Type} (R : String × α → String × β → Prop) (before : Ordered α) :
    ∀ after : Ordered β, keys after = keys before →
      (∀ a ∈ before, ∀ b ∈ after, b.1 = a.1 → R a b) → List.Forall₂ R before after := by
  induction before with
  | nil =>
      intro after hkeys _
      rw [List.map_eq_nil_iff.mp hkeys]
      exact .nil
  | cons a rest ih =>
      intro after hkeys h
      obtain ⟨b, rest', rfl, hb, hrest⟩ := List.map_eq_cons_iff.mp hkeys
      refine .cons (h a List.mem_cons_self b List.mem_cons_self hb) (ih rest' hrest ?_)
      exact fun a' ha' b' hb' => h a' (List.mem_cons_of_mem a ha') b' (List.mem_cons_of_mem b hb')

/-- Entries whose first keys are given fall into those under these keys and others. -/
theorem exists_append_of_prefix (ks : List String) (entries : Ordered α) (h : ks <+: keys entries) :
    ∃ front extra, entries = front ++ extra ∧ keys front = ks := by
  obtain ⟨ks', hks⟩ := h
  obtain ⟨front, extra, hentries, hfront, _⟩ := List.map_eq_append_iff.mp hks.symm
  exact ⟨front, extra, hentries, hfront⟩

end Ordered

end OpenApi
