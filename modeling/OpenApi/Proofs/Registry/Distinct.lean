import OpenApi.Proofs.Registry.Places
import OpenApi.Proofs.Registry.Scope

/-!
# Scopes That Tell Schemas Apart

A node is known by its scope, and two nodes may have the same one: it is a text,
and some characters of a pointer are lost on the way into it. If these are in no
key of any object, they are in no pointer to anything either, because a pointer
has only the characters of keys, digits, slashes and tildes. Then every scope
leads back to its node, and different nodes have different scopes.

## Main definitions

* `Uri.isAltered`: The characters that may not come back from a fragment.
* `Json.Avoids`: No key in a value has a character of a class.

## Theorems

* `exists_key_of_mem`: Where the characters of a pointer come from.
* `isFaithful_of_avoids`: Pointers without altered characters are faithful.
* `bare_eq_of_scope`: Nodes with the same scope are the same.
-/

namespace OpenApi

/-- The characters that are lost or misread between a text and the fragment
    that is made of it: percent signs, tabs and line ends. -/
def Uri.isAltered (c : Char) : Bool := c == '%' || Uri.isLineOrTab c

/-- No object in a value has a key with a character of a class. -/
def Json.Avoids (x : Json) (bad : Char → Bool) : Prop :=
  ∀ y ∈ x.parts, ∀ key ∈ y.keys, ∀ c ∈ key.toList, bad c = false

theorem Json.avoids_iff (x : Json) (bad : Char → Bool) :
    (x.parts.all fun y => y.keys.all fun key => !key.toList.any bad) = true ↔ x.Avoids bad := by
  simp only [Json.Avoids, List.all_eq_true, Bool.not_eq_true', List.any_eq_false, Bool.not_eq_true]

instance (x : Json) (bad : Char → Bool) : Decidable (x.Avoids bad) :=
  decidable_of_iff _ (x.avoids_iff bad)

/-- Altered characters do not belong to the way pointers are written. -/
theorem plain_of_isAltered (c : Char) (h : Uri.isAltered c = true) :
    c ≠ '/' ∧ c ≠ '~' ∧ c.isDigit = false := by
  unfold Uri.isAltered Uri.isLineOrTab at h
  simp only [Bool.or_eq_true, beq_iff_eq] at h
  rcases h with rfl | (rfl | rfl) | rfl
  · decide
  · decide
  · decide
  · decide

namespace Pointer

/-- Unescaping keeps the characters that are not used for escaping. -/
theorem mem_unescapeChars (c : Char) (hc : c ≠ '~') (hdigit : c.isDigit = false) (cs : List Char)
    (h : c ∈ cs) : c ∈ unescapeChars cs := by
  have hbehind : ∀ (digit : Char) (rest : List Char), digit.isDigit = true →
      c ∈ '~' :: digit :: rest → c ∈ rest := by
    intro digit rest hd hmem
    rcases List.mem_cons.mp hmem with rfl | hmem
    · exact absurd rfl hc
    · rcases List.mem_cons.mp hmem with rfl | hmem
      · exact absurd (hdigit.symm.trans hd) Bool.false_ne_true
      · exact hmem
  induction cs using unescapeChars.induct with
  | case1 => exact h
  | case2 rest ih =>
      rw [unescapeChars]
      exact List.mem_cons_of_mem _ (ih (hbehind _ _ rfl h))
  | case3 rest ih =>
      rw [unescapeChars]
      exact List.mem_cons_of_mem _ (ih (hbehind _ _ rfl h))
  | case4 d rest h0 h1 ih =>
      rw [unescapeChars]
      · rcases List.mem_cons.mp h with rfl | h
        · exact List.mem_cons_self
        · exact List.mem_cons_of_mem _ (ih h)
      · exact h0
      · exact h1

/-- Array places are written with digits. -/
theorem isDigit_of_mem_toString (i : Nat) (c : Char) (h : c ∈ (toString i).toList) :
    c.isDigit = true := by
  rw [show (toString i).toList = Nat.toDigits 10 i from Nat.toList_repr] at h
  exact Nat.isDigit_of_mem_toDigits (by decide) (by decide) h

/-- A character of a written segment that leads somewhere is one of a key. -/
theorem exists_key_of_canonicalStep? (value next : Json) (cs : List Char)
    (h : canonicalStep? value (String.ofList (unescapeChars cs)) = some next) (c : Char)
    (hc : c ≠ '~') (hdigit : c.isDigit = false) (hmem : c ∈ cs) :
    ∃ key ∈ value.keys, c ∈ key.toList := by
  have hsegment := mem_unescapeChars c hc hdigit cs hmem
  cases value with
  | object members =>
      have hentry := Ordered.mem_of_get? members _ next h
      refine ⟨_, Ordered.mem_keys_of_mem members _ next hentry, ?_⟩
      rw [String.toList_ofList]
      exact hsegment
  | array items =>
      rcases Option.bind_eq_some_iff.mp h with ⟨i, hi, _⟩
      rw [← String.toList_ofList (l := unescapeChars cs),
        eq_toString_of_canonicalIndex? _ i hi] at hsegment
      exact absurd (isDigit_of_mem_toString i c hsegment) (Bool.eq_false_iff.mp hdigit)
  | _ => exact absurd h (by simp only [canonicalStep?, stepBy?, reduceCtorEq, not_false_eq_true])

theorem exists_key_of_foldlM (c : Char) (hc : c ≠ '~') (hdigit : c.isDigit = false)
    (path : List (List Char)) :
    ∀ root value : Json,
      (path.map fun cs => String.ofList (unescapeChars cs)).foldlM canonicalStep? root = some value →
        ∀ cs ∈ path, c ∈ cs → ∃ y ∈ root.parts, ∃ key ∈ y.keys, c ∈ key.toList := by
  induction path with
  | nil => exact fun root value _ cs hcs _ => absurd hcs List.not_mem_nil
  | cons first rest ih =>
      intro root value h cs hcs hmem
      rw [List.map_cons, List.foldlM_cons] at h
      rcases Option.bind_eq_some_iff.mp h with ⟨next, hnext, hrest⟩
      rcases List.mem_cons.mp hcs with rfl | hcs
      · -- The first segment is a key of the root, the later ones are keys further inside.
        exact ⟨root, Json.mem_parts_self root,
          exists_key_of_canonicalStep? root next cs hnext c hc hdigit hmem⟩
      · rcases ih next value hrest cs hcs hmem with ⟨y, hy, hkey⟩
        exact ⟨y, Json.mem_parts_trans _ _ _
          (mem_parts_of_canonicalStep? root next _ hnext) hy, hkey⟩

/-- The characters of a pointer that leads somewhere are slashes, tildes, digits
    and characters of keys. -/
theorem exists_key_of_mem (root value : Json) (pointer : String)
    (h : get? root pointer = some value) (c : Char) (hslash : c ≠ '/') (htilde : c ≠ '~')
    (hdigit : c.isDigit = false) (hmem : c ∈ pointer.toList) :
    ∃ y ∈ root.parts, ∃ key ∈ y.keys, c ∈ key.toList := by
  obtain ⟨path, hpath, hfold⟩ := exists_path_of_get? root value pointer h
  rw [hpath] at hmem
  obtain ⟨cs, hcs, hmem⟩ := List.mem_flatMap.mp hmem
  rcases List.mem_cons.mp hmem with heq | hmem
  · exact absurd heq hslash
  · exact exists_key_of_foldlM c htilde hdigit path root value hfold cs hcs hmem

/-- A pointer that leads somewhere comes back from a fragment if no key has an
    altered character. -/
theorem isFaithful_of_avoids (root value : Json) (pointer : String)
    (h : get? root pointer = some value) (havoids : root.Avoids Uri.isAltered) :
    Uri.isFaithful pointer = true := by
  have hkept : ∀ c ∈ pointer.toList, Uri.isAltered c = false := by
    intro c hc
    rw [Bool.eq_false_iff]
    intro haltered
    obtain ⟨hslash, htilde, hdigit⟩ := plain_of_isAltered c haltered
    obtain ⟨y, hy, key, hkey, hmem⟩ :=
      exists_key_of_mem root value pointer h c hslash htilde hdigit hc
    exact absurd haltered (Bool.eq_false_iff.mp (havoids y hy key hkey c hmem))
  unfold Uri.isFaithful
  rw [Bool.and_eq_true, Bool.not_eq_true']
  constructor
  · refine List.all_eq_true.mpr fun c hc => ?_
    have hline := hkept c hc
    unfold Uri.isAltered at hline
    rw [Bool.or_eq_false_iff] at hline
    rw [hline.2]
    rfl
  · exact Percent.hasTriple_of_not_mem _ fun hpercent => absurd (hkept '%' hpercent) (by decide)

end Pointer

namespace Registry

variable (r : Registry)

/-- Nodes with the same scope are the same, but for exclusions, if no key of a
    document has an altered character. -/
theorem bare_eq_of_scope (hr : r.Built)
    (havoids : ∀ entry ∈ r.documents, entry.2.Avoids Uri.isAltered) (n m : Node) (hn : r.Has n)
    (hm : r.Has m) (hscope : n.scope = m.scope) : n.bare = m.bare := by
  have hfound : ∀ k, r.Has k → r.node? k.scopeUri = some k.bare := by
    intro k hk
    obtain ⟨_, _, root, _, _, hroot, hget⟩ := r.address_of_has hr k hk
    obtain ⟨value, hvalue⟩ := Option.isSome_iff_exists.mp hget
    refine r.node?_scopeUri_of_isFaithful hr k hk ?_
    exact Pointer.isFaithful_of_avoids root value k.pointer hvalue
      (havoids _ (r.mem_documents_of_document? k.document root hroot))
  -- The scope is read as the address it is the text of.
  have haddress : n.scopeUri = m.scopeUri := by
    have hread := r.readLenient?_scope hr n hn
    rw [hscope, r.readLenient?_scope hr m hm] at hread
    exact (Option.some.inj hread).symm
  have hsame := hfound n hn
  rw [haddress, hfound m hm] at hsame
  exact (Option.some.inj hsame).symm

end Registry

end OpenApi
