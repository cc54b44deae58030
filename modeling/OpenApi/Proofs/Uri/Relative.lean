import OpenApi.Proofs.Uri.Fragment
import OpenApi.Proofs.Uri.Reader

/-!
# References and Their Bases

What a reference keeps of its base. A reference that is a fragment alone keeps all
of it and sets the fragment, whatever kind of URI the base is.

Any other reference does not see the fragment of the base, nor the blanks that the
base has in front of it. So the document of what a reference stands for depends
only on the document of the base. This holds of bases that are segmented, that is,
whose special schemes come with a path of segments, and all URIs that are read
are.

## Main definitions

* `Uri.IsSegmented`: A special scheme comes with a path of segments.

## Theorems

* `resolve?_fragment`: A fragment alone is set on the base.
* `isSegmented_resolve?`: References lead from segmented URIs to such.
* `map_document_resolve?`: Documents depend on documents.
-/

namespace OpenApi

namespace Uri

/-- A URI of a special scheme has a path of segments. -/
def IsSegmented (u : Uri) : Prop := isSpecial u.scheme = true → u.isHierarchical = true

theorem isSegmented_of_isRegular (u : Uri) (hu : u.IsRegular) : u.IsSegmented := by
  intro hspecial
  have hfront := hu.front
  unfold isHierarchical
  split
  · rename_i text hpath
    rw [hpath] at hfront
    generalize u.authority = authority at hfront
    -- Only a scheme that is not special has a path that is no sequence of segments.
    cases hfront with
    | rootless _ hordinary =>
        rw [hordinary] at hspecial
        exact absurd hspecial Bool.false_ne_true
  · rfl

section Segmented

/-- What is read keeps its base up to the fragment, or has a path of segments. -/
def Kept (base : Option Uri) (u : Uri) : Prop :=
  u.isHierarchical = true ∨ ∃ b, base = some b ∧ u = { b with fragment := none }

theorem isSegmented_of_kept (base : Option Uri) (hbase : ∀ b, base = some b → b.IsSegmented)
    (u : Uri) (h : Kept base u) : u.IsSegmented := by
  intro hspecial
  rcases h with h | ⟨b, hb, rfl⟩
  · exact h
  · exact hbase b hb hspecial

theorem kept_readAfterSlashes? (base : Option Uri) (scheme : String) (more : Bool) (cs : List Char)
    (u : Uri) (h : readAfterSlashes? scheme more cs = some u) : Kept base u := by
  rcases Option.bind_eq_some_iff.mp h with ⟨⟨a, rest⟩, _, h⟩
  rcases isPath_pathAfterAuthority (isSpecial scheme) rest with ⟨list, hlist, _⟩
  rw [← Option.some.inj h, hlist]
  exact Or.inl rfl

theorem kept_readFile? (base : Option Uri) (cs : List Char) (u : Uri)
    (h : readFile? base cs = some u) : Kept base u := by
  have hrooted : ∀ rest, (readFile?.rooted base rest).isHierarchical = true := by
    intro rest
    unfold readFile?.rooted
    split
    · split
      · rfl
      · split
        · split
          · rfl
          · rfl
        · rfl
    · rfl
  -- Only an empty text keeps the path of the base. Every other way ends in a path of segments.
  unfold readFile? at h
  split at h
  · split at h
    · rename_i b
      exact Or.inr ⟨b, rfl, (Option.some.inj h).symm⟩
    · rw [← Option.some.inj h]
      exact Or.inl rfl
  · split at h
    · split at h
      · split at h
        · rcases Option.bind_eq_some_iff.mp h with ⟨⟨host, tail⟩, _, h⟩
          rw [← Option.some.inj h]
          exact Or.inl rfl
        · rw [← Option.some.inj h]
          exact Or.inl (hrooted _)
      · rw [← Option.some.inj h]
        exact Or.inl (hrooted _)
    · split at h
      · rw [← Option.some.inj h]
        exact Or.inl rfl
      · split at h
        · rw [← Option.some.inj h]
          exact Or.inl rfl
        · rw [← Option.some.inj h]
          exact Or.inl rfl

theorem kept_readRelative? (base : Uri) (more : Bool) (cs : List Char) (u : Uri)
    (h : readRelative? base more cs = some u) : Kept (some base) u := by
  unfold readRelative? at h
  dsimp only at h
  split at h
  · exact Or.inr ⟨base, rfl, (Option.some.inj h).symm⟩
  · split at h
    · split at h
      · split at h
        · split at h
          · exact kept_readAfterSlashes? _ _ more _ u h
          · exact kept_readAfterSlashes? _ _ more _ u h
        · rw [← Option.some.inj h]
          exact Or.inl rfl
      · rw [← Option.some.inj h]
        exact Or.inl rfl
    · rw [← Option.some.inj h]
      exact Or.inl rfl

variable (base : Option Uri) (hbase : ∀ b, base = some b → b.IsSegmented)

include hbase

theorem isSegmented_readAbsolute? (scheme : String) (more : Bool) (cs : List Char) (u : Uri)
    (h : readAbsolute? base scheme more cs = some u) : u.IsSegmented := by
  unfold readAbsolute? at h
  split at h
  · refine isSegmented_of_kept base hbase u ?_
    rcases kept_readFile? _ cs u h with h | ⟨b, hb, heq⟩
    · exact Or.inl h
    · exact Or.inr ⟨b, (Option.filter_eq_some_iff.mp hb).1, heq⟩
  · split at h
    · dsimp only at h
      split at h
      · split at h
        · exact isSegmented_of_kept _ hbase u (kept_readRelative? _ more cs u h)
        · exact isSegmented_of_kept _ hbase u (kept_readAfterSlashes? _ scheme more _ u h)
      · exact isSegmented_of_kept _ hbase u (kept_readAfterSlashes? _ scheme more _ u h)
    · -- Only a scheme that is not special may have a path without segments.
      rename_i hordinary
      split at h
      · exact isSegmented_of_kept base hbase u (kept_readAfterSlashes? _ scheme more _ u h)
      · rw [← Option.some.inj h]
        exact fun _ => rfl
      · rw [← Option.some.inj h]
        exact fun hspecial => absurd hspecial hordinary

theorem isSegmented_readFront? (query fragment : Bool) (cs : List Char) (u : Uri)
    (h : readFront? base query fragment cs = some u) : u.IsSegmented := by
  unfold readFront? at h
  split at h
  · exact isSegmented_readAbsolute? base hbase _ _ _ u h
  · rcases Option.bind_eq_some_iff.mp h with ⟨b, hb, h⟩
    refine isSegmented_of_kept base hbase u ?_
    rw [hb]
    unfold readReference? at h
    split at h
    · exact Or.inr ⟨b, rfl, (Option.some.inj h).symm⟩
    · split at h
      · exact absurd h.symm (Option.some_ne_none u)
      · split at h
        · exact kept_readFile? _ cs u h
        · exact kept_readRelative? b _ cs u h

theorem isSegmented_readWith? (reference : String) (u : Uri)
    (h : readWith? base reference = some u) : u.IsSegmented := by
  rw [readWith?_eq] at h
  rcases Option.map_eq_some_iff.mp h with ⟨read, hread, rfl⟩
  exact isSegmented_readFront? base hbase _ _ _ read hread

end Segmented

/-- References lead from segmented URIs to segmented ones. -/
theorem isSegmented_resolve? (base : Uri) (hbase : base.IsSegmented) (reference : String) (u : Uri)
    (h : base.resolve? reference = some u) : u.IsSegmented := by
  unfold resolve? at h
  rw [Option.orElse_eq_or] at h
  rcases Option.or_eq_some_iff.mp h with h | ⟨_, h⟩
  · exact isSegmented_readWith? none (fun b hb => absurd hb.symm (Option.some_ne_none b)) _ u h
  · refine isSegmented_readWith? (some base) (fun b hb => ?_) _ u h
    rw [← Option.some.inj hb]
    exact hbase

section Documents

variable (base : Uri)

/-- The parts of a reference up to its path do not see the fragment of the base. -/
theorem readFront?_fragment (base : Uri) (f : Option String) (query fragment : Bool)
    (cs : List Char) :
    readFront? (some { base with fragment := f }) query fragment cs
      = readFront? (some base) query fragment cs := by
  have hfile : ∀ ds, readFile? (some { base with fragment := f }) ds = readFile? (some base) ds :=
    fun ds => rfl
  have hrelative : ∀ more ds,
      readRelative? { base with fragment := f } more ds = readRelative? base more ds :=
    fun more ds => rfl
  unfold readFront?
  split
  · unfold readAbsolute?
    split
    · rw [Option.filter_some, Option.filter_some]
      by_cases hscheme : base.scheme = "file"
      · rw [if_pos (beq_iff_eq.mpr hscheme), if_pos (beq_iff_eq.mpr hscheme), hfile]
      · rw [if_neg (fun h => hscheme (beq_iff_eq.mp h)), if_neg (fun h => hscheme (beq_iff_eq.mp h))]
    · rfl
  · rfl

/-- A special scheme has a path of segments, so another path means another scheme. -/
theorem not_isSpecial_of_rootless (hsegmented : base.IsSegmented)
    (hbase : base.isHierarchical = false) : isSpecial base.scheme = false := by
  rw [Bool.eq_false_iff]
  intro hspecial
  rw [hsegmented hspecial] at hbase
  exact absurd hbase.symm Bool.false_ne_true

/-- After a scheme only a base of the same special scheme matters. -/
theorem readAbsolute?_of_ordinary (hbase : isSpecial base.scheme = false) (scheme : String)
    (more : Bool) (cs : List Char) :
    readAbsolute? (some base) scheme more cs = readAbsolute? none scheme more cs := by
  unfold readAbsolute?
  split
  · have hother : base.scheme ≠ "file" := by
      intro hfile
      rw [hfile] at hbase
      exact absurd hbase (by decide)
    rw [Option.filter_some, if_neg (fun h => hother (beq_iff_eq.mp h))]
    rfl
  · split
    · rename_i hspecial
      dsimp only
      rw [if_neg]
      intro h
      rw [h.2, hspecial] at hbase
      exact absurd hbase.symm Bool.false_ne_true
    · rfl

/-- A base that is no sequence of segments admits a fragment alone. -/
theorem readFront?_rootless (hsegmented : base.IsSegmented) (hbase : base.isHierarchical = false)
    (query fragment : Bool) (cs : List Char) :
    readFront? (some base) query fragment cs
      = match splitScheme? cs with
        | some (scheme, rest) => readAbsolute? none scheme (query || fragment) rest
        | none =>
          if cs.isEmpty ∧ ¬ query ∧ fragment then some { base with fragment := none } else none := by
  have hordinary := not_isSpecial_of_rootless base hsegmented hbase
  unfold readFront?
  rcases splitScheme? cs with _ | ⟨scheme, rest⟩
  · dsimp only
    rw [Option.bind_some]
    unfold readReference?
    rw [hbase]
    rfl
  · exact readAbsolute?_of_ordinary base hordinary scheme _ rest

/-- A path of segments has no blanks at its end that a fragment could hide. -/
theorem document_of_isHierarchical (h : base.isHierarchical = true) :
    base.document = { base with fragment := none } := by
  unfold isHierarchical at h
  unfold document
  split at h
  · exact absurd h Bool.false_ne_true
  · rename_i list hlist
    rw [hlist]
    split
    · rfl
    · rfl

theorem isHierarchical_document (h : base.isHierarchical = false) :
    base.document.isHierarchical = false := by
  unfold isHierarchical at h ⊢
  unfold document
  split at h
  · rename_i text htext
    rw [htext]
    cases base.query with
    | none => rfl
    | some query => rfl
  · exact absurd h.symm Bool.false_ne_true

/-- The document of what a reference stands for depends on the document of the
    base alone. -/
theorem map_document_readWith? (hbase : base.IsSegmented) (reference : String) :
    (readWith? (some base.document) reference).map document
      = (readWith? (some base) reference).map document := by
  rw [readWith?_eq, readWith?_eq]
  dsimp only
  generalize splitMark '\x23' (clean reference.toList) = parts
  generalize splitMark '?' parts.1 = halves
  by_cases hpath : base.isHierarchical = true
  · -- A path of segments stays as it is, so only the fragment is gone.
    rw [document_of_isHierarchical base hpath, readFront?_fragment]
  · -- Otherwise the base is kept as a whole, or it does not matter at all.
    rw [Bool.not_eq_true] at hpath
    have hstripped := isHierarchical_document base hpath
    have hsegmented : base.document.IsSegmented := by
      intro hspecial
      rw [hbase hspecial] at hpath
      exact absurd hpath.symm Bool.false_ne_true
    rw [readFront?_rootless base hbase hpath, readFront?_rootless _ hsegmented hstripped]
    split
    · rfl
    · split
      · rename_i hempty
        have hquery : halves.2 = none := by
          rcases hquery : halves.2 with _ | cs
          · rfl
          · rw [hquery] at hempty
            exact absurd rfl hempty.2.1
        rw [hquery, Option.map_some, Option.map_some, Option.map_some, Option.map_some]
        exact congrArg some (document_document base)
      · rfl

theorem map_document_resolve? (hbase : base.IsSegmented) (reference : String) :
    (base.document.resolve? reference).map document
      = (base.resolve? reference).map document := by
  unfold resolve?
  rw [Option.orElse_eq_or, Option.orElse_eq_or]
  cases read? reference with
  | some u => rfl
  | none =>
      rw [Option.none_or, Option.none_or]
      exact map_document_readWith? base hbase reference

end Documents

theorem not_isLineOrTab_of_visible (c : Char) (h : 0x20 < c.toNat) : isLineOrTab c = false := by
  unfold isLineOrTab
  rw [Bool.or_eq_false_iff, Bool.or_eq_false_iff, beq_eq_false_iff_ne, beq_eq_false_iff_ne,
    beq_eq_false_iff_ne]
  refine ⟨⟨?_, ?_⟩, ?_⟩
  · rintro rfl
    exact absurd h (by decide)
  · rintro rfl
    exact absurd h (by decide)
  · rintro rfl
    exact absurd h (by decide)

/-- A reference that is a fragment alone sets the fragment of its base. -/
theorem resolve?_fragment (base : Uri) (text : String) (h : ∀ c ∈ text.toList, 0x20 < c.toNat) :
    base.resolve? ("\x23" ++ text) = some (base.withFragment text) := by
  have hlist : ("\x23" ++ text).toList = '\x23' :: text.toList := String.toList_append
  have hvisible : ∀ c ∈ '\x23' :: text.toList, 0x20 < c.toNat := by
    intro c hc
    rcases List.mem_cons.mp hc with rfl | hc
    · decide
    · exact h c hc
  have hline : ∀ c ∈ '\x23' :: text.toList, isLineOrTab c = false :=
    fun c hc => not_isLineOrTab_of_visible c (hvisible c hc)
  have hclean : clean ("\x23" ++ text).toList = '\x23' :: text.toList := by
    rw [hlist]
    exact clean_of_visible '\x23' text.toList (by decide)
      (endsVisibly_of_forall _ (List.cons_ne_nil _ _) hvisible) hline
  have hsplit : splitMark '\x23' ('\x23' :: text.toList) = ([], some text.toList) :=
    splitMark_append '\x23' [] text.toList List.not_mem_nil
  -- Nothing stands in front of the fragment, so there is no scheme, and the base is kept.
  have hfront : ∀ base : Option Uri,
      readFront? base false true [] = base.map fun b => { b with fragment := none } := by
    intro base
    cases base with
    | none => rfl
    | some b => rfl
  have hread : ∀ base : Option Uri, readWith? base ("\x23" ++ text)
      = base.map fun b => b.withFragment text := by
    intro base
    rw [readWith?_eq, hclean, hsplit]
    dsimp only
    rw [show splitMark '?' [] = ([], none) from rfl]
    dsimp only
    rw [show (none : Option (List Char)).isSome = false from rfl,
      show (some text.toList).isSome = true from rfl, hfront]
    cases base with
    | none => rw [Option.map_none, Option.map_none, Option.map_none]
    | some b =>
        rw [Option.map_some, Option.map_some, Option.map_some, Option.map_none, Option.none_or,
          Option.map_some, String.ofList_toList]
        rfl
  unfold resolve? read?
  rw [hread none, hread (some base)]
  rfl

end Uri

end OpenApi
