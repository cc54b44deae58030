import OpenApi.Proofs.Pointer
import OpenApi.Proofs.Text.Replace

/-!
# Segments as They Are Written

Escaping replaces tildes before slashes. The tildes that stand for slashes come after the
tildes of the segment are gone, so each character is written on its own and two replacements
are one pass over the characters.

Unescaping replaces back in the opposite order, slashes first. That is one pass as well: a
slash put down by the first replacement neither completes an escaped tilde nor breaks one, so
the second replacement finds the escaped tildes that were there. In the other order a tilde
put down by one replacement could start an escaped slash for the next.

Hence written segments are read back, and paths that are built segment by segment are read
back as lists of segments.

## Theorems

* `escape_eq_replace`, `unescape_eq_replace`: Both as replacements in strings.
* `exists_written`: A path starts with a slash, and its segments stand behind it.
* `foldl_push_injective`: Different segments make different paths.
* `segments_written`: What is written is read back, segments and paths.
-/

namespace OpenApi

namespace Pointer

theorem escapeChars_eq_substitute (cs : List Char) :
    escapeChars cs
      = Text.substitute ['/'] ['~', '1'] (Text.substitute ['~'] ['~', '0'] cs) := by
  have hchar : escapeChar = fun c =>
      (if c = '~' then ['~', '0'] else [c]).flatMap fun d =>
        if d = '/' then ['~', '1'] else [d] := by
    funext c
    rw [escapeChar]
    by_cases htilde : c = '~'
    · -- What is put for a tilde has no slash.
      rw [if_pos htilde, if_pos htilde]
      rfl
    · rw [if_neg htilde, if_neg htilde, List.flatMap_singleton]
  rw [Text.substitute_singleton, Text.substitute_singleton, List.flatMap_assoc, escapeChars, hchar]

/-- Slashes that are put back are no zeros, so a zero in front was there before. -/
theorem zero_prefix_of_substitute (cs : List Char)
    (h : ['0'] <+: Text.substitute ['~', '1'] ['/'] cs) : ['0'] <+: cs := by
  cases cs with
  | nil => rwa [Text.substitute_nil] at h
  | cons c rest =>
      by_cases hfront : ['~', '1'] <+: c :: rest
      · rcases hfront with ⟨tail, htail⟩
        rw [← htail, Text.substitute_append _ _ (List.cons_ne_nil _ _)] at h
        exact absurd (List.cons_prefix_cons.mp h).1 (by decide)
      · rw [Text.substitute_cons _ _ _ _ hfront] at h
        exact List.cons_prefix_cons.mpr ⟨(List.cons_prefix_cons.mp h).1, List.nil_prefix⟩

theorem unescapeChars_eq_substitute (cs : List Char) :
    unescapeChars cs
      = Text.substitute ['~', '0'] ['~'] (Text.substitute ['~', '1'] ['/'] cs) := by
  induction cs using unescapeChars.induct with
  | case1 => rw [unescapeChars, Text.substitute_nil, Text.substitute_nil]
  | case2 rest ih =>
      -- The first replacement passes over an escaped tilde, and the second replaces it.
      have htilde : ¬ ['~', '1'] <+: '~' :: '0' :: rest := fun h =>
        absurd (List.cons_prefix_cons.mp (List.cons_prefix_cons.mp h).2).1 (by decide)
      have hzero : ¬ ['~', '1'] <+: '0' :: rest := fun h =>
        absurd (List.cons_prefix_cons.mp h).1 (by decide)
      rw [unescapeChars, ih, Text.substitute_cons _ _ _ _ htilde,
        Text.substitute_cons _ _ _ _ hzero]
      exact (Text.substitute_append ['~', '0'] ['~'] (List.cons_ne_nil _ _) _).symm
  | case3 rest ih =>
      have hfirst := Text.substitute_append ['~', '1'] ['/'] (List.cons_ne_nil _ _) rest
      have hslash : ¬ ['~', '0'] <+: '/' :: Text.substitute ['~', '1'] ['/'] rest := fun h =>
        absurd (List.cons_prefix_cons.mp h).1 (by decide)
      rw [List.cons_append, List.singleton_append, List.singleton_append] at hfirst
      rw [unescapeChars, ih, hfirst, Text.substitute_cons _ _ _ _ hslash]
  | case4 c rest h0 h1 ih =>
      have hone : ¬ ['~', '1'] <+: c :: rest := by
        rintro ⟨tail, htail⟩
        exact h1 tail (List.cons.inj htail).1.symm (List.cons.inj htail).2.symm
      have hzero : ¬ ['~', '0'] <+: c :: Text.substitute ['~', '1'] ['/'] rest := by
        intro h
        rcases List.cons_prefix_cons.mp h with ⟨hc, h⟩
        rcases zero_prefix_of_substitute rest h with ⟨tail, htail⟩
        exact h0 tail hc.symm htail.symm
      rw [unescapeChars, ih, Text.substitute_cons _ _ _ _ hone,
        Text.substitute_cons _ _ _ _ hzero]
      · exact h0
      · exact h1

/-- In the other order an escaped tilde before a one would be read as a slash. -/
example : unescapeChars ['~', '0', '1'] = ['~', '1']
    ∧ Text.substitute ['~', '1'] ['/'] (Text.substitute ['~', '0'] ['~'] ['~', '0', '1'])
      = ['/'] :=
  ⟨by decide, by cbv⟩

theorem escape_eq_replace (segment : String) :
    escape segment = (segment.replace '~' "~0").replace '/' "~1" := by
  rw [← String.toList_inj, Text.toList_replace_char, Text.toList_replace_char, escape,
    String.toList_ofList, escapeChars_eq_substitute]
  rfl

theorem unescape_eq_replace (written : String) :
    unescape written = (written.replace "~1" "/").replace "~0" "~" := by
  rw [← String.toList_inj, Text.toList_replace _ _ _ (by decide),
    Text.toList_replace _ _ _ (by decide), unescape, String.toList_ofList,
    unescapeChars_eq_substitute]
  rfl

theorem exists_foldl_push (path : List String) :
    ∀ pointer, ∃ rest, path.foldl push pointer = pointer ++ rest := by
  induction path with
  | nil => exact fun pointer => ⟨"", String.append_empty.symm⟩
  | cons segment path ih =>
      intro pointer
      rcases ih (push pointer segment) with ⟨rest, hrest⟩
      refine ⟨"/" ++ escape segment ++ rest, ?_⟩
      rw [List.foldl_cons, hrest, push, String.append_assoc, String.append_assoc,
        String.append_assoc]

theorem segments_slash_append (written : String) :
    segments ("/" ++ written) = (Text.splitAll '/' written).map unescape := by
  have hslash : ("/" ++ written).toList = [] ++ '/' :: written.toList := String.toList_append
  unfold segments Text.splitAll
  rw [hslash, Text.splitBy_append _ '/' rfl]
  rfl

/-- A path that has segments starts with a slash, and they stand behind it. -/
theorem exists_written (segment : String) (path : List String) :
    ∃ written, (segment :: path).foldl push "" = "/" ++ written
      ∧ (Text.splitAll '/' written).map unescape = segment :: path := by
  rcases exists_foldl_push path (push "" segment) with ⟨rest, hrest⟩
  have hpath : (segment :: path).foldl push "" = "/" ++ (escape segment ++ rest) := by
    rw [List.foldl_cons, hrest, push, String.empty_append, String.append_assoc]
  refine ⟨escape segment ++ rest, hpath, ?_⟩
  rw [← segments_slash_append, ← hpath, segments_foldl_push_empty]

theorem foldl_push_injective (pointer : String) :
    Function.Injective fun path : List String => path.foldl push pointer := by
  intro path path' h
  have hsegments := congrArg segments h
  dsimp only at hsegments
  rw [segments_foldl_push, segments_foldl_push] at hsegments
  exact List.append_cancel_left hsegments

/-- What is written is read back. A segment is written by replacing its tildes and then its
    slashes, and read by replacing the slashes back and then the tildes; the reading undoes the
    writing, so different segments are written differently. A path is empty or starts with a
    slash; split at its other slashes and with each piece read, it gives the segments it was
    built from, so different segments make different paths, whatever they start from. -/
theorem segments_written :
    (∀ segment : String, escape segment = (segment.replace '~' "~0").replace '/' "~1")
      ∧ (∀ written : String, unescape written = (written.replace "~1" "/").replace "~0" "~")
      ∧ Function.LeftInverse unescape escape
      ∧ Function.Injective escape
      ∧ (∀ path : List String, segments (path.foldl push "") = path)
      ∧ (∀ (segment : String) (path : List String), ∃ written,
          (segment :: path).foldl push "" = "/" ++ written
            ∧ (Text.splitAll '/' written).map unescape = segment :: path)
      ∧ ∀ pointer : String,
          Function.Injective fun path : List String => path.foldl push pointer := by
  have hread : Function.LeftInverse unescape escape := unescape_escape
  exact ⟨escape_eq_replace, unescape_eq_replace, hread, hread.injective,
    segments_foldl_push_empty, exists_written, foldl_push_injective⟩

end Pointer

end OpenApi
