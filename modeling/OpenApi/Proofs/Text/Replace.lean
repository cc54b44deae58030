/-!
# Replacing Inside Text

Replacing one text by another goes over the characters once: at an occurrence the new
characters are put down and the search goes on behind it, and any other character is
copied. `Text.substitute` is that recursion on lists of characters.

The string functions search by steps over positions, each either a match or a stretch
without one. A stretch is copied character by character because nothing matches at any
of its positions, so the steps leave what the recursion leaves, whether the pattern is
a text or a single character.

## Main definitions

* `Text.substitute`: A text with every occurrence of another one replaced.

## Theorems

* `substitute_append`, `substitute_cons`: One step of a replacement.
* `substitute_singleton`: Replacing a single character.
* `toList_foldl_steps`: The text that the steps of a search leave.
* `toList_replace`, `toList_replace_char`: Replacement in strings.
-/

namespace OpenApi

namespace Text

open String.Slice.Pattern String.Slice.Pattern.Model

/-- A text with every occurrence of `old` replaced by `new`. The occurrences are taken from
    the left and do not overlap, and what replaces one is not searched again. -/
def substitute (old new : List Char) : List Char → List Char
  | [] => []
  | c :: rest =>
    if old <+: c :: rest then new ++ substitute old new (rest.drop (old.length - 1))
    else c :: substitute old new rest
  termination_by cs => cs.length
  decreasing_by
    · rw [List.length_drop, List.length_cons]
      omega
    · exact Nat.lt_succ_self rest.length

theorem substitute_nil (old new : List Char) : substitute old new [] = [] := by
  rw [substitute]

/-- An occurrence in front is replaced, and the search goes on behind it. -/
theorem substitute_append (old new : List Char) (hold : old ≠ []) (rest : List Char) :
    substitute old new (old ++ rest) = new ++ substitute old new rest := by
  cases old with
  | nil => exact absurd rfl hold
  | cons c cs =>
      rw [List.cons_append, substitute, ← List.cons_append,
        if_pos (List.prefix_append (c :: cs) rest), List.length_cons, Nat.add_sub_cancel,
        List.drop_left]

/-- Without an occurrence in front, the first character stays. -/
theorem substitute_cons (old new : List Char) (c : Char) (rest : List Char)
    (h : ¬ old <+: c :: rest) :
    substitute old new (c :: rest) = c :: substitute old new rest := by
  rw [substitute, if_neg h]

/-- Occurrences of a single character cannot overlap, so each character is on its own. -/
theorem substitute_singleton (c : Char) (new cs : List Char) :
    substitute [c] new cs = cs.flatMap fun d => if d = c then new else [d] := by
  induction cs with
  | nil => exact substitute_nil [c] new
  | cons d rest ih =>
      rw [List.flatMap_cons, ← ih]
      by_cases hd : d = c
      · rw [if_pos hd, hd]
        exact substitute_append [c] new (List.cons_ne_nil c []) rest
      · have hfront : ¬ [c] <+: d :: rest := fun h => hd (List.cons_prefix_cons.mp h).1.symm
        rw [if_neg hd, substitute_cons [c] new d rest hfront, List.singleton_append]

section Search

/-! What is looked for is given by a pattern that matches one text only. -/

variable {ρ : Type} (pattern : ρ) [PatternModel pattern] (old : String)
  (hold : ∀ text, PatternModel.Matches pattern text ↔ text = old)
include hold

theorem matchesAt_of_starts {s : String.Slice} (pos : s.Pos)
    (h : old.toList <+: (s.sliceFrom pos).copy.toList) : MatchesAt pattern pos := by
  obtain ⟨tail, htail⟩ := h
  have hcopy : (s.sliceFrom pos).copy = old ++ String.ofList tail := by
    rw [← String.toList_inj, String.toList_append, String.toList_ofList, htail]
  have hsplits := String.Slice.Pos.splits_ofEqAppend hcopy
  rw [matchesAt_iff_exists_isMatch]
  refine ⟨String.Slice.Pos.ofSliceFrom (String.Slice.Pos.ofEqAppend hcopy),
    String.Slice.Pos.le_ofSliceFrom, ?_⟩
  rw [String.Slice.Pos.sliceFrom_ofSliceFrom, isMatch_iff, hold, hsplits.copy_sliceTo_eq]

theorem toList_sliceFrom_of_isLongestMatchAt {s : String.Slice} {start stop : s.Pos}
    (h : IsLongestMatchAt pattern start stop) :
    (s.sliceFrom start).copy.toList = old.toList ++ (s.sliceFrom stop).copy.toList := by
  have hslice := (hold _).mp h.matches_slice
  rcases String.Slice.copy_slice_eq_iff_splits.mp ⟨h.le, hslice⟩ with ⟨_, _, hstart, hstop⟩
  rw [hstart.copy_sliceFrom_eq, hstop.copy_sliceFrom_eq, String.toList_append]

/-- A stretch without matches is copied. -/
theorem substitute_sliceFrom (new : List Char) {s : String.Slice} (start stop : s.Pos)
    (hle : start ≤ stop) (hno : ∀ pos, start ≤ pos → pos < stop → ¬ MatchesAt pattern pos) :
    substitute old.toList new (s.sliceFrom start).copy.toList
      = (s.slice start stop hle).copy.toList
        ++ substitute old.toList new (s.sliceFrom stop).copy.toList := by
  -- By induction on the distance to the end: each position moves on by one character.
  induction start using WellFounded.induction String.Slice.Pos.wellFounded_gt with
  | h start ih =>
      rcases Std.le_iff_lt_or_eq.mp hle with hlt | rfl
      · have hend := String.Slice.Pos.ne_endPos_of_lt hlt
        have hnext := (start.splits_next_right hend).copy_sliceFrom_eq
        have hfront : ¬ old.toList <+: (s.sliceFrom start).copy.toList := fun h =>
          hno start (Std.le_refl _) hlt (matchesAt_of_starts pattern old hold start h)
        have hrest := ih (start.next hend) String.Slice.Pos.lt_next
          (String.Slice.Pos.next_le_of_lt hlt)
          fun pos hpos => hno pos (Std.le_trans (Std.le_of_lt String.Slice.Pos.lt_next) hpos)
        rw [hnext, String.toList_append, String.toList_singleton, List.singleton_append]
          at hfront ⊢
        rw [substitute_cons _ _ _ _ hfront, hrest, String.Slice.copy_slice_eq_append_of_lt hlt,
          String.toList_append, String.toList_singleton, List.singleton_append, List.cons_append]
      · rw [String.Slice.copy_slice_self, String.toList_empty, List.nil_append]

/-- The text that the steps of a search leave when `new` is put for a match and all else is
    copied. -/
theorem toList_foldl_steps (new : String) (hne : old ≠ "") {s : String.Slice}
    (put : String → SearchStep s → String)
    (hmatched : ∀ done start stop, put done (.matched start stop) = done ++ new)
    (hrejected : ∀ done start stop,
      put done (.rejected start stop) = done ++ (s.slice! start stop).copy)
    (steps : List (SearchStep s)) (pos : s.Pos) (h : IsValidSearchFrom pattern pos steps) :
    ∀ done, (steps.foldl put done).toList
      = done.toList ++ substitute old.toList new.toList (s.sliceFrom pos).copy.toList := by
  induction h with
  | endPos =>
      intro done
      rw [String.Slice.copy_sliceFrom_endPos, String.toList_empty, substitute_nil,
        List.foldl_nil, List.append_nil]
  | matched hmatch _ ih =>
      intro done
      have hchars : old.toList ≠ [] := fun h => hne (String.toList_eq_nil_iff.mp h)
      rw [List.foldl_cons, ih, hmatched,
        toList_sliceFrom_of_isLongestMatchAt pattern old hold hmatch,
        substitute_append _ _ hchars, String.toList_append, List.append_assoc]
  | mismatched hlt hno _ ih =>
      intro done
      have hle := Std.le_of_lt hlt
      rw [List.foldl_cons, ih, hrejected, ← String.Slice.slice_eq_slice! (h := hle),
        substitute_sliceFrom pattern old hold new.toList _ _ hle hno, String.toList_append,
        List.append_assoc]

variable {σ : String.Slice → Type} [∀ s, Std.Iterator (σ s) Id (SearchStep s)]
  [∀ s, Std.Iterators.Finite (σ s) Id] [∀ s, Std.IteratorLoop (σ s) Id Id]
  [∀ s, Std.LawfulIteratorLoop (σ s) Id Id] [ToForwardSearcher pattern σ]
  [LawfulToForwardSearcherModel pattern]

theorem toList_replace_of_matches (hne : old ≠ "") (text new : String) :
    (text.replace pattern new).toList = substitute old.toList new.toList text.toList := by
  have hsearch : IsValidSearchFrom pattern text.toSlice.startPos
      (ToForwardSearcher.toSearcher pattern text.toSlice).toList :=
    LawfulToForwardSearcherModel.isValidSearchFrom_toList text.toSlice
  have hwhole : (text.toSlice.sliceFrom text.toSlice.startPos).copy = text := by
    rw [String.Slice.sliceFrom_startPos, String.copy_toSlice]
  unfold String.replace String.Slice.replace
  rw [← Std.Iter.foldl_toList,
    toList_foldl_steps pattern old hold new hne _ (fun done _ _ => ?_) (fun _ _ _ => ?_) _ _ hsearch,
    hwhole, String.toList_empty, List.nil_append]
  · change done ++ new.toSlice = done ++ new
    rw [String.appendSlice_eq, String.copy_toSlice]
  · exact String.appendSlice_eq

end Search

theorem toList_replace (text old new : String) (hold : old ≠ "") :
    (text.replace old new).toList = substitute old.toList new.toList text.toList := by
  -- Only a text that is not empty is searched for by its characters.
  have hlawful := ForwardStringSearcher.lawfulToForwardSearcherModel hold
  exact toList_replace_of_matches old old (fun _ => Iff.rfl) hold text new

theorem toList_replace_char (text new : String) (c : Char) :
    (text.replace c new).toList = substitute [c] new.toList text.toList := by
  have hne : String.singleton c ≠ "" := String.singleton_ne_empty
  rw [toList_replace_of_matches c (String.singleton c) (fun _ => Iff.rfl) hne,
    String.toList_singleton]

end Text

end OpenApi
