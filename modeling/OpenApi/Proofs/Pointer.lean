import OpenApi.Pointer
import OpenApi.Proofs.Text.Split

/-!
# Pointers One Segment Further

Pushing a segment on a pointer appends it to the segments of the pointer, even
if the segment holds slashes or tildes: the escaped segment has no slash, so the
pointer splits in the right place, and unescaping gives the segment back. So
looking up a pushed pointer is looking up the pointer first and then going down
by the segment.

Array places are written in canonical decimal by whoever counts them, and are
read back as the same place. Where the canonical reading succeeds, the lenient
reading gives the same place, so both ways of going down agree there.

## Theorems

* `unescape_escape`: An escaped segment is read back.
* `segments_push`, `push_injective`: The segments of a pushed pointer.
* `get?_push`: The value a pushed pointer names.
* `segments_foldl_push`, `get?_foldl_push`: The same for several segments.
* `canonicalIndex?_toString`, `eq_toString_of_canonicalIndex?`: Array places as
  they are written.
* `step?_of_canonicalStep?`: Going down by a canonical segment.
-/

namespace OpenApi

namespace Pointer

theorem unescapeChars_cons (c : Char) (hc : c ≠ '~') (cs : List Char) :
    unescapeChars (c :: cs) = c :: unescapeChars cs := by
  rw [unescapeChars]
  · rintro rest rfl
    exact absurd rfl hc
  · rintro rest rfl
    exact absurd rfl hc

theorem unescapeChars_escapeChars (cs : List Char) : unescapeChars (escapeChars cs) = cs := by
  induction cs with
  | nil => rfl
  | cons c rest ih =>
      unfold escapeChars at ih ⊢
      rw [List.flatMap_cons, escapeChar]
      by_cases htilde : c = '~'
      · rw [if_pos htilde, htilde]
        simp only [List.cons_append, List.nil_append, unescapeChars, ih]
      · rw [if_neg htilde]
        by_cases hslash : c = '/'
        · rw [if_pos hslash, hslash]
          simp only [List.cons_append, List.nil_append, unescapeChars, ih]
        · rw [if_neg hslash, List.singleton_append, unescapeChars_cons c htilde, ih]

theorem unescape_escape (segment : String) : unescape (escape segment) = segment := by
  rw [unescape, escape, String.toList_ofList, unescapeChars_escapeChars, String.ofList_toList]

theorem slash_not_mem_escapeChars (cs : List Char) : '/' ∉ escapeChars cs := by
  intro h
  rcases List.mem_flatMap.mp h with ⟨c, _, hc⟩
  unfold escapeChar at hc
  split at hc
  · simp only [List.mem_cons, List.not_mem_nil, or_false] at hc
    rcases hc with hc | hc
    · exact absurd hc (by decide)
    · exact absurd hc (by decide)
  · split at hc
    · simp only [List.mem_cons, List.not_mem_nil, or_false] at hc
      rcases hc with hc | hc
      · exact absurd hc (by decide)
      · exact absurd hc (by decide)
    · rename_i hslash
      exact hslash (List.mem_singleton.mp hc).symm

theorem toList_push (pointer segment : String) :
    (push pointer segment).toList = pointer.toList ++ '/' :: escapeChars segment.toList := by
  have hslash : "/".toList = ['/'] := rfl
  rw [push, escape, String.toList_append, String.toList_append, List.append_assoc, hslash,
    String.toList_ofList, List.singleton_append]

theorem segments_empty : segments "" = [] := rfl

/-- Pushing a segment appends it to the segments, whatever characters it has. -/
theorem segments_push (pointer segment : String) :
    segments (push pointer segment) = segments pointer ++ [segment] := by
  have hescaped : Text.splitBy (· == '/') (escapeChars segment.toList)
      = [escapeChars segment.toList] := by
    refine Text.splitBy_of_not_mem _ _ (fun c hc => ?_)
    rw [beq_eq_false_iff_ne]
    rintro rfl
    exact slash_not_mem_escapeChars segment.toList hc
  have hlength : 1 ≤ (Text.splitBy (· == '/') pointer.toList).length :=
    List.length_pos_iff.mpr (Text.splitBy_ne_nil _ _)
  unfold segments Text.splitAll
  rw [toList_push, Text.splitBy_append _ '/' rfl, hescaped, List.map_append,
    List.drop_append_of_le_length (by rwa [List.length_map]), List.map_append]
  simp only [List.map_cons, List.map_nil]
  rw [unescape, String.toList_ofList, unescapeChars_escapeChars, String.ofList_toList]

theorem segments_foldl_push (path : List String) :
    ∀ pointer, segments (path.foldl push pointer) = segments pointer ++ path := by
  induction path with
  | nil => exact fun pointer => (List.append_nil _).symm
  | cons segment rest ih =>
      intro pointer
      rw [List.foldl_cons, ih, segments_push, List.append_assoc, List.singleton_append]

theorem segments_foldl_push_empty (path : List String) :
    segments (path.foldl push "") = path := by
  rw [segments_foldl_push, segments_empty, List.nil_append]

theorem push_injective (pointer : String) : Function.Injective (push pointer) := by
  intro segment segment' h
  have hsegments := congrArg segments h
  rw [segments_push, segments_push] at hsegments
  exact (List.cons.inj (List.append_cancel_left hsegments)).1

/-- Looking up a pushed pointer goes one segment further down. -/
theorem get?_push (root : Json) (pointer segment : String) :
    get? root (push pointer segment)
      = (get? root pointer).bind fun value => canonicalStep? value segment := by
  unfold get?
  rw [toList_push, segments_push, List.foldlM_append]
  -- The pushed pointer starts with a slash exactly if the old one is empty or did so.
  rcases hpointer : pointer.toList with _ | ⟨c, cs⟩
  · rw [String.toList_eq_nil_iff.mp hpointer, segments_empty]
    simp only [List.nil_append, List.foldlM_nil, List.foldlM_cons, Option.bind_eq_bind,
      Option.pure_def, Option.bind_some, Option.bind_fun_some]
  · by_cases hc : c = '/'
    · rw [hc]
      simp only [List.cons_append, List.foldlM_nil, List.foldlM_cons, Option.bind_eq_bind,
        Option.pure_def, Option.bind_fun_some]
    · simp only [List.cons_append]
      split
      · rename_i heq
        exact absurd heq (List.cons_ne_nil _ _)
      · rename_i heq
        exact absurd (List.cons.inj heq).1 hc
      · split
        · rename_i heq
          exact absurd heq (List.cons_ne_nil _ _)
        · rename_i heq
          exact absurd (List.cons.inj heq).1 hc
        · rfl

theorem get?_foldl_push (root : Json) (path : List String) :
    ∀ pointer, get? root (path.foldl push pointer)
      = (get? root pointer).bind fun value => path.foldlM canonicalStep? value := by
  induction path with
  | nil => exact fun pointer => (Option.bind_fun_some (get? root pointer)).symm
  | cons segment rest ih =>
      intro pointer
      rw [List.foldl_cons, ih, get?_push, Option.bind_assoc]
      rfl

theorem decimal?_toDigits (i : Nat) : decimal? (Nat.toDigits 10 i) = some i := by
  have hdigits : (Nat.toDigits 10 i).all Char.isDigit = true :=
    List.all_eq_true.mpr fun c hc => Nat.isDigit_of_mem_toDigits (by decide) (by decide) hc
  have hne : (Nat.toDigits 10 i).isEmpty = false :=
    List.isEmpty_eq_false_iff.mpr Nat.toDigits_ne_nil
  unfold decimal?
  rw [hdigits, hne, if_neg (by decide), Option.some.injEq]
  have hfold := Nat.ofDigitChars_ten_toDigits (n := i)
  rwa [Nat.ofDigitChars_eq_foldl] at hfold

/-- Only zero is written with a leading zero. -/
theorem toDigits_eq_zero_cons (i : Nat) :
    ∀ cs, Nat.toDigits 10 i = '0' :: cs → cs = [] := by
  induction i using Nat.strongRecOn with
  | ind i ih =>
      intro cs h
      by_cases hi : i < 10
      · rw [Nat.toDigits_of_lt_base hi] at h
        exact (List.cons.inj h).2.symm
      · rw [Nat.toDigits_of_base_le (by decide) (by omega)] at h
        rcases hhead : Nat.toDigits 10 (i / 10) with _ | ⟨c, rest⟩
        · exact absurd hhead Nat.toDigits_ne_nil
        · rw [hhead, List.cons_append] at h
          rw [(List.cons.inj h).1] at hhead
          -- The number in front of the last digit would be written as zero, but is not zero.
          have hrest := ih (i / 10) (by omega) rest hhead
          rw [hrest] at hhead
          have hvalue := decimal?_toDigits (i / 10)
          rw [hhead] at hvalue
          have hzero : decimal? ['0'] = some 0 := by decide
          rw [hzero, Option.some.injEq] at hvalue
          omega

/-- An array place in canonical decimal is read back. -/
theorem canonicalIndex?_toString (i : Nat) : canonicalIndex? (toString i) = some i := by
  have hlist : (toString i).toList = Nat.toDigits 10 i := Nat.toList_repr
  unfold canonicalIndex?
  rw [hlist]
  split
  · rename_i c cs h
    exact absurd (toDigits_eq_zero_cons i _ h) (List.cons_ne_nil _ _)
  · exact decimal?_toDigits i

theorem toString_injective : Function.Injective (toString : Nat → String) := by
  intro i j h
  have hread := congrArg canonicalIndex? h
  rw [canonicalIndex?_toString, canonicalIndex?_toString] at hread
  exact Option.some.inj hread

/-- A digit is written as itself. -/
theorem digitChar_of_isDigit (c : Char) (h : c.isDigit = true) :
    c.toNat - 48 < 10 ∧ Nat.digitChar (c.toNat - 48) = c := by
  rw [Char.isDigit, Bool.and_eq_true, decide_eq_true_eq, decide_eq_true_eq] at h
  have hc : 48 ≤ c.toNat ∧ c.toNat ≤ 57 := h
  refine ⟨by omega, Char.toNat_inj.mp ?_⟩
  rw [Nat.toNat_digitChar_of_lt_ten (by omega)]
  omega

/-- Digits behind a number that is not zero are digits of a larger number. -/
theorem toDigits_foldl (cs : List Char) (hdigits : ∀ c ∈ cs, c.isDigit = true) :
    ∀ n, 0 < n → Nat.toDigits 10 (cs.foldl (fun n c => 10 * n + (c.toNat - 48)) n)
      = Nat.toDigits 10 n ++ cs := by
  induction cs with
  | nil =>
      intro n _
      rw [List.foldl_nil, List.append_nil]
  | cons c rest ih =>
      intro n hn
      rcases digitChar_of_isDigit c (hdigits c List.mem_cons_self) with ⟨hlt, hchar⟩
      rw [List.foldl_cons, ih (fun d hd => hdigits d (List.mem_cons_of_mem c hd)) _ (by omega),
        ← Nat.toDigits_append_toDigits (by decide) hn hlt, Nat.toDigits_of_lt_base hlt, hchar,
        List.append_assoc, List.singleton_append]

/-- Digits without a leading zero are the digits of the number they spell. -/
theorem toDigits_of_decimal? (cs : List Char) (i : Nat) (h : decimal? cs = some i)
    (hzero : ∀ d tail, cs ≠ '0' :: d :: tail) : Nat.toDigits 10 i = cs := by
  unfold decimal? at h
  split at h
  · exact absurd h (by simp only [reduceCtorEq, not_false_eq_true])
  · rename_i hdigits
    rw [not_or, Decidable.not_not] at hdigits
    rw [Option.some.injEq] at h
    cases cs with
    | nil => exact absurd rfl hdigits.1
    | cons c rest =>
        have hall := List.all_eq_true.mp hdigits.2
        rcases digitChar_of_isDigit c (hall c List.mem_cons_self) with ⟨hlt, hchar⟩
        have hvalue : '0'.toNat = 48 := rfl
        rw [hvalue, List.foldl_cons, Nat.mul_zero, Nat.zero_add] at h
        -- Only a zero that stands alone may be in front.
        by_cases hc : c.toNat - 48 = 0
        · cases rest with
          | nil =>
              rw [List.foldl_nil] at h
              rw [← h, Nat.toDigits_of_lt_base hlt, hchar]
          | cons d tail =>
              rw [hc] at hchar
              exact absurd (by rw [← hchar]; rfl) (hzero d tail)
        · rw [← h, toDigits_foldl rest (fun d hd => hall d (List.mem_cons_of_mem c hd)) _
            (by omega), Nat.toDigits_of_lt_base hlt, hchar, List.singleton_append]

/-- A canonical array place is written in one way only. -/
theorem eq_toString_of_canonicalIndex? (segment : String) (i : Nat)
    (h : canonicalIndex? segment = some i) : segment = toString i := by
  have hi : (toString i).toList = Nat.toDigits 10 i := Nat.toList_repr
  rw [← String.toList_inj, hi]
  unfold canonicalIndex? at h
  split at h
  · exact absurd h (by simp only [reduceCtorEq, not_false_eq_true])
  · rename_i hzero
    exact (toDigits_of_decimal? segment.toList i h fun d tail hd => hzero d tail hd).symm

/-- A canonical array place is one in the lenient reading too. -/
theorem index?_of_canonicalIndex? (segment : String) (i : Nat)
    (h : canonicalIndex? segment = some i) : index? segment = some i := by
  unfold canonicalIndex? at h
  unfold index?
  split at h
  · exact absurd h (by simp only [reduceCtorEq, not_false_eq_true])
  · split
    · rename_i cs hcs
      -- A plus sign is no digit, so there is no canonical reading.
      rw [hcs] at h
      unfold decimal? at h
      have hplus : ('+' :: cs).all Char.isDigit = false := rfl
      rw [hplus, if_pos (Or.inr Bool.false_ne_true)] at h
      exact absurd h (by simp only [reduceCtorEq, not_false_eq_true])
    · exact h

theorem step?_of_canonicalStep? (value : Json) (segment : String) (next : Json)
    (h : canonicalStep? value segment = some next) : step? value segment = some next := by
  unfold step? canonicalStep? at *
  cases value with
  | object members => exact h
  | array items =>
      rcases Option.bind_eq_some_iff.mp h with ⟨i, hi, hitem⟩
      exact Option.bind_eq_some_iff.mpr ⟨i, index?_of_canonicalIndex? segment i hi, hitem⟩
  | _ => exact absurd h (by simp only [stepBy?, reduceCtorEq, not_false_eq_true])

/-- Where both readings of a segment agree, so do both ways of going down. -/
theorem step?_eq_canonicalStep? (value : Json) (segment : String)
    (h : index? segment = canonicalIndex? segment) :
    step? value segment = canonicalStep? value segment := by
  unfold step? canonicalStep? stepBy?
  rw [h]

theorem index?_toString (i : Nat) : index? (toString i) = canonicalIndex? (toString i) := by
  have h := canonicalIndex?_toString i
  rw [h]
  exact index?_of_canonicalIndex? _ i h

theorem canonicalStep?_array (items : List Json) (i : Nat) :
    canonicalStep? (.array items) (toString i) = items[i]? := by
  unfold canonicalStep? stepBy?
  simp only [canonicalIndex?_toString, Option.bind_some]

end Pointer

end OpenApi
