import OpenApi.Text.Split

/-!
# Splitting and Joining

Joining parts by a separator and splitting at the separators are inverse to each
other where the parts hold none, and the parts that come from splitting never do.

## Theorems

* `span_append`, `dropWhile_ne_cases`: Reading up to a character.
* `splitBy_append`: A separator ends a part.
* `stop_of_mem_splitBy`: The parts hold no separators.
* `intercalate_splitBy`: The parts of a text make the text.
* `splitBy_intercalate`: Joined parts come back.
* `mem_intercalate`: What joined parts consist of.
-/

namespace OpenApi

namespace Text

/-- What is kept up to the first character that is not kept, and what is left there. -/
theorem span_append (keep : Char → Bool) (cs rest : List Char) (hcs : ∀ c ∈ cs, keep c = true)
    (hrest : ∀ c tail, rest = c :: tail → keep c = false) :
    (cs ++ rest).takeWhile keep = cs ∧ (cs ++ rest).dropWhile keep = rest := by
  rw [List.takeWhile_append_of_pos hcs, List.dropWhile_append_of_pos hcs]
  cases rest with
  | nil => exact ⟨List.append_nil cs, rfl⟩
  | cons c tail =>
      have hstop : ¬ keep c = true := Bool.eq_false_iff.mp (hrest c tail rfl)
      rw [List.takeWhile_cons_of_neg hstop, List.dropWhile_cons_of_neg hstop, List.append_nil]
      exact ⟨rfl, rfl⟩

theorem span_append_cons (keep : Char → Bool) (c : Char) (hc : keep c = false) (cs : List Char)
    (hcs : ∀ d ∈ cs, keep d = true) (rest : List Char) :
    (cs ++ c :: rest).takeWhile keep = cs ∧ (cs ++ c :: rest).dropWhile keep = c :: rest := by
  refine span_append keep cs (c :: rest) hcs fun d tail h => ?_
  rw [← (List.cons.inj h).1, hc]

/-- What is left at the first place where a character stands begins with it. -/
theorem dropWhile_ne_cases (c : Char) (cs : List Char) :
    cs.dropWhile (· != c) = [] ∨ ∃ rest, cs.dropWhile (· != c) = c :: rest := by
  induction cs with
  | nil => exact Or.inl rfl
  | cons d rest ih =>
      rw [List.dropWhile_cons]
      by_cases hd : d = c
      · rw [hd, bne_self_eq_false, if_neg Bool.false_ne_true]
        exact Or.inr ⟨rest, rfl⟩
      · rw [if_pos (bne_iff_ne.mpr hd)]
        exact ih

theorem splitBy_ne_nil (stop : Char → Bool) (cs : List Char) : splitBy stop cs ≠ [] := by
  cases cs with
  | nil => exact List.cons_ne_nil _ _
  | cons c rest =>
      unfold splitBy
      split
      · exact List.cons_ne_nil _ _
      · split
        · exact List.cons_ne_nil _ _
        · exact List.cons_ne_nil _ _

/-- A separator ends a part, whatever stands around it. -/
theorem splitBy_append (stop : Char → Bool) (c : Char) (hc : stop c = true) (cs ds : List Char) :
    splitBy stop (cs ++ c :: ds) = splitBy stop cs ++ splitBy stop ds := by
  induction cs with
  | nil =>
      rcases hds : splitBy stop ds with _ | ⟨part, parts⟩
      · exact absurd hds (splitBy_ne_nil stop ds)
      · simp only [List.nil_append, splitBy, hds, hc, if_true, List.singleton_append]
  | cons first rest ih =>
      rcases hrest : splitBy stop rest with _ | ⟨part, parts⟩
      · exact absurd hrest (splitBy_ne_nil stop rest)
      · rw [hrest, List.cons_append] at ih
        simp only [List.cons_append, splitBy, ih, hrest]
        split
        · rfl
        · rfl

theorem splitBy_of_not_mem (stop : Char → Bool) (cs : List Char)
    (h : ∀ c ∈ cs, stop c = false) : splitBy stop cs = [cs] := by
  induction cs with
  | nil => rfl
  | cons first rest ih =>
      have hfirst := h first List.mem_cons_self
      have hrest := ih fun c hc => h c (List.mem_cons_of_mem first hc)
      simp only [splitBy, hrest, hfirst, Bool.false_eq_true, if_false]

/-- The parts hold no separators. -/
theorem stop_of_mem_splitBy (stop : Char → Bool) (cs part : List Char)
    (hpart : part ∈ splitBy stop cs) : ∀ c ∈ part, stop c = false ∧ c ∈ cs := by
  induction cs generalizing part with
  | nil =>
      intro c hc
      rw [splitBy, List.mem_singleton] at hpart
      exact absurd (hpart ▸ hc) List.not_mem_nil
  | cons first rest ih =>
      intro c hc
      rcases hrest : splitBy stop rest with _ | ⟨next, parts⟩
      · exact absurd hrest (splitBy_ne_nil stop rest)
      · rw [hrest] at ih
        have hlater : ∀ part, part ∈ next :: parts → c ∈ part → stop c = false ∧ c ∈ first :: rest :=
          fun part hpart hc => (ih part hpart c hc).imp_right (List.mem_cons_of_mem first)
        rw [splitBy, hrest] at hpart
        dsimp only at hpart
        -- A separator opens an empty part, and any other character goes into the next one.
        by_cases hstop : stop first = true
        · rw [if_pos hstop] at hpart
          rcases List.mem_cons.mp hpart with rfl | hpart
          · exact absurd hc List.not_mem_nil
          · exact hlater part hpart hc
        · rw [if_neg hstop] at hpart
          rcases List.mem_cons.mp hpart with rfl | hpart
          · rcases List.mem_cons.mp hc with rfl | hc
            · exact ⟨Bool.eq_false_iff.mpr hstop, List.mem_cons_self⟩
            · exact hlater next List.mem_cons_self hc
          · exact hlater part (List.mem_cons_of_mem next hpart) hc

/-- The parts of a text with their separators in front again. -/
theorem flatMap_splitBy (separator : Char) (cs : List Char) :
    (splitBy (· == separator) cs).flatMap (fun part => separator :: part) = separator :: cs := by
  induction cs with
  | nil => rfl
  | cons c rest ih =>
      rw [splitBy]
      rcases hrest : splitBy (· == separator) rest with _ | ⟨part, parts⟩
      · exact absurd hrest (splitBy_ne_nil _ _)
      · rw [hrest, List.flatMap_cons, List.cons_append, List.cons.injEq] at ih
        dsimp only
        by_cases hc : (c == separator) = true
        · rw [if_pos hc, List.flatMap_cons, List.flatMap_cons, List.cons_append, List.cons_append,
            ih.2, beq_iff_eq.mp hc]
          rfl
        · rw [if_neg hc, List.flatMap_cons, List.cons_append, List.cons_append, ih.2]

theorem cons_intercalate (separator : Char) (parts : List (List Char)) (hne : parts ≠ []) :
    separator :: [separator].intercalate parts = parts.flatMap (fun part => separator :: part) := by
  induction parts with
  | nil => exact absurd rfl hne
  | cons part rest ih =>
      rcases rest with _ | ⟨next, rest⟩
      · rw [List.intercalate_singleton, List.flatMap_singleton]
      · have hrest := ih (List.cons_ne_nil next rest)
        rw [List.intercalate_cons_cons, List.append_assoc, List.singleton_append, hrest,
          ← List.cons_append]
        exact List.flatMap_cons.symm

/-- The parts of a text make the text when they are joined again. -/
theorem intercalate_splitBy (separator : Char) (cs : List Char) :
    [separator].intercalate (splitBy (· == separator) cs) = cs := by
  have hjoined := cons_intercalate separator _ (splitBy_ne_nil (· == separator) cs)
  rw [flatMap_splitBy] at hjoined
  exact (List.cons.inj hjoined).2

/-- Parts without separators come back when they are joined by one. -/
theorem splitBy_intercalate (stop : Char → Bool) (c : Char) (hc : stop c = true)
    (parts : List (List Char)) (hne : parts ≠ [])
    (h : ∀ part ∈ parts, ∀ d ∈ part, stop d = false) :
    splitBy stop ([c].intercalate parts) = parts := by
  induction parts with
  | nil => exact absurd rfl hne
  | cons part rest ih =>
      have hpart := splitBy_of_not_mem stop part (h part List.mem_cons_self)
      rcases rest with _ | ⟨next, rest⟩
      · rw [List.intercalate_singleton, hpart]
      · have hrest := ih (List.cons_ne_nil _ _) fun p hp => h p (List.mem_cons_of_mem part hp)
        rw [List.intercalate_cons_cons, List.append_assoc, List.singleton_append,
          splitBy_append stop c hc, hpart, hrest]
        rfl

theorem exists_intercalate (separator c : Char) (cs : List Char) (parts : List (List Char)) :
    ∃ tail, [separator].intercalate ((c :: cs) :: parts) = c :: tail := by
  cases parts with
  | nil => exact ⟨cs, List.intercalate_singleton⟩
  | cons next rest => exact ⟨_, List.intercalate_cons_cons⟩

/-- Only a single empty part leaves nothing. -/
theorem intercalate_ne_nil (separator : Char) (parts : List (List Char)) (hne : parts ≠ [])
    (hfilled : parts ≠ [[]]) : [separator].intercalate parts ≠ [] := by
  rcases parts with _ | ⟨part, rest⟩
  · exact absurd rfl hne
  · rcases rest with _ | ⟨next, rest⟩
    · rw [List.intercalate_singleton]
      rintro rfl
      exact hfilled rfl
    · rw [List.intercalate_cons_cons, List.append_assoc]
      exact List.append_ne_nil_of_right_ne_nil part (List.cons_ne_nil separator _)

theorem mem_intercalate (separator : Char) (parts : List (List Char)) (c : Char)
    (h : c ∈ [separator].intercalate parts) : c = separator ∨ ∃ part ∈ parts, c ∈ part := by
  induction parts with
  | nil => exact absurd h List.not_mem_nil
  | cons part rest ih =>
      rcases rest with _ | ⟨next, rest⟩
      · rw [List.intercalate_singleton] at h
        exact Or.inr ⟨part, List.mem_cons_self, h⟩
      · rw [List.intercalate_cons_cons, List.append_assoc, List.mem_append] at h
        rcases h with h | h
        · exact Or.inr ⟨part, List.mem_cons_self, h⟩
        · rcases List.mem_cons.mp h with rfl | h
          · exact Or.inl rfl
          · rcases ih h with rfl | ⟨p, hp, hc⟩
            · exact Or.inl rfl
            · exact Or.inr ⟨p, List.mem_cons_of_mem part hp, hc⟩

end Text

end OpenApi
