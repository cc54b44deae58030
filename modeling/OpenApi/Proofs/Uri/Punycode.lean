import Mathlib.Data.List.TakeWhile
import Mathlib.Tactic.Ring
import OpenApi.Uri.Punycode

/-!
# Punycode Comes Back

Reading the ASCII form of a label gives the label, whatever characters it has.

The encoder goes through the values of the other characters in increasing order,
and for each of them through the whole label, counting the places it passes. The
decoder sees only the counts. What ties them together is that the decoder, having
read everything written so far, has put together the part of the label that the
encoder has passed: all characters of smaller values, and of the current value
those that come before the current place. The count since the last placed
character is then the distance between where the decoder stands and where the
encoder is, if the places between them are counted value by value.

Both sides adapt the digits to the distances. They agree on that because the
decoder can tell the first distance: nothing but basic characters is there yet.

## Main definitions

* `Punycode.below`: The characters of a label of small values.
* `Punycode.Follows`: Where the decoder is when it has read what is written.

## Theorems

* `readDistance?_distanceDigits`: A distance comes back from its digits.
* `follows_pass`: Passing the label for one value.
* `follows_placeAll`: Passing it for all values.
* `decode?_encode`: A label comes back.
* `mem_encode`: What the ASCII form consists of.
-/

namespace OpenApi

namespace Punycode

theorem threshold_bounds (k bias : Nat) : 1 ≤ threshold k bias ∧ threshold k bias ≤ 26 := by
  unfold threshold
  split
  · omega
  · split
    · omega
    · omega

theorem digitValue?_digit : ∀ d < 36, digitValue? (digit d) = some d := by decide

theorem digit_ne_hyphen : ∀ d < 36, digit d ≠ '-' := by decide

theorem distanceDigits_ne_nil (fuel bias k q : Nat) : distanceDigits (fuel + 1) bias k q ≠ [] := by
  unfold distanceDigits
  dsimp only
  split
  · exact List.cons_ne_nil _ _
  · exact List.cons_ne_nil _ _

theorem mem_distanceDigits (bias : Nat) (fuel : Nat) :
    ∀ k q c, c ∈ distanceDigits fuel bias k q → ∃ d < 36, c = digit d := by
  induction fuel with
  | zero => exact fun k q c h => absurd h List.not_mem_nil
  | succ fuel ih =>
      intro k q c h
      have ht := threshold_bounds k bias
      unfold distanceDigits at h
      dsimp only at h
      split at h
      · exact ⟨q, by omega, List.mem_singleton.mp h⟩
      · rcases List.mem_cons.mp h with rfl | hrest
        · have hmod := Nat.mod_lt (q - threshold k bias) (show 0 < 36 - threshold k bias by omega)
          exact ⟨_, by omega, rfl⟩
        · exact ih _ _ c hrest

/-- A distance is read as it was written, with the digits behind it left over. -/
theorem readDistance?_distanceDigits (bias : Nat) (fuel : Nat) :
    ∀ k weight sum q rest, q < fuel →
      readDistance? bias k weight sum (distanceDigits fuel bias k q ++ rest)
        = some (sum + q * weight, rest) := by
  induction fuel with
  | zero => exact fun k weight sum q rest h => absurd h (Nat.not_lt_zero q)
  | succ fuel ih =>
      intro k weight sum q rest h
      have ht := threshold_bounds k bias
      unfold distanceDigits
      dsimp only
      split
      · rename_i hlast
        simp only [List.singleton_append, readDistance?, digitValue?_digit q (by omega), if_pos hlast,
          Option.bind_eq_bind, Option.bind_some]
        rfl
      · rename_i hmore
        have hpos : 0 < 36 - threshold k bias := by omega
        have hmod := Nat.mod_lt (q - threshold k bias) hpos
        have hdiv := Nat.div_le_self (q - threshold k bias) (36 - threshold k bias)
        have hq := Nat.mod_add_div (q - threshold k bias) (36 - threshold k bias)
        simp only [List.cons_append, readDistance?, Option.bind_eq_bind,
          digitValue?_digit (threshold k bias + (q - threshold k bias) % (36 - threshold k bias))
            (by omega), Option.bind_some]
        rw [if_neg (by omega), ih _ _ _ _ _ (by omega)]
        -- The rest of the number weighs as much more as the digit leaves values.
        congr 2
        generalize (q - threshold k bias) % (36 - threshold k bias) = low at *
        generalize (q - threshold k bias) / (36 - threshold k bias) = high at *
        generalize 36 - threshold k bias = values at *
        have hsum : q = threshold k bias + low + high * values := by
          rw [Nat.mul_comm] at hq
          omega
        rw [hsum]
        ring

/-- The characters of a label whose values are below a bound. -/
def below (n : Nat) (label : List Char) : List Char := label.filter fun c => decide (c.toNat < n)

/-- When the decoder has read what is written, it has put together `label`, and
    the distance from where it stands is the one up to `place` and the value `n`. -/
structure Follows (basic : List Char) (p : Progress) (label : List Char) (n place : Nat)
    (steps m i : Nat) : Prop where
  /-- What the decoder makes of what is written. -/
  reads : ∀ fuel rest, readAll? (steps + fuel) basic 0x80 0 72 (p.written ++ rest)
    = readAll? fuel label m i p.bias rest
  /-- There is at least one digit for every distance. -/
  steps_le : steps ≤ p.written.length
  /-- The decoder does not run ahead. -/
  value_le : m ≤ n
  /-- The distance, counted value by value. -/
  distance : i + p.delta = (n - m) * (label.length + 1) + place
  /-- The encoder counts the characters. -/
  placed : p.placed = label.length
  /-- Whether anything was placed is seen on both sides. -/
  first : (p.placed = basic.length ∧ m = 0x80 ∧ i = 0 ∧ label = basic)
    ∨ (basic.length < p.placed ∧ ∃ c ∈ label, 0x80 ≤ c.toNat)

section Passing

variable (basic : List Char) (p : Progress) (label : List Char) (n place steps m i : Nat)
  (h : Follows basic p label n place steps m i)

include h

/-- A place is passed. -/
theorem follows_skip : Follows basic { p with delta := p.delta + 1 } label n (place + 1) steps m i :=
  { h with distance := by rw [← Nat.add_assoc, h.distance, Nat.add_assoc] }

/-- The last place is passed, and the next value is considered. -/
theorem follows_next (hplace : place = label.length) :
    Follows basic { p with delta := p.delta + 1 } label (n + 1) 0 steps m i :=
  { h with
    value_le := Nat.le_succ_of_le h.value_le
    distance := by
      have hle := h.value_le
      rw [← Nat.add_assoc, h.distance, hplace, Nat.succ_sub hle, Nat.succ_mul]
      omega }

/-- Values that no character has are passed. -/
theorem follows_advance (hplace : place = 0) (n' : Nat) (hn : n ≤ n') :
    Follows basic { p with delta := p.delta + (n' - n) * (p.placed + 1) } label n' 0 steps m i :=
  { h with
    value_le := h.value_le.trans hn
    distance := by
      have hle := h.value_le
      have hsplit : n' - m = (n - m) + (n' - n) := by omega
      rw [← Nat.add_assoc, h.distance, h.placed, hplace, hsplit, Nat.add_mul]
      omega }

/-- The decoder sees from the text alone whether a character is the first one that
    is placed. -/
theorem isFirst_of_follows (hn : 0x80 ≤ n) (hdiv : (i + p.delta) / (label.length + 1) = n - m)
    (hbasic : ∀ c ∈ basic, c.toNat < 0x80) :
    (i == 0 && n == 0x80 + p.delta / (label.length + 1)
      && label.all fun c => decide (c.toNat < 0x80)) = (p.placed == basic.length) := by
  rcases h.first with ⟨hplaced, hm, hi, hlabel⟩ | ⟨hplaced, c', hc', hlarge⟩
  · rw [hi, Nat.zero_add] at hdiv
    rw [hdiv, hi, hplaced, hlabel]
    have hall : (basic.all fun c => decide (c.toNat < 0x80)) = true :=
      List.all_eq_true.mpr fun c hc => decide_eq_true (hbasic c hc)
    rw [hall]
    simp only [beq_self_eq_true, Bool.true_and, Bool.and_true, beq_iff_eq]
    omega
  · have hall : (label.all fun c => decide (c.toNat < 0x80)) = false := by
      rw [List.all_eq_false]
      exact ⟨c', hc', by simpa only [decide_eq_true_eq, Nat.not_lt] using hlarge⟩
    rw [hall, Bool.and_false, Eq.comm, beq_eq_false_iff_ne]
    omega

/-- A character is placed: its distance is written, and read as its place. -/
theorem follows_place (c : Char) (hc : c.toNat = n) (hn : 0x80 ≤ n) (hplace : place ≤ label.length)
    (hbasic : ∀ c ∈ basic, c.toNat < 0x80) :
    Follows basic ⟨p.written ++ distanceDigits (p.delta + 1) p.bias 36 p.delta, 0,
        adapt p.delta (p.placed + 1) (p.placed == basic.length), p.placed + 1⟩
      (label.take place ++ c :: label.drop place) n (place + 1) (steps + 1) n (place + 1) where
  reads fuel rest := by
    have hle := h.value_le
    -- The decoder divides by the number of places.
    have hdiv : (i + p.delta) / (label.length + 1) = n - m := by
      rw [h.distance, Nat.mul_comm, Nat.mul_add_div (Nat.succ_pos _),
        Nat.div_eq_of_lt (Nat.lt_succ_of_le hplace), Nat.add_zero]
    have hmod : (i + p.delta) % (label.length + 1) = place := by
      rw [h.distance, Nat.mul_comm, Nat.mul_add_mod, Nat.mod_eq_of_lt (Nat.lt_succ_of_le hplace)]
    have hvalue : m + (n - m) = n := Nat.add_sub_cancel' hle
    have hbound : ¬ 0x10ffff < n := by
      have := c.valid
      rw [← hc]
      rcases this with hlow | hhigh
      · exact Nat.not_lt.mpr (Nat.le_trans (Nat.le_of_lt hlow) (by decide))
      · exact Nat.not_lt.mpr (Nat.le_of_lt_succ hhigh.2)
    have hfirst := isFirst_of_follows basic p label n place steps m i h hn hdiv hbasic
    have hnonempty : distanceDigits (p.delta + 1) p.bias 36 p.delta ++ rest ≠ [] := by
      intro hnil
      exact distanceDigits_ne_nil p.delta p.bias 36 p.delta (List.append_eq_nil_iff.mp hnil).1
    have hread := readDistance?_distanceDigits p.bias (p.delta + 1) 36 1 0 p.delta rest
      (Nat.lt_succ_self _)
    rw [Nat.zero_add, Nat.mul_one] at hread
    rw [List.append_assoc, Nat.add_assoc, Nat.add_comm 1 fuel, h.reads (fuel + 1)]
    rw [readAll?.eq_3 _ _ _ _ _ _ hnonempty, hread]
    simp only [Option.bind_eq_bind, Option.bind_some, hdiv, hmod, hvalue, if_neg hbound, hfirst]
    rw [h.placed, ← hc, Char.ofNat_toNat]
  steps_le := by
    have hdigits : 0 < (distanceDigits (p.delta + 1) p.bias 36 p.delta).length :=
      List.length_pos_iff.mpr (distanceDigits_ne_nil p.delta p.bias 36 p.delta)
    have hle := h.steps_le
    rw [List.length_append]
    omega
  value_le := Nat.le_refl n
  distance := by rw [Nat.sub_self, Nat.zero_mul, Nat.zero_add, Nat.add_zero]
  placed := by
    have hplaced := h.placed
    rw [List.length_append, List.length_cons, List.length_take, List.length_drop,
      Nat.min_eq_left hplace]
    dsimp only
    omega
  first := by
    refine Or.inr ⟨?_, c, List.mem_append_right _ List.mem_cons_self, hc ▸ hn⟩
    rcases h.first with ⟨hplaced, _⟩ | ⟨hplaced, _⟩
    · exact Nat.lt_succ_of_le (Nat.le_of_eq hplaced.symm)
    · exact Nat.lt_succ_of_lt hplaced

end Passing

theorem below_append (n : Nat) (as bs : List Char) : below n (as ++ bs) = below n as ++ below n bs :=
  List.filter_append as bs

theorem below_cons_of_lt (n : Nat) (c : Char) (cs : List Char) (h : c.toNat < n) :
    below n (c :: cs) = c :: below n cs :=
  List.filter_cons_of_pos (decide_eq_true h)

theorem below_cons_of_le (n : Nat) (c : Char) (cs : List Char) (h : n ≤ c.toNat) :
    below n (c :: cs) = below n cs :=
  List.filter_cons_of_neg (by simpa only [decide_eq_true_eq, Nat.not_lt] using h)

/-- One value: what is passed is there up to this value, and what is ahead is
    there below it. -/
theorem follows_pass (basic : List Char) (hbasic : ∀ c ∈ basic, c.toNat < 0x80) (n : Nat)
    (hn : 0x80 ≤ n) (ahead : List Char) :
    ∀ (passed : List Char) (p : Progress) (steps m i : Nat),
      Follows basic p (below (n + 1) passed ++ below n ahead) n (below (n + 1) passed).length
        steps m i →
      ∃ steps' m' i', Follows basic (ahead.foldl (passChar basic.length n) p)
        (below (n + 1) (passed ++ ahead)) n (below (n + 1) (passed ++ ahead)).length steps' m' i' := by
  induction ahead with
  | nil =>
      intro passed p steps m i h
      rw [List.append_nil, List.foldl_nil]
      exact ⟨steps, m, i, by simpa only [below, List.filter_nil, List.append_nil] using h⟩
  | cons c ahead ih =>
      intro passed p steps m i h
      have hpassed : ∀ label, label = below (n + 1) (passed ++ [c]) ++ below n ahead →
          ∀ place, place = (below (n + 1) (passed ++ [c])).length → ∀ p steps m i,
            Follows basic p label n place steps m i →
              ∃ steps' m' i', Follows basic (ahead.foldl (passChar basic.length n) p)
                (below (n + 1) (passed ++ c :: ahead)) n (below (n + 1) (passed ++ c :: ahead)).length
                steps' m' i' := by
        intro label hlabel place hplace p steps m i h
        have hnext := ih (passed ++ [c]) p steps m i (by rwa [← hlabel, ← hplace])
        rwa [List.append_assoc, List.singleton_append] at hnext
      rw [List.foldl_cons]
      unfold passChar
      -- A smaller character is there already and is skipped, an equal one is placed now, and a
      -- larger one is not there yet.
      rcases Nat.lt_trichotomy c.toNat n with hlt | heq | hgt
      · rw [if_pos hlt]
        rw [below_cons_of_lt n c ahead hlt] at h
        refine hpassed _ ?_ _ ?_ _ _ _ _ (follows_skip basic p _ n _ steps m i h)
        · rw [below_append, below_cons_of_lt (n + 1) c [] (Nat.lt_succ_of_lt hlt), List.append_assoc]
          rfl
        · rw [below_append, below_cons_of_lt (n + 1) c [] (Nat.lt_succ_of_lt hlt), List.length_append]
          rfl
      · rw [if_neg (Nat.not_lt.mpr (Nat.le_of_eq heq.symm)), if_pos heq]
        rw [below_cons_of_le n c ahead (Nat.le_of_eq heq.symm)] at h
        have hlt : c.toNat < n + 1 := Nat.lt_succ_of_le (Nat.le_of_eq heq)
        refine hpassed _ ?_ _ ?_ _ _ _ _ (follows_place basic p _ n _ steps m i h c heq hn
          (by rw [List.length_append]; exact Nat.le_add_right _ _) hbasic)
        · rw [List.take_left, List.drop_left, below_append, below_cons_of_lt (n + 1) c [] hlt,
            List.append_assoc]
          rfl
        · rw [below_append, below_cons_of_lt (n + 1) c [] hlt, List.length_append]
          rfl
      · rw [if_neg (Nat.not_lt.mpr (Nat.le_of_lt hgt)), if_neg (Nat.ne_of_gt hgt)]
        rw [below_cons_of_le n c ahead (Nat.le_of_lt hgt)] at h
        refine hpassed _ ?_ _ ?_ _ _ _ _ h
        · rw [below_append, below_cons_of_le (n + 1) c [] hgt, List.append_assoc]
          rfl
        · rw [below_append, below_cons_of_le (n + 1) c [] hgt, List.length_append]
          rfl

theorem below_congr (n n' : Nat) (label : List Char)
    (h : ∀ c ∈ label, c.toNat < n ↔ c.toNat < n') : below n label = below n' label :=
  List.filter_congr fun c hc => decide_eq_decide.mpr (h c hc)

theorem below_eq_self (n : Nat) (label : List Char) (h : ∀ c ∈ label, c.toNat < n) :
    below n label = label :=
  List.filter_eq_self.mpr fun c hc => decide_eq_true (h c hc)

/-- All values: in the end the decoder has the whole label. -/
theorem follows_placeAll (basic : List Char) (hbasic : ∀ c ∈ basic, c.toNat < 0x80)
    (label : List Char) (values : List Nat) :
    ∀ (reached : Nat) (p : Progress) (steps m i : Nat), values.Pairwise (· < ·) →
      (∀ n ∈ values, reached ≤ n) → 0x80 ≤ reached →
      (∀ c ∈ label, c.toNat < reached ∨ c.toNat ∈ values) →
      Follows basic p (below reached label) reached 0 steps m i →
      ∃ n place steps' m' i',
        Follows basic (placeAll label basic.length values reached p) label n place steps' m' i' := by
  induction values with
  | nil =>
      intro reached p steps m i _ _ _ hvalues h
      rw [below_eq_self reached label fun c hc => (hvalues c hc).resolve_right List.not_mem_nil] at h
      exact ⟨reached, 0, steps, m, i, h⟩
  | cons n rest ih =>
      intro reached p steps m i hsorted hreached hlarge hvalues h
      have hn : reached ≤ n := hreached n List.mem_cons_self
      have hlater := List.pairwise_cons.mp hsorted
      -- No character of the label has a value between the one reached and the next one.
      have hsame : below reached label = below n label := by
        refine below_congr reached n label fun c hc => ⟨fun hlt => Nat.lt_of_lt_of_le hlt hn, ?_⟩
        intro hlt
        rcases hvalues c hc with hdone | hopen
        · exact hdone
        · rcases List.mem_cons.mp hopen with heq | hopen
          · exact absurd heq (Nat.ne_of_lt hlt)
          · exact absurd (hlater.1 _ hopen) (Nat.lt_asymm hlt)
      have hstart := follows_advance basic p _ reached 0 steps m i h rfl n hn
      rw [hsame] at hstart
      rcases follows_pass basic hbasic n (hlarge.trans hn) label [] _ steps m i hstart with
        ⟨steps', m', i', hend⟩
      refine ih (n + 1) _ steps' m' i' hlater.2 (fun k hk => hlater.1 k hk) (by omega) ?_
        (follows_next basic _ _ n _ steps' m' i' hend rfl)
      intro c hc
      rcases hvalues c hc with hdone | hopen
      · exact Or.inl (by omega)
      · rcases List.mem_cons.mp hopen with heq | hopen
        · exact Or.inl (by omega)
        · exact Or.inr hopen

theorem mem_insertOnce (n m : Nat) (ns : List Nat) : m ∈ insertOnce n ns ↔ m = n ∨ m ∈ ns := by
  induction ns with
  | nil => simp only [insertOnce, List.mem_singleton, List.not_mem_nil, or_false]
  | cons k rest ih =>
      unfold insertOnce
      split
      · exact List.mem_cons
      · split
        · rename_i hsame
          rw [hsame, List.mem_cons]
          exact ⟨Or.inr, fun h => h.elim Or.inl id⟩
        · rw [List.mem_cons, ih, List.mem_cons]
          exact or_left_comm

theorem pairwise_insertOnce (n : Nat) (ns : List Nat) (h : ns.Pairwise (· < ·)) :
    (insertOnce n ns).Pairwise (· < ·) := by
  induction ns with
  | nil => exact List.pairwise_singleton _ n
  | cons k rest ih =>
      have hrest := List.pairwise_cons.mp h
      unfold insertOnce
      split
      · rename_i hlt
        refine List.pairwise_cons.mpr ⟨fun j hj => ?_, h⟩
        rcases List.mem_cons.mp hj with rfl | hj
        · exact hlt
        · exact hlt.trans (hrest.1 j hj)
      · split
        · exact h
        · refine List.pairwise_cons.mpr ⟨fun j hj => ?_, ih hrest.2⟩
          rcases (mem_insertOnce n j rest).mp hj with rfl | hj
          · omega
          · exact hrest.1 j hj

/-- The values that are to be placed, in order. -/
theorem values_insertOnce (cs : List Char) :
    ∀ ns : List Nat, ns.Pairwise (· < ·) →
      (cs.foldl (fun ns c => insertOnce c.toNat ns) ns).Pairwise (· < ·)
        ∧ ∀ m, m ∈ cs.foldl (fun ns c => insertOnce c.toNat ns) ns
          ↔ m ∈ ns ∨ ∃ c ∈ cs, c.toNat = m := by
  induction cs with
  | nil =>
      intro ns h
      exact ⟨h, fun m => by simp only [List.foldl_nil, List.not_mem_nil, false_and, exists_false,
        or_false]⟩
  | cons c rest ih =>
      intro ns h
      rcases ih (insertOnce c.toNat ns) (pairwise_insertOnce _ ns h) with ⟨hsorted, hmem⟩
      refine ⟨hsorted, fun m => ?_⟩
      rw [List.foldl_cons, hmem, mem_insertOnce]
      constructor
      · rintro ((rfl | hm) | ⟨d, hd, rfl⟩)
        · exact Or.inr ⟨c, List.mem_cons_self, rfl⟩
        · exact Or.inl hm
        · exact Or.inr ⟨d, List.mem_cons_of_mem c hd, rfl⟩
      · rintro (hm | ⟨d, hd, rfl⟩)
        · exact Or.inl (Or.inr hm)
        · rcases List.mem_cons.mp hd with rfl | hd
          · exact Or.inl (Or.inl rfl)
          · exact Or.inr ⟨d, hd, rfl⟩

/-- What an encoder writes are digits. -/
theorem mem_written (label : List Char) (count : Nat) (values : List Nat) :
    ∀ (reached : Nat) (p : Progress), (∀ c ∈ p.written, ∃ d < 36, c = digit d) →
      ∀ c ∈ (placeAll label count values reached p).written, ∃ d < 36, c = digit d := by
  have hpass : ∀ (n : Nat) (cs : List Char) (p : Progress),
      (∀ c ∈ p.written, ∃ d < 36, c = digit d) →
        ∀ c ∈ (cs.foldl (passChar count n) p).written, ∃ d < 36, c = digit d := by
    intro n cs
    induction cs with
    | nil => exact fun p h => h
    | cons c cs ih =>
        intro p h
        -- Only a character that is placed adds digits, namely those of its distance.
        refine ih _ (fun d hd => ?_)
        unfold passChar at hd
        split at hd
        · exact h d hd
        · split at hd
          · rcases List.mem_append.mp hd with hd | hd
            · exact h d hd
            · exact mem_distanceDigits _ _ _ _ d hd
          · exact h d hd
  induction values with
  | nil => exact fun reached p h => h
  | cons n rest ih => exact fun reached p h => ih _ _ (hpass n label _ h)

/-- The digits an encoder writes behind the basic characters. -/
def digits (label : List Char) : List Char :=
  (placeAll label (below 0x80 label).length
    ((label.filter fun c => decide (0x80 ≤ c.toNat)).foldl (fun ns c => insertOnce c.toNat ns) [])
    0x80 ⟨[], 0, 72, (below 0x80 label).length⟩).written

theorem mem_digits (label : List Char) (c : Char) (h : c ∈ digits label) : ∃ d < 36, c = digit d :=
  mem_written label _ _ _ _ (fun _ hc => absurd hc List.not_mem_nil) c h

theorem encode_eq (label : List Char) :
    encode label = (if (below 0x80 label).isEmpty then [] else below 0x80 label ++ ['-'])
      ++ digits label := rfl

/-- The digits alone lead from the basic characters to the label. -/
theorem readAll?_digits (label : List Char) (fuel : Nat) (hfuel : (digits label).length ≤ fuel) :
    readAll? fuel (below 0x80 label) 0x80 0 72 (digits label) = some label := by
  have hbasic : ∀ c ∈ below 0x80 label, c.toNat < 0x80 :=
    fun c hc => of_decide_eq_true (List.mem_filter.mp hc).2
  rcases values_insertOnce (label.filter fun c => decide (0x80 ≤ c.toNat)) [] List.Pairwise.nil with
    ⟨hsorted, hmem⟩
  -- Both sides start with the basic characters, and the encoder has written nothing.
  have hstart : Follows (below 0x80 label) ⟨[], 0, 72, (below 0x80 label).length⟩
      (below 0x80 label) 0x80 0 0 0x80 0 :=
    { reads := fun fuel rest => by rw [Nat.zero_add, List.nil_append]
      steps_le := Nat.le_refl 0
      value_le := Nat.le_refl _
      distance := by rw [Nat.sub_self, Nat.zero_mul]
      placed := rfl
      first := Or.inl ⟨rfl, rfl, rfl, rfl⟩ }
  have hlarge : ∀ n ∈ (label.filter fun c => decide (0x80 ≤ c.toNat)).foldl
      (fun ns c => insertOnce c.toNat ns) [], 0x80 ≤ n := by
    intro n hn
    rcases (hmem n).mp hn with hn | ⟨c, hc, rfl⟩
    · exact absurd hn List.not_mem_nil
    · exact of_decide_eq_true (List.mem_filter.mp hc).2
  have hvalues : ∀ c ∈ label, c.toNat < 0x80 ∨
      c.toNat ∈ (label.filter fun c => decide (0x80 ≤ c.toNat)).foldl
        (fun ns c => insertOnce c.toNat ns) [] := by
    intro c hc
    rcases Nat.lt_or_ge c.toNat 0x80 with hlt | hge
    · exact Or.inl hlt
    · exact Or.inr ((hmem _).mpr
        (Or.inr ⟨c, List.mem_filter.mpr ⟨hc, decide_eq_true hge⟩, rfl⟩))
  rcases follows_placeAll (below 0x80 label) hbasic label _ 0x80 _ 0 0x80 0 hsorted hlarge
    (Nat.le_refl _) hvalues hstart with ⟨n, place, steps, m, i, hend⟩
  have hreads := hend.reads (fuel - steps) []
  have hsteps : steps ≤ (digits label).length := hend.steps_le
  rw [List.append_nil, Nat.add_sub_cancel' (hsteps.trans hfuel), readAll?] at hreads
  exact hreads

/-- A label comes back from its ASCII form. -/
theorem decode?_encode (label : List Char) : decode? (encode label) = some label := by
  have hno : ∀ c ∈ (digits label).reverse, (c != '-') = true := by
    intro c hc
    rcases mem_digits label c (List.mem_reverse.mp hc) with ⟨d, hd, rfl⟩
    exact bne_iff_ne.mpr (digit_ne_hyphen d hd)
  have hread := readAll?_digits label (encode label).length (by
    rw [encode_eq, List.length_append]
    exact Nat.le_add_left _ _)
  unfold decode?
  dsimp only
  rw [encode_eq] at hread ⊢
  by_cases hempty : (below 0x80 label).isEmpty = true
  · rw [if_pos hempty, List.nil_append] at hread ⊢
    rw [List.takeWhile_eq_self_iff.mpr hno, List.dropWhile_eq_nil_iff.mpr hno, List.reverse_reverse]
    rw [List.isEmpty_iff.mp hempty] at hread
    exact hread
  · -- The last hyphen is the one that was added, since no digit is a hyphen.
    rw [if_neg hempty] at hread ⊢
    rw [List.append_assoc, List.reverse_append, List.singleton_append, List.reverse_cons,
      List.append_assoc, List.singleton_append]
    rw [List.takeWhile_append_of_pos hno, List.dropWhile_append_of_pos hno]
    rw [List.takeWhile_cons_of_neg (by decide), List.dropWhile_cons_of_neg (by decide),
      List.append_nil, List.reverse_reverse, List.drop_one, List.tail_cons, List.reverse_reverse]
    rwa [List.append_assoc, List.singleton_append] at hread

/-- The ASCII form consists of the basic characters of the label, hyphens and digits. -/
theorem mem_encode (label : List Char) (c : Char) (h : c ∈ encode label) :
    (c ∈ label ∧ c.toNat < 0x80) ∨ c = '-' ∨ ∃ d < 36, c = digit d := by
  rw [encode_eq] at h
  rcases List.mem_append.mp h with h | h
  · split at h
    · exact absurd h List.not_mem_nil
    · rcases List.mem_append.mp h with h | h
      · rcases List.mem_filter.mp h with ⟨hc, hsmall⟩
        exact Or.inl ⟨hc, of_decide_eq_true hsmall⟩
      · exact Or.inr (Or.inl (List.mem_singleton.mp h))
  · exact Or.inr (Or.inr (mem_digits label c h))

end Punycode

end OpenApi
