import OpenApi.Text.Utf8

/-!
# UTF-8 Reads Back

The octets of a character are read as that character, whatever follows them. So
reading undoes writing.

Octets that no text produces are replaced, and reading goes on behind them. How
far they reach is decided by the octets that may continue a character, and the
first octet of a character is never one of those. So reading stops and starts
anew in front of every character that was written properly, whatever stands
before it, and a text with broken octets in between is read piece by piece. No
piece gives more characters than it has octets.

## Theorems

* `decode_encodeChar_append`: A written character is read back.
* `decode_encode`: A written text is read back.
* `decode_append_encodeChar`: Reading starts anew in front of a character.
* `length_decode_le`: There are no more characters than octets.
-/

namespace OpenApi

namespace Utf8

/-- The code points of characters: no surrogates, and none too large. -/
theorem toNat_bounds (c : Char) :
    c.toNat < 0xd800 ∨ (0xdfff < c.toNat ∧ c.toNat < 0x110000) := c.valid

theorem isTail_iff (b : Nat) : isTail b = true ↔ 0x80 ≤ b ∧ b ≤ 0xbf := by
  unfold isTail
  rw [Bool.and_eq_true, decide_eq_true_eq, decide_eq_true_eq]

theorem isSecond_iff (a b : Nat) :
    isSecond a b = true ↔ (0x80 ≤ b ∧ b ≤ 0xbf) ∧ (a = 0xe0 → 0xa0 ≤ b) ∧ (a = 0xed → b ≤ 0x9f)
      ∧ (a = 0xf0 → 0x90 ≤ b) ∧ (a = 0xf4 → b ≤ 0x8f) := by
  unfold isSecond
  split
  · rw [Bool.and_eq_true, decide_eq_true_eq, decide_eq_true_eq]
    omega
  · split
    · rw [Bool.and_eq_true, decide_eq_true_eq, decide_eq_true_eq]
      omega
    · split
      · rw [Bool.and_eq_true, decide_eq_true_eq, decide_eq_true_eq]
        omega
      · split
        · rw [Bool.and_eq_true, decide_eq_true_eq, decide_eq_true_eq]
          omega
        · rw [isTail_iff]
          omega

theorem decode_one (a : Nat) (rest : List Nat) (ha : a < 0x80) :
    decode (a :: rest) = Char.ofNat a :: decode rest := by
  rw [decode.eq_def]
  simp only [if_pos ha]

theorem decode_two (a b : Nat) (rest : List Nat) (ha : 0xc2 ≤ a ∧ a ≤ 0xdf)
    (hb : isTail b = true) :
    decode (a :: b :: rest) = Char.ofNat ((a - 0xc0) * 0x40 + (b - 0x80)) :: decode rest := by
  rw [decode.eq_def]
  simp only [if_neg (show ¬ a < 0x80 by omega), if_pos ha, if_pos hb]

theorem decode_three (a b c : Nat) (rest : List Nat) (ha : 0xe0 ≤ a ∧ a ≤ 0xef)
    (hb : isSecond a b = true) (hc : isTail c = true) :
    decode (a :: b :: c :: rest)
      = Char.ofNat ((a - 0xe0) * 0x1000 + (b - 0x80) * 0x40 + (c - 0x80)) :: decode rest := by
  rw [decode.eq_def]
  simp only [if_neg (show ¬ a < 0x80 by omega), if_neg (show ¬ (0xc2 ≤ a ∧ a ≤ 0xdf) by omega),
    if_pos ha, if_pos hb, if_pos hc]

theorem decode_four (a b c d : Nat) (rest : List Nat) (ha : 0xf0 ≤ a ∧ a ≤ 0xf4)
    (hb : isSecond a b = true) (hc : isTail c = true) (hd : isTail d = true) :
    decode (a :: b :: c :: d :: rest)
      = Char.ofNat ((a - 0xf0) * 0x40000 + (b - 0x80) * 0x1000 + (c - 0x80) * 0x40 + (d - 0x80))
        :: decode rest := by
  rw [decode.eq_def]
  simp only [if_neg (show ¬ a < 0x80 by omega), if_neg (show ¬ (0xc2 ≤ a ∧ a ≤ 0xdf) by omega),
    if_neg (show ¬ (0xe0 ≤ a ∧ a ≤ 0xef) by omega), if_pos ha, if_pos hb, if_pos hc, if_pos hd]

theorem decode_encodeChar_append (c : Char) (rest : List Nat) :
    decode (encodeChar c ++ rest) = c :: decode rest := by
  have hc := toNat_bounds c
  have hofNat : ∀ n, n = c.toNat → Char.ofNat n = c := by
    intro n hn
    rw [hn, Char.ofNat_toNat]
  unfold encodeChar
  dsimp only
  -- The size of the character decides on the first octet, and that on how many are read.
  by_cases h1 : c.toNat < 0x80
  · rw [if_pos h1, List.singleton_append, decode_one _ _ h1, hofNat _ rfl]
  · rw [if_neg h1]
    by_cases h2 : c.toNat < 0x800
    · rw [if_pos h2, List.cons_append, List.singleton_append, decode_two _ _ _ (by omega)
        ((isTail_iff _).mpr (by omega)), hofNat _ (by omega)]
    · rw [if_neg h2]
      by_cases h3 : c.toNat < 0x10000
      · rw [if_pos h3, List.cons_append, List.cons_append, List.singleton_append,
          decode_three _ _ _ _ (by omega) ((isSecond_iff _ _).mpr (by omega))
            ((isTail_iff _).mpr (by omega)), hofNat _ (by omega)]
      · rw [if_neg h3, List.cons_append, List.cons_append, List.cons_append, List.singleton_append,
          decode_four _ _ _ _ _ (by omega) ((isSecond_iff _ _).mpr (by omega))
            ((isTail_iff _).mpr (by omega)) ((isTail_iff _).mpr (by omega)), hofNat _ (by omega)]

theorem decode_encode_append (cs : List Char) (rest : List Nat) :
    decode (encode cs ++ rest) = cs ++ decode rest := by
  induction cs with
  | nil => rfl
  | cons c cs ih =>
      unfold encode at ih ⊢
      rw [List.flatMap_cons, List.append_assoc, decode_encodeChar_append, ih, List.cons_append]

theorem decode_encode (cs : List Char) : decode (encode cs) = cs := by
  have h := decode_encode_append cs []
  rwa [List.append_nil, decode, List.append_nil] at h

/-- No sequence that is being read takes up an octet that continues nothing. -/
theorem decode_append (as : List Nat) (b : Nat) (bs : List Nat) (hb : isTail b = false) :
    decode (as ++ b :: bs) = decode as ++ decode (b :: bs) := by
  have hsecond : ∀ a, isSecond a b = false := by
    intro a
    rw [Bool.eq_false_iff, ne_eq, isSecond_iff]
    rw [Bool.eq_false_iff, ne_eq, isTail_iff] at hb
    omega
  -- One case for each way a sequence goes on or breaks off, the last ones inside it.
  induction as using decode.induct
  case case1 => rfl
  all_goals
    simp only [List.cons_append, List.nil_append] at *
    rw [decode.eq_def]
    conv => rhs; arg 1; rw [decode.eq_def]
    simp only [*, if_true, if_false, Bool.false_eq_true, List.cons_append, List.nil_append,
      and_self]

/-- The first octet of a character continues none. -/
theorem encodeChar_head (c : Char) :
    ∃ b bs, encodeChar c = b :: bs ∧ isTail b = false := by
  have hc := toNat_bounds c
  have hhead : ∀ b, b < 0x80 ∨ 0xbf < b → isTail b = false := by
    intro b hb
    rw [Bool.eq_false_iff, ne_eq, isTail_iff]
    omega
  unfold encodeChar
  dsimp only
  split
  · exact ⟨_, _, rfl, hhead _ (by omega)⟩
  · split
    · exact ⟨_, _, rfl, hhead _ (by omega)⟩
    · split
      · exact ⟨_, _, rfl, hhead _ (by omega)⟩
      · exact ⟨_, _, rfl, hhead _ (by omega)⟩

/-- An octet in ASCII is the whole of its character. -/
theorem toNat_of_mem_encodeChar (c : Char) (b : Nat) (hb : b < 0x80) (h : b ∈ encodeChar c) :
    c.toNat = b := by
  unfold encodeChar at h
  dsimp only at h
  split at h
  · exact (List.mem_singleton.mp h).symm
  · split at h
    · simp only [List.mem_cons, List.not_mem_nil, or_false] at h
      omega
    · split at h
      · simp only [List.mem_cons, List.not_mem_nil, or_false] at h
        omega
      · simp only [List.mem_cons, List.not_mem_nil, or_false] at h
        omega

theorem decode_append_encodeChar (as : List Nat) (c : Char) (bs : List Nat) :
    decode (as ++ (encodeChar c ++ bs)) = decode as ++ c :: decode bs := by
  rw [← decode_encodeChar_append c bs]
  rcases encodeChar_head c with ⟨b, rest, hc, hb⟩
  rw [hc, List.cons_append, decode_append as b _ hb]

theorem length_decode_le (octets : List Nat) : (decode octets).length ≤ octets.length := by
  induction octets using decode.induct
  case case1 => exact Nat.le_refl _
  all_goals
    rw [decode.eq_def]
    simp only [*, if_true, if_false, Bool.false_eq_true, List.length_cons, and_self] at *
    try omega

end Utf8

end OpenApi
