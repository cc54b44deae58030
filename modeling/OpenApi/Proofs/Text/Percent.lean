import OpenApi.Proofs.Text.Utf8
import OpenApi.Text.Percent

/-!
# What Percent Encoding Keeps

Encoding replaces characters by triples and leaves percent signs as they are. So
the triples of an encoded text are the ones that encoding made and the ones that
were there before, and reading cannot tell them apart. Reading an encoded text
therefore gives what reading the text itself would have given, and that is the
text itself exactly when it holds no triple: a triple of three characters is
never read as more than one.

This needs the set of encoded characters to spare the percent sign and the
hexadecimal digits, which all sets of places in a URI do. For the same reason
encoding a second time changes nothing.

## Main definitions

* `Percent.startsTriple`, `Percent.hasTriple`: Triples in a text.
* `Percent.Spares`: A set without the characters of triples.

## Theorems

* `induction_on_triples`: Induction over triples and single characters.
* `octets_encode`: Encoding does not change what is read.
* `decode_eq_iff`: What is read as itself.
* `encode_encode`: Encoding twice.
-/

namespace OpenApi

namespace Percent

/-- Whether a text starts with a percent sign and two hexadecimal digits. -/
def startsTriple : List Char → Bool
  | c :: high :: low :: _ => c == '%' && (octet? high low).isSome
  | _ => false

/-- Whether there is a percent sign with two hexadecimal digits behind it. -/
def hasTriple : List Char → Bool
  | [] => false
  | c :: rest => startsTriple (c :: rest) || hasTriple rest

/-- A set of characters to be encoded that no triple has characters from. -/
structure Spares (special : Char → Bool) : Prop where
  /-- The percent sign is not encoded. -/
  percent : special '%' = false
  /-- Hexadecimal digits are not encoded. -/
  digit : ∀ c, (hexValue? c).isSome = true → special c = false

theorem toNat_of_hexValue? (c : Char) (h : (hexValue? c).isSome = true) : c.toNat < 0x80 := by
  have hle : ∀ d : Char, c ≤ d → c.toNat ≤ d.toNat := fun d hd => hd
  unfold hexValue? at h
  split at h
  · rename_i hdigit
    have := hle '9' hdigit.2
    exact Nat.lt_of_le_of_lt this (by decide)
  · split at h
    · rename_i hlower
      have := hle 'f' hlower.2
      exact Nat.lt_of_le_of_lt this (by decide)
    · split at h
      · rename_i hupper
        have := hle 'F' hupper.2
        exact Nat.lt_of_le_of_lt this (by decide)
      · exact absurd h Bool.false_ne_true

/-- A property of ASCII characters can be checked one by one. -/
theorem of_ascii (P : Char → Prop) (h : ∀ n < 0x80, P (Char.ofNat n)) (c : Char)
    (hc : c.toNat < 0x80) : P c := by
  have hn := h c.toNat hc
  rwa [Char.ofNat_toNat] at hn

/-- It is enough to look at the characters of ASCII. -/
theorem spares_of_ascii (special : Char → Bool) (hpercent : special '%' = false)
    (hdigit : ∀ n < 0x80, (hexValue? (Char.ofNat n)).isSome = true → special (Char.ofNat n) = false) :
    Spares special where
  percent := hpercent
  digit c hc := of_ascii (fun c => (hexValue? c).isSome = true → special c = false) hdigit c
    (toNat_of_hexValue? c hc) hc

theorem hexValue?_upperHex : ∀ n < 16, hexValue? (upperHex n) = some n := by decide

theorem isSome_of_octet? (high low : Char) (octet : Nat) (h : octet? high low = some octet) :
    (hexValue? high).isSome = true ∧ (hexValue? low).isSome = true := by
  rcases Option.bind_eq_some_iff.mp h with ⟨a, ha, hrest⟩
  rcases Option.bind_eq_some_iff.mp hrest with ⟨b, hb, _⟩
  exact ⟨Option.isSome_iff_exists.mpr ⟨a, ha⟩, Option.isSome_iff_exists.mpr ⟨b, hb⟩⟩

theorem startsTriple_of_ne (c : Char) (rest : List Char) (h : c ≠ '%') :
    startsTriple (c :: rest) = false := by
  unfold startsTriple
  split
  · rename_i heq
    rw [← (List.cons.inj heq).1, beq_eq_false_iff_ne.mpr h, Bool.false_and]
  · rfl

/-- A text is read from its start, a triple or a single character at a time. -/
theorem induction_on_triples {motive : List Char → Prop} (nil : motive [])
    (triple : ∀ high low tail octet, octet? high low = some octet → motive tail →
      motive ('%' :: high :: low :: tail))
    (single : ∀ c rest, startsTriple (c :: rest) = false → motive rest → motive (c :: rest))
    (cs : List Char) : motive cs := by
  induction hlength : cs.length using Nat.strongRecOn generalizing cs with
  | ind length ih =>
      cases cs with
      | nil => exact nil
      | cons c rest =>
          rw [List.length_cons] at hlength
          by_cases htriple : startsTriple (c :: rest) = true
          · match rest with
            | [] => exact absurd htriple Bool.false_ne_true
            | [_] => exact absurd htriple Bool.false_ne_true
            | high :: low :: tail =>
                rw [startsTriple, Bool.and_eq_true, beq_iff_eq] at htriple
                rcases Option.isSome_iff_exists.mp htriple.2 with ⟨octet, hoctet⟩
                rw [htriple.1]
                refine triple high low tail octet hoctet (ih tail.length ?_ tail rfl)
                simp only [List.length_cons] at hlength
                omega
          · exact single c rest (Bool.eq_false_iff.mpr htriple) (ih rest.length (by omega) rest rfl)

theorem octets_triple (high low : Char) (rest : List Char) (octet : Nat)
    (h : octet? high low = some octet) :
    octets ('%' :: high :: low :: rest) = octet :: octets rest := by
  rw [octets.eq_def]
  simp only [if_true, h]

theorem octets_cons (c : Char) (rest : List Char) (h : startsTriple (c :: rest) = false) :
    octets (c :: rest) = Utf8.encodeChar c ++ octets rest := by
  rw [octets.eq_def]
  dsimp only
  split
  · rename_i hc
    match rest with
    | [] => rw [octets, List.append_nil]
    | [high] => rfl
    | high :: low :: rest₁ =>
        rw [startsTriple, hc] at h
        rcases hoctet : octet? high low with _ | octet
        · simp only [hoctet]
        · rw [hoctet] at h
          exact absurd h Bool.noConfusion
  · rfl

theorem octets_written (octet : Nat) (hoctet : octet < 0x100) (rest : List Char) :
    octets (triple octet ++ rest) = octet :: octets rest := by
  refine octets_triple _ _ rest octet ?_
  rw [octet?, hexValue?_upperHex _ (by omega), hexValue?_upperHex _ (by omega)]
  change some (octet / 16 * 16 + octet % 16) = some octet
  rw [Nat.div_add_mod']

theorem octets_written_list (list : List Nat) (h : ∀ octet ∈ list, octet < 0x100)
    (rest : List Char) : octets (list.flatMap triple ++ rest) = list ++ octets rest := by
  induction list with
  | nil => rfl
  | cons octet list ih =>
      rw [List.flatMap_cons, List.append_assoc, octets_written octet (h octet List.mem_cons_self),
        ih fun o ho => h o (List.mem_cons_of_mem octet ho), List.cons_append]

theorem octet_lt (c : Char) : ∀ octet ∈ Utf8.encodeChar c, octet < 0x100 := by
  have hc := Utf8.toNat_bounds c
  intro octet h
  unfold Utf8.encodeChar at h
  dsimp only at h
  split at h
  · simp only [List.mem_cons, List.not_mem_nil, or_false] at h
    omega
  · split at h
    · simp only [List.mem_cons, List.not_mem_nil, or_false] at h
      omega
    · split at h
      · simp only [List.mem_cons, List.not_mem_nil, or_false] at h
        omega
      · simp only [List.mem_cons, List.not_mem_nil, or_false] at h
        omega

section Encode

variable (special : Char → Bool) (hspecial : Spares special)

theorem encodeChar_cases (c : Char) :
    encodeChar special c = (Utf8.encodeChar c).flatMap triple
      ∨ (encodeChar special c = [c] ∧ special c = false ∧ c.toNat < 0x80) := by
  unfold encodeChar
  by_cases h : (special c || decide (0x80 ≤ c.toNat)) = true
  · exact Or.inl (if_pos h)
  · refine Or.inr ⟨if_neg h, ?_⟩
    rw [Bool.not_eq_true, Bool.or_eq_false_iff, decide_eq_false_iff_not] at h
    exact ⟨h.1, by omega⟩

/-- An encoded text starts with a percent sign or as the text does. -/
theorem cons_of_encode (cs : List Char) (c : Char) (rest : List Char)
    (h : encode special cs = c :: rest) (hc : c ≠ '%') :
    ∃ tail, cs = c :: tail ∧ rest = encode special tail := by
  cases cs with
  | nil => exact absurd h (by rw [encode, List.flatMap_nil]; exact (List.cons_ne_nil _ _).symm)
  | cons first tail =>
      unfold encode at h
      rw [List.flatMap_cons] at h
      rcases encodeChar_cases special first with hwritten | ⟨hkept, _, _⟩
      · -- An encoded character starts with a percent sign.
        rcases Utf8.encodeChar_head first with ⟨b, bs, hb, _⟩
        rw [hwritten, hb, List.flatMap_cons, triple, List.cons_append, List.cons_append] at h
        exact absurd (List.cons.inj h).1.symm hc
      · rw [hkept, List.singleton_append] at h
        refine ⟨tail, ?_, ?_⟩
        · rw [(List.cons.inj h).1]
        · rw [← (List.cons.inj h).2]
          rfl

theorem startsTriple_encode (rest : List Char)
    (h : startsTriple ('%' :: rest) = false) :
    startsTriple ('%' :: encode special rest) = false := by
  rcases hencode : encode special rest with _ | ⟨high, _ | ⟨low, tail⟩⟩
  · rfl
  · rfl
  · rw [Bool.eq_false_iff]
    intro htriple
    rw [startsTriple, Bool.and_eq_true] at htriple
    rcases Option.isSome_iff_exists.mp htriple.2 with ⟨octet, hoctet⟩
    have hdigits := isSome_of_octet? high low octet hoctet
    have hdigit : ∀ c, (hexValue? c).isSome = true → c ≠ '%' := by
      rintro c hc rfl
      exact absurd hc (by decide)
    -- Digits are not written by the encoding, so they were there before.
    rcases cons_of_encode special rest high (low :: tail) hencode (hdigit high hdigits.1) with
      ⟨rest₁, rfl, hrest₁⟩
    rcases cons_of_encode special rest₁ low tail hrest₁.symm (hdigit low hdigits.2) with
      ⟨rest₂, rfl, _⟩
    rw [startsTriple, htriple.2] at h
    exact absurd h (by decide)

include hspecial

theorem encode_cons_digit (c : Char) (rest : List Char) (h : (hexValue? c).isSome = true) :
    encode special (c :: rest) = c :: encode special rest := by
  unfold encode
  rw [List.flatMap_cons, encodeChar, hspecial.digit c h,
    decide_eq_false (Nat.not_le.mpr (toNat_of_hexValue? c h))]
  rfl

theorem encode_cons_percent (rest : List Char) :
    encode special ('%' :: rest) = '%' :: encode special rest := by
  unfold encode
  rw [List.flatMap_cons, encodeChar, hspecial.percent]
  rfl

/-- Encoding does not change the octets that are read. -/
theorem octets_encode (cs : List Char) : octets (encode special cs) = octets cs := by
  induction cs using induction_on_triples with
  | nil => rfl
  | triple high low tail octet hoctet ih =>
      have hdigits := isSome_of_octet? high low octet hoctet
      rw [encode_cons_percent special hspecial,
        encode_cons_digit special hspecial high _ hdigits.1,
        encode_cons_digit special hspecial low _ hdigits.2,
        octets_triple high low _ octet hoctet, octets_triple high low _ octet hoctet, ih]
  | single c rest htriple ih =>
      rw [octets_cons c rest htriple]
      by_cases hc : c = '%'
      · rw [hc] at htriple ⊢
        rw [encode_cons_percent special hspecial,
          octets_cons '%' _ (startsTriple_encode special rest htriple), ih]
      · -- Any other character is kept, or written as the octets it stands for.
        unfold encode at ih ⊢
        rw [List.flatMap_cons]
        rcases encodeChar_cases special c with hwritten | ⟨hkept, _, _⟩
        · rw [hwritten, octets_written_list _ (octet_lt c), ih]
        · rw [hkept, List.singleton_append, octets_cons c _ (startsTriple_of_ne c _ hc), ih]

omit hspecial in
/-- An encoded text is only empty if the text is. -/
theorem encode_ne_nil (cs : List Char) (h : cs ≠ []) :
    encode special cs ≠ [] := by
  rcases cs with _ | ⟨c, rest⟩
  · exact absurd rfl h
  · intro hnil
    have hfirst := (List.append_eq_nil_iff.mp (show encodeChar special c
      ++ encode special rest = [] from hnil)).1
    rcases encodeChar_cases special c with hwritten | ⟨hkept, _⟩
    · rcases Utf8.encodeChar_head c with ⟨b, bs, hb, _⟩
      rw [hwritten, hb, List.flatMap_cons, triple] at hfirst
      exact List.cons_ne_nil _ _ hfirst
    · rw [hkept] at hfirst
      exact List.cons_ne_nil _ _ hfirst

omit hspecial in
/-- What an encoded text is made of. -/
theorem mem_encode_cases (cs : List Char) (c : Char) (h : c ∈ encode special cs) :
    (c ∈ cs ∧ special c = false ∧ c.toNat < 0x80) ∨ c = '%' ∨ ∃ n < 16, c = upperHex n := by
  rcases List.mem_flatMap.mp h with ⟨source, hsource, hc⟩
  rcases encodeChar_cases special source with hwritten | ⟨hkept, hplain⟩
  · rw [hwritten] at hc
    rcases List.mem_flatMap.mp hc with ⟨octet, hoctet, hdigit⟩
    have hlt := octet_lt source octet hoctet
    simp only [triple, List.mem_cons, List.not_mem_nil, or_false] at hdigit
    rcases hdigit with rfl | rfl | rfl
    · exact Or.inr (Or.inl rfl)
    · exact Or.inr (Or.inr ⟨_, by omega, rfl⟩)
    · exact Or.inr (Or.inr ⟨_, by omega, rfl⟩)
  · rw [hkept, List.mem_singleton] at hc
    rw [hc]
    exact Or.inl ⟨hsource, hplain⟩

theorem mem_encode (cs : List Char) (c : Char) (h : c ∈ encode special cs) :
    special c = false ∧ c.toNat < 0x80 := by
  rcases mem_encode_cases special cs c h with ⟨_, hplain⟩ | rfl | ⟨n, hn, rfl⟩
  · exact hplain
  · exact ⟨hspecial.percent, by decide⟩
  · have hvalue : (hexValue? (upperHex n)).isSome = true := by
      rw [hexValue?_upperHex n hn]
      rfl
    exact ⟨hspecial.digit _ hvalue, toNat_of_hexValue? _ hvalue⟩

omit hspecial in
theorem encode_eq_self (cs : List Char) (h : ∀ c ∈ cs, special c = false ∧ c.toNat < 0x80) :
    encode special cs = cs := by
  induction cs with
  | nil => rfl
  | cons c rest ih =>
      have hc := h c List.mem_cons_self
      have hrest := ih fun d hd => h d (List.mem_cons_of_mem c hd)
      unfold encode at hrest ⊢
      rw [List.flatMap_cons, hrest, encodeChar, hc.1, decide_eq_false (Nat.not_le.mpr hc.2)]
      rfl

theorem encode_encode (cs : List Char) :
    encode special (encode special cs) = encode special cs :=
  encode_eq_self special _ fun c hc => mem_encode special hspecial cs c hc

end Encode

theorem hasTriple_of_not_mem (cs : List Char) (h : '%' ∉ cs) : hasTriple cs = false := by
  induction cs with
  | nil => rfl
  | cons c rest ih =>
      rw [hasTriple, ih fun hrest => h (List.mem_cons_of_mem c hrest), Bool.or_false]
      exact startsTriple_of_ne c rest fun heq => h (heq ▸ List.mem_cons_self)

theorem octets_of_hasTriple_eq_false (cs : List Char) (h : hasTriple cs = false) :
    octets cs = Utf8.encode cs := by
  induction cs with
  | nil => rfl
  | cons c rest ih =>
      rw [hasTriple, Bool.or_eq_false_iff] at h
      rw [octets_cons c rest h.1, ih h.2]
      rfl

/-- Reading gives no more characters than there are, and fewer if there is a
    triple. Octets that triples gave just before are waiting in front. -/
theorem length_decode_append_le (cs : List Char) :
    ∀ as : List Nat, (Utf8.decode (as ++ octets cs)).length + (if hasTriple cs then 1 else 0)
      ≤ as.length + cs.length := by
  induction cs using induction_on_triples with
  | nil =>
      intro as
      have hle := Utf8.length_decode_le as
      rw [octets, List.append_nil, hasTriple, if_neg Bool.false_ne_true]
      omega
  | triple high low tail octet hoctet ih =>
      intro as
      -- The octet of the triple waits with the others.
      have htail := ih (as ++ [octet])
      rw [List.append_assoc, List.singleton_append, List.length_append,
        List.length_singleton] at htail
      rw [octets_triple high low tail octet hoctet]
      simp only [List.length_cons]
      split
      · omega
      · omega
  | single c rest htriple ih =>
      intro as
      -- Behind a character that is no part of a triple reading starts anew.
      have hrest := ih []
      rw [octets_cons c rest htriple, Utf8.decode_append_encodeChar, List.length_append,
        List.length_cons, hasTriple, htriple, Bool.false_or]
      have hle := Utf8.length_decode_le as
      rw [List.nil_append, List.length_nil] at hrest
      rw [List.length_cons]
      omega

theorem length_decode_le (cs : List Char) : (decode cs).length ≤ cs.length := by
  have h := length_decode_append_le cs []
  rw [List.nil_append, List.length_nil] at h
  unfold decode
  omega

/-- A text is read as itself unless it holds a triple. -/
theorem decode_eq_iff (cs : List Char) : decode cs = cs ↔ hasTriple cs = false := by
  constructor
  · intro h
    have hlength := length_decode_append_le cs []
    rw [List.nil_append, List.length_nil] at hlength
    unfold decode at h
    rw [h] at hlength
    rcases htriple : hasTriple cs with _ | _
    · rfl
    · rw [htriple, if_pos rfl] at hlength
      omega
  · intro h
    rw [decode, octets_of_hasTriple_eq_false cs h, Utf8.decode_encode]

end Percent

end OpenApi
