import Mathlib.Data.List.Induction
import Mathlib.Data.List.TakeWhile
import OpenApi.Proofs.Pointer
import OpenApi.Proofs.Text.Percent
import OpenApi.Proofs.Uri.Domain

/-!
# Addresses Are in Their Final Form

An IPv4 address is written as four decimal numbers, and an IPv6 address as pieces
of hexadecimal digits with the longest run of zeros cut out. Reading what is
written gives the numbers again: digits spell the number they come from, the
pieces hold no separators, and what was cut out is what a pair of colons stands
for, since there are eight pieces in all.

## Main definitions

* `Host.IsCut`: A place and a length where a list holds nothing but zeros.

## Theorems

* `numberIn?_toDigits`, `numberIn?_lt`: Digits spell their number.
* `ipv4Value?_ipv4Text`: An IPv4 address comes back.
* `isCut_longestZeros`: What is cut out are zeros.
* `ipv6Pieces?_ipv6Text`: An IPv6 address comes back.
-/

namespace OpenApi

namespace Host

section Numbers

theorem hexValue?_digitChar : ∀ d < 16, Percent.hexValue? (Nat.digitChar d) = some d := by decide

theorem numberIn?_append (base : Nat) (cs : List Char) (c : Char) :
    numberIn? base (cs ++ [c]) = (numberIn? base cs).bind fun n =>
      (Percent.hexValue? c).bind fun d => if d < base then some (n * base + d) else none := by
  unfold numberIn?
  rw [List.foldlM_append]
  refine Option.bind_congr fun n _ => ?_
  rw [List.foldlM_cons]
  simp only [List.foldlM_nil, Option.bind_eq_bind, Option.pure_def]
  exact Option.bind_fun_some _

/-- A number is what its digits spell. -/
theorem numberIn?_toDigits (base : Nat) (hlow : 1 < base) (hhigh : base ≤ 16) (n : Nat) :
    numberIn? base (Nat.toDigits base n) = some n := by
  induction n using Nat.strongRecOn with
  | ind n ih =>
      have hdigit : ∀ d < base, Percent.hexValue? (Nat.digitChar d) = some d :=
        fun d hd => hexValue?_digitChar d (hd.trans_le hhigh)
      rcases Nat.lt_or_ge n base with hsmall | hlarge
      · rw [Nat.toDigits_of_lt_base hsmall, ← List.nil_append [n.digitChar], numberIn?_append]
        simp only [numberIn?, List.foldlM_nil, Option.pure_def, Option.bind_some, hdigit n hsmall,
          if_pos hsmall, Nat.zero_mul, Nat.zero_add]
      · have hmod := Nat.mod_lt n (Nat.zero_lt_of_lt hlow)
        rw [Nat.toDigits_of_base_le hlow hlarge, numberIn?_append,
          ih (n / base) (Nat.div_lt_self (by omega) hlow)]
        simp only [Option.bind_some, hdigit _ hmod, if_pos hmod, Nat.div_add_mod']

/-- Digits spell no larger number than their count allows. -/
theorem numberIn?_lt (base : Nat) (cs : List Char) :
    ∀ n, numberIn? base cs = some n → n < base ^ cs.length := by
  induction cs using List.reverseRecOn with
  | nil =>
      intro n h
      rw [← Option.some.inj h]
      exact Nat.one_pos
  | append_singleton cs c ih =>
      intro n h
      rw [numberIn?_append] at h
      rcases Option.bind_eq_some_iff.mp h with ⟨front, hfront, h⟩
      rcases Option.bind_eq_some_iff.mp h with ⟨d, _, h⟩
      split at h
      · rename_i hd
        have hle : (front + 1) * base ≤ base ^ cs.length * base :=
          Nat.mul_le_mul_right base (ih front hfront)
        rw [← Option.some.inj h, List.length_append, List.length_singleton, Nat.pow_succ]
        rw [Nat.add_mul, Nat.one_mul] at hle
        omega
      · exact absurd h.symm (Option.some_ne_none n)

theorem isDigit_of_mem (n : Nat) (c : Char) (h : c ∈ Nat.toDigits 10 n) : c.isDigit = true :=
  Nat.isDigit_of_mem_toDigits (by decide) (by decide) h

theorem mem_toDigits (base : Nat) (hlow : 1 < base) (hhigh : base ≤ 16) (n : Nat) :
    ∀ c ∈ Nat.toDigits base n, ∃ d < 16, c = Nat.digitChar d := by
  induction n using Nat.strongRecOn with
  | ind n ih =>
      intro c hc
      rcases Nat.lt_or_ge n base with hsmall | hlarge
      · rw [Nat.toDigits_of_lt_base hsmall, List.mem_singleton] at hc
        exact ⟨n, hsmall.trans_le hhigh, hc⟩
      · rw [Nat.toDigits_of_base_le hlow hlarge, List.mem_append, List.mem_singleton] at hc
        rcases hc with hc | hc
        · exact ih (n / base) (Nat.div_lt_self (by omega) hlow) c hc
        · exact ⟨n % base, (Nat.mod_lt n (Nat.zero_lt_of_lt hlow)).trans_le hhigh, hc⟩

end Numbers

section Ipv4

/-- Digits are plain characters. -/
theorem isPlain_of_isDigit (c : Char) (h : c.isDigit = true) :
    IsPlain c ∧ c ≠ '.' ∧ isForbiddenInDomain c = false ∧ c ≠ 'x' := by
  rw [Char.isDigit, Bool.and_eq_true, decide_eq_true_eq, decide_eq_true_eq] at h
  have hc : c.toNat < 0x80 := Nat.lt_of_le_of_lt (show c.toNat ≤ 57 from h.2) (by decide)
  have hascii : ∀ n < 0x80, 48 ≤ (Char.ofNat n).toNat → (Char.ofNat n).toNat ≤ 57 →
      IsPlain (Char.ofNat n) ∧ Char.ofNat n ≠ '.' ∧ isForbiddenInDomain (Char.ofNat n) = false
        ∧ Char.ofNat n ≠ 'x' := by decide +kernel
  exact Percent.of_ascii (fun c => 48 ≤ c.toNat → c.toNat ≤ 57 →
    IsPlain c ∧ c ≠ '.' ∧ isForbiddenInDomain c = false ∧ c ≠ 'x') hascii c hc h.1 h.2

/-- The four numbers of an IPv4 address, as they are written. -/
def octetForms (value : Nat) : List (List Char) :=
  [value / 16777216, value / 65536 % 256, value / 256 % 256, value % 256].map (Nat.toDigits 10)

theorem toList_ipv4Text (value : Nat) :
    (ipv4Text value).toList = ['.'].intercalate (octetForms value) := by
  have hdigits : ∀ n : Nat, (toString n).toList = Nat.toDigits 10 n := fun n => Nat.toList_repr
  have hpoint : ".".toList = ['.'] := rfl
  unfold ipv4Text octetForms
  simp only [String.toList_append, hdigits, hpoint, List.map_cons, List.map_nil,
    List.intercalate_cons_cons, List.intercalate_singleton, List.append_assoc]

theorem isDigit_of_mem_octetForms (value : Nat) (form : List Char) (h : form ∈ octetForms value) :
    form ≠ [] ∧ ∀ c ∈ form, c.isDigit = true := by
  rcases List.mem_map.mp h with ⟨n, _, rfl⟩
  exact ⟨Nat.toDigits_ne_nil, isDigit_of_mem n⟩

theorem labelText?_of_isDigit (label : List Char) (h : ∀ c ∈ label, c.isDigit = true) :
    labelText? label = some label := by
  have hascii : (label.all fun c => decide (c.toNat < 0x80)) = true :=
    List.all_eq_true.mpr fun c hc => decide_eq_true (isPlain_of_isDigit c (h c hc)).1.1
  unfold labelText?
  split
  · exact absurd rfl (isPlain_of_isDigit 'x' (h 'x' List.mem_cons_self)).2.2.2
  · rw [if_pos hascii]

/-- An IPv4 address is a domain name in its final form. -/
theorem domain?_ipv4Text (value : Nat) :
    domain? (ipv4Text value).toList = some (ipv4Text value).toList := by
  refine (domain?_of_forms (octetForms value) _ (toList_ipv4Text value).symm (List.cons_ne_nil _ _)
    (fun form hform => ?_) ?_).1
  · have hdigits := (isDigit_of_mem_octetForms value form hform).2
    exact ⟨labelText?_of_isDigit form hdigits, fun c hc =>
      ⟨(isPlain_of_isDigit c (hdigits c hc)).1, (isPlain_of_isDigit c (hdigits c hc)).2.1⟩⟩
  · rw [toList_ipv4Text, not_or, List.isEmpty_iff, Bool.not_eq_true, List.any_eq_false]
    refine ⟨fun hnil => ?_, fun c hc => ?_⟩
    · exact Nat.toDigits_ne_nil (List.append_eq_nil_iff.mp hnil).1
    · rcases Text.mem_intercalate '.' _ c hc with rfl | ⟨form, hform, hc⟩
      · decide
      · rw [(isPlain_of_isDigit c ((isDigit_of_mem_octetForms value form hform).2 c hc)).2.2.1]
        exact Bool.false_ne_true

theorem labels_ipv4Text (value : Nat) : labels (ipv4Text value).toList = octetForms value := by
  have hparts : Text.splitBy (· == '.') (ipv4Text value).toList = octetForms value := by
    rw [toList_ipv4Text]
    refine Text.splitBy_intercalate _ '.' rfl _ (List.cons_ne_nil _ _) fun form hform c hc => ?_
    exact beq_eq_false_iff_ne.mpr
      (isPlain_of_isDigit c ((isDigit_of_mem_octetForms value form hform).2 c hc)).2.1
  unfold labels
  dsimp only
  rw [hparts, if_neg]
  rintro ⟨_, hlast⟩
  exact (isDigit_of_mem_octetForms value [] (List.mem_of_getLast? hlast)).1 rfl

theorem endsInNumber_ipv4Text (value : Nat) : endsInNumber (ipv4Text value).toList = true := by
  have hlast : (octetForms value).getLast? = some (Nat.toDigits 10 (value % 256)) := rfl
  have hdigits : (Nat.toDigits 10 (value % 256)).all Char.isDigit = true :=
    List.all_eq_true.mpr (isDigit_of_mem (value % 256))
  unfold endsInNumber
  rw [labels_ipv4Text, hlast]
  split
  · rename_i h
    exact absurd h (Option.some_ne_none _)
  · rename_i h
    exact absurd (Option.some.inj h) Nat.toDigits_ne_nil
  · rename_i last _ h
    rw [← Option.some.inj h, hdigits]
    rfl

/-- A decimal number is read as decimal, as it has no zero in front. -/
theorem ipv4Number?_toDigits (n : Nat) : ipv4Number? (Nat.toDigits 10 n) = some n := by
  have hread := numberIn?_toDigits 10 (by decide) (by decide) n
  have hzero := Pointer.toDigits_eq_zero_cons n
  unfold ipv4Number?
  split
  · rename_i h
    exact absurd h Nat.toDigits_ne_nil
  · rename_i h
    exact absurd (hzero _ h) (List.cons_ne_nil _ _)
  · rename_i h
    exact absurd (hzero _ h) (List.cons_ne_nil _ _)
  · rename_i h
    rw [h] at hread
    exact hread
  · rename_i hne h
    exact absurd (hzero _ h) hne
  · exact hread

/-- An IPv4 address comes back. -/
theorem ipv4Value?_ipv4Text (value : Nat) (h : value < 256 ^ 4) :
    ipv4Value? (ipv4Text value).toList = some value := by
  have hnumbers : (labels (ipv4Text value).toList).mapM ipv4Number? = some
      [value / 16777216, value / 65536 % 256, value / 256 % 256, value % 256] := by
    rw [labels_ipv4Text, octetForms]
    simp only [List.map_cons, List.map_nil, List.mapM_cons, List.mapM_nil, ipv4Number?_toDigits,
      Option.bind_eq_bind, Option.bind_some, Option.pure_def]
  have hfront : ¬ (3 < 3 ∨ ([value / 16777216, value / 65536 % 256, value / 256 % 256].any
      fun n => decide (255 < n)) = true) := by
    rintro (hlength | hany)
    · exact Nat.lt_irrefl 3 hlength
    · rcases List.any_eq_true.mp hany with ⟨n, hn, hlarge⟩
      have hlarge := of_decide_eq_true hlarge
      simp only [List.mem_cons, List.not_mem_nil, or_false] at hn
      omega
  have hlast : ¬ 256 ≤ value % 256 := Nat.not_le.mpr (Nat.mod_lt value (by decide))
  unfold ipv4Value?
  rw [hnumbers]
  refine (if_neg hfront).trans ((if_neg hlast).trans (congrArg some ?_))
  change (((0 * 256 + value / 16777216) * 256 + value / 65536 % 256) * 256
    + value / 256 % 256) * 256 + value % 256 = value
  omega

/-- Octets are put together to a number of as many places. -/
theorem foldl_octets_lt (front : List Nat) :
    ∀ n k : Nat, n < 256 ^ k → (∀ octet ∈ front, octet ≤ 255) →
      front.foldl (fun n octet => n * 256 + octet) n < 256 ^ (k + front.length) := by
  induction front with
  | nil => exact fun n k hn _ => hn
  | cons octet front ih =>
      intro n k hn hfront
      have hoctet := hfront octet List.mem_cons_self
      have hnext : n * 256 + octet < 256 ^ (k + 1) := by
        have hmul : (n + 1) * 256 ≤ 256 ^ k * 256 := Nat.mul_le_mul_right 256 hn
        rw [Nat.pow_succ]
        omega
      have hrest := ih (n * 256 + octet) (k + 1) hnext
        (fun o ho => hfront o (List.mem_cons_of_mem octet ho))
      rwa [Nat.add_assoc, Nat.add_comm 1, ← List.length_cons (a := octet)] at hrest

/-- The value of an IPv4 address has four octets. -/
theorem ipv4Value?_lt (name : List Char) (value : Nat) (h : ipv4Value? name = some value) :
    value < 256 ^ 4 := by
  rcases Option.bind_eq_some_iff.mp h with ⟨numbers, _, h⟩
  rcases Option.bind_eq_some_iff.mp h with ⟨last, _, h⟩
  dsimp only at h
  split at h
  · exact absurd h.symm (Option.some_ne_none value)
  · rename_i hfront
    split at h
    · exact absurd h.symm (Option.some_ne_none value)
    · rename_i hlast
      rw [not_or, Nat.not_lt, Bool.not_eq_true, List.any_eq_false] at hfront
      have hoctets : ∀ octet ∈ numbers.dropLast, octet ≤ 255 := by
        intro octet hoctet
        have := hfront.2 octet hoctet
        rwa [decide_eq_true_eq, Nat.not_lt] at this
      -- The last number fills what the octets in front of it leave of the four.
      have hhigh := foldl_octets_lt numbers.dropLast 0 0 Nat.one_pos hoctets
      have hlast' : last < 256 ^ (4 - numbers.dropLast.length) := Nat.not_le.mp hlast
      have hsplit : 256 ^ 4 = 256 ^ (0 + numbers.dropLast.length)
          * 256 ^ (4 - numbers.dropLast.length) := by
        rw [← Nat.pow_add]
        congr 1
        omega
      have hmul := Nat.mul_le_mul_right (256 ^ (4 - numbers.dropLast.length)) hhigh
      rw [Nat.succ_mul] at hmul
      rw [← Option.some.inj h, hsplit]
      exact Nat.lt_of_lt_of_le (Nat.add_lt_add_left hlast' _) hmul

end Ipv4

section Ipv6

theorem colon_not_mem_toDigits (n : Nat) : ':' ∉ Nat.toDigits 16 n ∧ '.' ∉ Nat.toDigits 16 n := by
  have hdigit : ∀ d < 16, ':' ≠ Nat.digitChar d ∧ '.' ≠ Nat.digitChar d := by decide
  refine ⟨fun h => ?_, fun h => ?_⟩
  · rcases mem_toDigits 16 (by decide) (by decide) n ':' h with ⟨d, hd, hc⟩
    exact (hdigit d hd).1 hc
  · rcases mem_toDigits 16 (by decide) (by decide) n '.' h with ⟨d, hd, hc⟩
    exact (hdigit d hd).2 hc

theorem toList_piecesText (ns : List Nat) :
    (piecesText ns).toList = [':'].intercalate (ns.map (Nat.toDigits 16)) := by
  have hcolon : ":".toList = [':'] := rfl
  unfold piecesText
  rw [String.toList_intercalate, hcolon, List.map_map]
  refine congrArg _ (List.map_congr_left fun n _ => ?_)
  exact String.toList_ofList

/-- A piece is read as it was written. -/
theorem piece?_toDigits (n : Nat) (h : n < 65536) : piece? (Nat.toDigits 16 n) = some n := by
  have hlength : (Nat.toDigits 16 n).length ≤ 4 := (Nat.length_toDigits_le_iff (by decide)
    (by decide)).mpr h
  unfold piece?
  rw [if_neg]
  · exact numberIn?_toDigits 16 (by decide) (by decide) n
  · rw [not_or, Nat.not_lt, List.isEmpty_iff]
    exact ⟨Nat.toDigits_ne_nil, hlength⟩

theorem pieces?_toDigits (allowed : Bool) (ns : List Nat) (hne : ns ≠ [])
    (hsmall : ∀ n ∈ ns, n < 65536) : pieces? allowed (ns.map (Nat.toDigits 16)) = some ns := by
  induction ns with
  | nil => exact absurd rfl hne
  | cons n rest ih =>
      have hn := piece?_toDigits n (hsmall n List.mem_cons_self)
      rcases rest with _ | ⟨m, rest⟩
      · have hpoint : ((Nat.toDigits 16 n).contains '.') = false := by
          rw [Bool.eq_false_iff, ne_eq, List.contains_iff_mem]
          exact (colon_not_mem_toDigits n).2
        change (if (Nat.toDigits 16 n).contains '.' then _ else _) = _
        rw [hpoint, if_neg Bool.false_ne_true, hn]
        rfl
      · have hrest := ih (List.cons_ne_nil _ _) fun k hk => hsmall k (List.mem_cons_of_mem n hk)
        change ((piece? (Nat.toDigits 16 n)).bind fun n =>
          (pieces? allowed ((m :: rest).map (Nat.toDigits 16))).bind fun ns => some (n :: ns)) = _
        rw [hn, hrest]
        rfl

theorem piece?_lt (cs : List Char) (n : Nat) (h : piece? cs = some n) : n < 65536 := by
  unfold piece? at h
  split at h
  · exact absurd h.symm (Option.some_ne_none n)
  · rename_i hcs
    rw [not_or, Nat.not_lt] at hcs
    exact Nat.lt_of_lt_of_le (numberIn?_lt 16 cs n h) (Nat.pow_le_pow_right (by decide) hcs.2)

theorem tailNumber?_le (cs : List Char) (n : Nat) (h : tailNumber? cs = some n) : n ≤ 255 := by
  unfold tailNumber? at h
  split at h
  · exact absurd h.symm (Option.some_ne_none n)
  · exact absurd h.symm (Option.some_ne_none n)
  · rcases Option.bind_eq_some_iff.mp h with ⟨m, _, h⟩
    split at h
    · rename_i hm
      rwa [← Option.some.inj h]
    · exact absurd h.symm (Option.some_ne_none n)

/-- Pieces are below `0x10000`. -/
theorem pieces?_lt (allowed : Bool) (parts : List (List Char)) :
    ∀ ns, pieces? allowed parts = some ns → ∀ n ∈ ns, n < 65536 := by
  induction parts with
  | nil =>
      intro ns h n hn
      rw [← Option.some.inj h] at hn
      exact absurd hn List.not_mem_nil
  | cons part rest ih =>
      intro ns h n hn
      -- Only the last part may be four numbers, which make two pieces of two octets each.
      rcases rest with _ | ⟨next, rest⟩
      · unfold pieces? at h
        split at h
        · split at h
          · rename_i a b c d hnumbers
            have hle : ∀ k ∈ [a, b, c, d], k ≤ 255 := by
              intro k hk
              rcases exists_of_mapM tailNumber? _ _ hnumbers k hk with ⟨cs, _, hcs⟩
              exact tailNumber?_le cs k hcs
            simp only [List.mem_cons, List.not_mem_nil, or_false, forall_eq_or_imp, forall_eq] at hle
            split at h
            · rw [← Option.some.inj h] at hn
              simp only [List.mem_cons, List.not_mem_nil, or_false] at hn
              omega
            · exact absurd h.symm (Option.some_ne_none ns)
          · exact absurd h.symm (Option.some_ne_none ns)
        · rcases Option.map_eq_some_iff.mp h with ⟨m, hm, rfl⟩
          rw [List.mem_singleton] at hn
          exact hn ▸ piece?_lt part m hm
      · rcases Option.bind_eq_some_iff.mp h with ⟨m, hm, h⟩
        rcases Option.bind_eq_some_iff.mp h with ⟨ms, hms, h⟩
        rw [← Option.some.inj h] at hn
        rcases List.mem_cons.mp hn with rfl | hn
        · exact piece?_lt part n hm
        · exact ih ms hms n hn

theorem splitGap_append (part rest : List Char) (hpart : ':' ∉ part) :
    ∀ seen, splitGap seen (part ++ rest) = splitGap (part.reverse ++ seen) rest := by
  induction part with
  | nil => exact fun seen => rfl
  | cons c part ih =>
      intro seen
      have hc : c ≠ ':' := fun heq => hpart (heq ▸ List.mem_cons_self)
      have hstep : splitGap seen (c :: (part ++ rest)) = splitGap (c :: seen) (part ++ rest) := by
        rw [splitGap]
        rintro tail rfl
        exact absurd rfl hc
      rw [List.cons_append, hstep, ih (fun h => hpart (List.mem_cons_of_mem c h)),
        List.reverse_cons, List.append_assoc, List.singleton_append]

theorem splitGap_colon (c : Char) (rest : List Char) (hc : c ≠ ':') (seen : List Char) :
    splitGap seen (':' :: c :: rest) = splitGap (':' :: seen) (c :: rest) := by
  rw [splitGap]
  rintro tail _ heq
  exact hc (List.cons.inj heq).1

/-- Parts that are not empty have no pair of colons between them, so the first one
    is behind them. -/
theorem splitGap_intercalate (parts : List (List Char)) (rest : List Char)
    (hparts : ∀ part ∈ parts, part ≠ [] ∧ ':' ∉ part) :
    ∀ seen, splitGap seen ([':'].intercalate parts ++ rest)
      = splitGap (([':'].intercalate parts).reverse ++ seen) rest := by
  induction parts with
  | nil => exact fun seen => rfl
  | cons part parts ih =>
      intro seen
      have hpart := hparts part List.mem_cons_self
      rcases parts with _ | ⟨next, parts⟩
      · rw [List.intercalate_singleton]
        exact splitGap_append part rest hpart.2 seen
      · have hnext := hparts next (List.mem_cons_of_mem part List.mem_cons_self)
        -- Behind the colon comes a character of the next part, so there is no gap here.
        rcases next with _ | ⟨c, next⟩
        · exact absurd rfl hnext.1
        · have hc : c ≠ ':' := fun heq => hnext.2 (heq ▸ List.mem_cons_self)
          rcases Text.exists_intercalate ':' c next parts with ⟨tail, htail⟩
          have hrec := ih (fun p hp => hparts p (List.mem_cons_of_mem part hp))
            (':' :: (part.reverse ++ seen))
          rw [htail, List.cons_append] at hrec
          rw [List.intercalate_cons_cons, htail, List.append_assoc, List.append_assoc,
            splitGap_append part _ hpart.2, List.singleton_append, List.cons_append,
            splitGap_colon c _ hc, hrec]
          simp only [List.reverse_append, List.reverse_cons, List.append_assoc, List.cons_append,
            List.nil_append]

theorem leadingZeros_take (ns : List Nat) :
    leadingZeros ns ≤ ns.length ∧ ns.take (leadingZeros ns) = List.replicate (leadingZeros ns) 0 := by
  unfold leadingZeros
  have htake : ns.take (ns.takeWhile (· == 0)).length = ns.takeWhile (· == 0) :=
    List.prefix_iff_eq_take.mp (List.takeWhile_prefix _) |>.symm
  refine ⟨(List.takeWhile_prefix _).length_le, ?_⟩
  rw [htake, List.eq_replicate_iff]
  exact ⟨rfl, fun n hn => beq_iff_eq.mp (List.mem_takeWhile_imp (p := fun n => n == 0) hn)⟩

/-- From the place on, the list holds nothing but zeros for the length. -/
def IsCut (ns : List Nat) (cut : Nat × Nat) : Prop :=
  cut.1 + cut.2 ≤ ns.length ∧ (ns.drop cut.1).take cut.2 = List.replicate cut.2 0

theorem isCut_longestZeros (ns : List Nat) : IsCut ns (longestZeros ns) := by
  have hfold : ∀ (places : List Nat) (best : Nat × Nat), (∀ i ∈ places, i < ns.length) →
      IsCut ns best → IsCut ns (places.foldl (fun best i =>
        let count := leadingZeros (ns.drop i)
        if best.2 < count then (i, count) else best) best) := by
    intro places
    induction places with
    | nil => exact fun best _ h => h
    | cons i places ih =>
        intro best hplaces h
        refine ih _ (fun k hk => hplaces k (List.mem_cons_of_mem i hk)) ?_
        dsimp only
        split
        · rcases leadingZeros_take (ns.drop i) with ⟨hle, htake⟩
          have hi := hplaces i List.mem_cons_self
          rw [List.length_drop] at hle
          exact ⟨by dsimp only; omega, htake⟩
        · exact h
  exact hfold _ (0, 0) (fun i hi => List.mem_range.mp hi) ⟨Nat.zero_le _, rfl⟩

/-- A list is what stands around a cut, with the zeros in between. -/
theorem eq_of_isCut (ns : List Nat) (start count : Nat) (h : IsCut ns (start, count)) :
    ns.take start ++ List.replicate count 0 ++ ns.drop (start + count) = ns := by
  rw [← h.2, List.append_assoc, ← List.drop_drop, List.take_append_drop, List.take_append_drop]

theorem pieces?_piecesText (allowed : Bool) (ns : List Nat) (hne : ns ≠ [])
    (hsmall : ∀ n ∈ ns, n < 65536) :
    pieces? allowed (Text.splitBy (· == ':') (piecesText ns).toList) = some ns := by
  rw [toList_piecesText, Text.splitBy_intercalate _ ':' rfl]
  · exact pieces?_toDigits allowed ns hne hsmall
  · exact fun hnil => hne (List.map_eq_nil_iff.mp hnil)
  · intro part hpart c hc
    rcases List.mem_map.mp hpart with ⟨n, _, rfl⟩
    exact beq_eq_false_iff_ne.mpr fun heq => (colon_not_mem_toDigits n).1 (heq ▸ hc)

/-- One side of a pair of colons. -/
theorem side?_piecesText (allowed : Bool) (ns : List Nat) (hsmall : ∀ n ∈ ns, n < 65536) :
    side? allowed (piecesText ns).toList = some ns := by
  rcases ns with _ | ⟨n, ns⟩
  · rfl
  · unfold side?
    rw [if_neg]
    · exact pieces?_piecesText allowed _ (List.cons_ne_nil _ _) hsmall
    · rw [toList_piecesText, List.isEmpty_iff, List.map_cons]
      intro hnil
      rcases hdigits : Nat.toDigits 16 n with _ | ⟨c, cs⟩
      · exact Nat.toDigits_ne_nil hdigits
      · rcases Text.exists_intercalate ':' c cs (ns.map (Nat.toDigits 16)) with ⟨tail, htail⟩
        rw [hdigits, htail] at hnil
        exact List.cons_ne_nil _ _ hnil

theorem splitGap_piecesText (ns : List Nat) (rest seen : List Char) :
    splitGap seen ((piecesText ns).toList ++ rest)
      = splitGap ((piecesText ns).toList.reverse ++ seen) rest := by
  rw [toList_piecesText]
  refine splitGap_intercalate _ rest (fun part hpart => ?_) seen
  rcases List.mem_map.mp hpart with ⟨n, _, rfl⟩
  exact ⟨Nat.toDigits_ne_nil, (colon_not_mem_toDigits n).1⟩

/-- An IPv6 address comes back. -/
theorem ipv6Pieces?_ipv6Text (ns : List Nat) (hlength : ns.length = 8)
    (hsmall : ∀ n ∈ ns, n < 65536) : ipv6Pieces? (ipv6Text ns).toList = some ns := by
  have hcut := isCut_longestZeros ns
  rcases hzeros : longestZeros ns with ⟨start, count⟩
  rw [hzeros] at hcut
  unfold ipv6Text ipv6Pieces?
  rw [hzeros]
  dsimp only
  by_cases hcount : count < 2
  · have hgap := splitGap_piecesText ns [] []
    rw [List.append_nil] at hgap
    have hne : ns ≠ [] := by
      rintro rfl
      exact absurd hlength (by decide)
    rw [if_pos hcount, hgap, splitGap]
    dsimp only
    rw [pieces?_piecesText true ns hne hsmall]
    exact if_pos hlength
  · have hgap := splitGap_piecesText (ns.take start)
      (':' :: ':' :: (piecesText (ns.drop (start + count))).toList) []
    have hcolons : "::".toList = [':', ':'] := rfl
    rw [if_neg hcount, String.toList_append, String.toList_append, hcolons, List.append_assoc,
      List.cons_append, List.cons_append, List.nil_append, hgap, splitGap, List.append_nil,
      List.reverse_reverse]
    dsimp only
    rw [side?_piecesText false _ fun n hn => hsmall n (List.mem_of_mem_take hn),
      side?_piecesText true _ fun n hn => hsmall n (List.mem_of_mem_drop hn)]
    -- What is missing to eight pieces is the length of the cut.
    have hbound := hcut.1
    have hlengths : (ns.take start).length + (ns.drop (start + count)).length ≤ 7
        ∧ 8 - (ns.take start).length - (ns.drop (start + count)).length = count := by
      rw [List.length_take, List.length_drop, hlength]
      dsimp only at hbound
      omega
    refine (if_pos hlengths.1).trans (congrArg some ?_)
    rw [hlengths.2]
    exact eq_of_isCut ns start count hcut

/-- An address has eight pieces. -/
theorem ipv6Pieces?_spec (cs : List Char) (ns : List Nat) (h : ipv6Pieces? cs = some ns) :
    ns.length = 8 ∧ ∀ n ∈ ns, n < 65536 := by
  have hside : ∀ allowed cs ns, side? allowed cs = some ns → ∀ n ∈ ns, n < 65536 := by
    intro allowed cs ns h
    unfold side? at h
    split at h
    · rw [← Option.some.inj h]
      exact fun n hn => absurd hn List.not_mem_nil
    · exact pieces?_lt allowed _ ns h
  unfold ipv6Pieces? at h
  -- Without a gap there are eight pieces, and a gap stands for the zeros that are missing.
  split at h
  · rcases Option.bind_eq_some_iff.mp h with ⟨ms, hms, h⟩
    split at h
    · rename_i hlength
      rw [← Option.some.inj h]
      exact ⟨hlength, pieces?_lt true _ ms hms⟩
    · exact absurd h.symm (Option.some_ne_none ns)
  · rcases Option.bind_eq_some_iff.mp h with ⟨left, hleft, h⟩
    rcases Option.bind_eq_some_iff.mp h with ⟨right, hright, h⟩
    split at h
    · rename_i hlength
      rw [← Option.some.inj h]
      refine ⟨?_, fun n hn => ?_⟩
      · rw [List.length_append, List.length_append, List.length_replicate]
        omega
      · rcases List.mem_append.mp hn with hn | hn
        · rcases List.mem_append.mp hn with hn | hn
          · exact hside _ _ left hleft n hn
          · rw [(List.mem_replicate.mp hn).2]
            decide
        · exact hside _ _ right hright n hn
    · exact absurd h.symm (Option.some_ne_none ns)

end Ipv6

end Host

end OpenApi
