import Mathlib.Data.List.Forall2
import OpenApi.Proofs.Text.CaseFold
import OpenApi.Proofs.Text.Split
import OpenApi.Proofs.Uri.Punycode
import OpenApi.Uri.Host

/-!
# Domain Names Are in Their Final Form

Reading a domain name brings it to a form that reading does not change. The
characters are mapped once and for all: a mapped character is mapped to itself
and is none that would be dropped. A label of basic characters stays as it is,
and any other one becomes an ASCII form, which claims to be one and keeps the
promise, as its label comes back from it and is written that way.

## Main definitions

* `Host.narrow`: The code point of ordinary width.
* `Host.IsPlain`: The characters that a finished domain name consists of.

## Theorems

* `mapChar_mapChar`, `isIgnored_mapChar`: Mapped characters are in their final form.
* `labelText?_labelText?`: So are labels.
* `domain?_domain?`: So are domain names.
-/

namespace OpenApi

namespace Host

/-- The code point of ordinary width. -/
def narrow (n : Nat) : Nat := if 0xff01 ≤ n ∧ n ≤ 0xff5e then n - 0xfee0 else n

/-- Whether a run moves code points to characters, of ordinary width unless it
    starts from wide ones, and to none that a domain name treats otherwise. -/
def tame (r : CaseFold.Run) : Bool :=
  let low := r.target r.first
  let high := r.target r.last
  let avoids := fun a b : Nat => Nat.blt high a || Nat.blt b low
  (Nat.blt high 0xd800 || (Nat.blt 0xdfff low && Nat.blt high 0x110000))
    && ((Nat.ble 0xff01 r.first && Nat.ble r.last 0xff5e) || avoids 0xff01 0xff5e)
    && avoids 0x3002 0x3002 && avoids 0xff61 0xff61 && avoids 0xad 0xad && avoids 0x34f 0x34f
    && avoids 0x200b 0x200b && avoids 0x2060 0x2060 && avoids 0x2064 0x2064 && avoids 0xfeff 0xfeff
    && avoids 0x180b 0x180d && avoids 0xfe00 0xfe0f

theorem tame_runs : CaseFold.runs.all tame = true := by decide +kernel

theorem toNat_ofNat (n : Nat) (h : n.isValidChar) : (Char.ofNat n).toNat = n := by
  rw [Char.ofNat, dif_pos h]
  rfl

theorem isIgnored_eq_false_iff (c : Char) :
    isIgnored c = false ↔ c.toNat ≠ 0xad ∧ c.toNat ≠ 0x34f ∧ c.toNat ≠ 0x200b ∧ c.toNat ≠ 0x2060
      ∧ c.toNat ≠ 0x2064 ∧ c.toNat ≠ 0xfeff ∧ ¬ (0x180b ≤ c.toNat ∧ c.toNat ≤ 0x180d)
      ∧ ¬ (0xfe00 ≤ c.toNat ∧ c.toNat ≤ 0xfe0f) := by
  simp only [isIgnored, Bool.or_eq_false_iff, beq_eq_false_iff_ne, Bool.and_eq_false_iff,
    decide_eq_false_iff_not, ne_eq, not_and_or, and_assoc]

/-- What is known of the code point that a character is folded to. -/
theorem fold_narrow (c : Char) (hignored : isIgnored c = false)
    (hpoint : ¬ (c.toNat = 0x3002 ∨ c.toNat = 0xff61)) (d : Char)
    (hd : d = Char.ofNat (CaseFold.fold (narrow c.toNat))) :
    d.toNat = CaseFold.fold (narrow c.toNat) ∧ narrow d.toNat = d.toNat
      ∧ ¬ (d.toNat = 0x3002 ∨ d.toNat = 0xff61) ∧ isIgnored d = false := by
  have hc : c.toNat < 0xd800 ∨ (0xdfff < c.toNat ∧ c.toNat < 0x110000) := c.valid
  rw [isIgnored_eq_false_iff] at hignored ⊢
  -- Wide forms become ASCII, and any other character stays outside of the wide forms.
  have hnarrow : narrow c.toNat = c.toNat ∧ ¬ (0xff01 ≤ c.toNat ∧ c.toNat ≤ 0xff5e)
      ∨ 0x21 ≤ narrow c.toNat ∧ narrow c.toNat ≤ 0x7e := by
    unfold narrow
    split
    · exact Or.inr (by omega)
    · rename_i hwide
      exact Or.inl ⟨rfl, hwide⟩
  suffices h : ∀ f, f = CaseFold.fold (narrow c.toNat) → f.isValidChar
      ∧ ¬ (0xff01 ≤ f ∧ f ≤ 0xff5e) ∧ ¬ (f = 0x3002 ∨ f = 0xff61) ∧ f ≠ 0xad ∧ f ≠ 0x34f
      ∧ f ≠ 0x200b ∧ f ≠ 0x2060 ∧ f ≠ 0x2064 ∧ f ≠ 0xfeff ∧ ¬ (0x180b ≤ f ∧ f ≤ 0x180d)
      ∧ ¬ (0xfe00 ≤ f ∧ f ≤ 0xfe0f) by
    rcases h _ rfl with ⟨hvalid, hwide, hrest⟩
    have hnat : d.toNat = CaseFold.fold (narrow c.toNat) := by
      rw [hd]
      exact toNat_ofNat _ hvalid
    refine ⟨hnat, ?_, ?_⟩
    · rw [hnat]
      exact if_neg hwide
    · rw [hnat]
      exact hrest
  rintro f rfl
  rcases CaseFold.fold_cases (narrow c.toNat) with ⟨r, hr, hholds, hfold⟩ | ⟨_, hfold⟩
  · -- A run moves the code point, and the run is tame.
    have htame := List.all_eq_true.mp tame_runs r hr
    have hbounds := r.target_bounds _ hholds
    have hreach := r.bounds_of_holds _ hholds
    simp only [tame, Bool.and_eq_true, Bool.or_eq_true, Nat.blt_eq, Nat.ble_eq] at htame
    rw [hfold]
    unfold Nat.isValidChar
    omega
  · rw [hfold]
    unfold Nat.isValidChar
    omega

theorem mapChar_of_folded (c : Char) (hpoint : ¬ (c.toNat = 0x3002 ∨ c.toNat = 0xff61))
    (hkept : ¬ (c.toNat = 0xdf ∨ c.toNat = 0x3c2)) :
    mapChar c = Char.ofNat (CaseFold.fold (narrow c.toNat)) := by
  unfold mapChar
  dsimp only
  rw [if_neg hpoint, if_neg hkept]
  rfl

/-- A mapped character is in its final form. -/
theorem mapChar_mapChar (c : Char) (hignored : isIgnored c = false) :
    mapChar (mapChar c) = mapChar c ∧ isIgnored (mapChar c) = false := by
  by_cases hpoint : c.toNat = 0x3002 ∨ c.toNat = 0xff61
  · have hmap : mapChar c = '.' := if_pos hpoint
    rw [hmap]
    exact ⟨by decide, by decide⟩
  · by_cases hkept : c.toNat = 0xdf ∨ c.toNat = 0x3c2
    · have hmap : mapChar c = c := by
        unfold mapChar
        dsimp only
        rw [if_neg hpoint, if_pos hkept]
      rw [hmap]
      exact ⟨hmap, hignored⟩
    · have hmap := mapChar_of_folded c hpoint hkept
      rcases fold_narrow c hignored hpoint (mapChar c) hmap with ⟨hnat, hnarrow, hpoint', hignored'⟩
      refine ⟨?_, hignored'⟩
      -- What is folded folds to itself, unless it is one of the two letters that are kept.
      by_cases hkept' : (mapChar c).toNat = 0xdf ∨ (mapChar c).toNat = 0x3c2
      · unfold mapChar at hpoint' hkept' ⊢
        dsimp only at hpoint' hkept' ⊢
        rw [if_neg hpoint', if_pos hkept']
      · rw [mapChar_of_folded _ hpoint' hkept', hnarrow, hnat, CaseFold.fold_fold, ← hnat,
          Char.ofNat_toNat]

/-- The characters that a finished domain name consists of, and points. -/
def IsPlain (c : Char) : Prop := c.toNat < 0x80 ∧ mapChar c = c

instance : DecidablePred IsPlain := fun _ => inferInstanceAs (Decidable (_ ∧ _))

theorem isIgnored_of_ascii (c : Char) (h : c.toNat < 0x80) : isIgnored c = false :=
  (isIgnored_eq_false_iff c).mpr (by omega)

theorem isUnusable_of_ascii (c : Char) (h : c.toNat < 0x80) : isUnusable c = false := by
  unfold isUnusable
  dsimp only
  rw [decide_eq_false (Nat.not_le.mpr h), Bool.false_and]

theorem isPlain_digit : ∀ d < 36, IsPlain (Punycode.digit d) ∧ Punycode.digit d ≠ '.' := by
  decide +kernel

theorem isPlain_prefix (c : Char) (hc : c ∈ ['x', 'n', '-', '-']) : IsPlain c ∧ c ≠ '.' := by
  simp only [List.mem_cons, List.not_mem_nil, or_false, or_self] at hc
  rcases hc with rfl | rfl | rfl
  · decide +kernel
  · decide +kernel
  · decide +kernel

section Label

variable (label : List Char) (hchars : ∀ c ∈ label, isLabelChar c = true) (hpoint : '.' ∉ label)

include hchars

/-- The ASCII form of a label is one. -/
theorem labelText?_claim (hany : ¬ (label.all fun c => decide (c.toNat < 0x80)) = true)
    (hascii : ((['x', 'n', '-', '-'] ++ Punycode.encode label).all
      fun c => decide (c.toNat < 0x80)) = true) :
    labelText? (['x', 'n', '-', '-'] ++ Punycode.encode label)
      = some (['x', 'n', '-', '-'] ++ Punycode.encode label) := by
  have hlarge : (label.any fun c => decide (0x80 ≤ c.toNat)) = true := by
    rw [Bool.not_eq_true, List.all_eq_false] at hany
    rcases hany with ⟨c, hc, hlarge⟩
    exact List.any_eq_true.mpr ⟨c, hc, by
      simpa only [decide_eq_true_eq, Nat.not_lt] using hlarge⟩
  rw [List.cons_append, List.cons_append, List.cons_append, List.cons_append, List.nil_append] at hascii ⊢
  rw [labelText?, Punycode.decode?_encode]
  dsimp only
  rw [hascii, hlarge, List.all_eq_true.mpr hchars]
  exact if_pos (beq_self_eq_true (Punycode.encode label))

include hpoint

theorem isPlain_of_ascii (hall : (label.all fun c => decide (c.toNat < 0x80)) = true) :
    ∀ c ∈ label, IsPlain c ∧ c ≠ '.' := by
  intro c hc
  have hchar := hchars c hc
  unfold isLabelChar at hchar
  rw [Bool.and_eq_true, beq_iff_eq] at hchar
  exact ⟨⟨of_decide_eq_true (List.all_eq_true.mp hall c hc), hchar.2⟩,
    fun heq => hpoint (heq ▸ hc)⟩

theorem isPlain_encode : ∀ c ∈ ['x', 'n', '-', '-'] ++ Punycode.encode label,
    IsPlain c ∧ c ≠ '.' := by
  intro c hc
  rcases List.mem_append.mp hc with hc | hc
  · exact isPlain_prefix c hc
  · rcases Punycode.mem_encode label c hc with ⟨hc, hsmall⟩ | rfl | ⟨d, hd, rfl⟩
    · have hchar := hchars c hc
      unfold isLabelChar at hchar
      rw [Bool.and_eq_true, beq_iff_eq] at hchar
      exact ⟨⟨hsmall, hchar.2⟩, fun heq => hpoint (heq ▸ hc)⟩
    · exact isPlain_prefix '-' (by decide)
    · exact isPlain_digit d hd

/-- A label of mapped and usable characters is written with plain ones, and in
    its final form. -/
theorem labelText?_labelText? (form : List Char) (h : labelText? label = some form) :
    labelText? form = some form ∧ ∀ c ∈ form, IsPlain c ∧ c ≠ '.' := by
  have hkeep := h
  unfold labelText? at h
  split at h
  · split at h
    · split at h
      · -- A label that claims to be encoded is taken as it is, once the claim has been checked.
        rename_i hclaim
        rw [Bool.and_eq_true, Bool.and_eq_true, Bool.and_eq_true] at hclaim
        rw [← Option.some.inj h] at hkeep ⊢
        exact ⟨hkeep, isPlain_of_ascii _ hchars hpoint hclaim.1.1.1⟩
      · exact absurd h.symm (Option.some_ne_none _)
    · exact absurd h.symm (Option.some_ne_none _)
  · split at h
    · rename_i hall
      rw [← Option.some.inj h] at hkeep ⊢
      exact ⟨hkeep, isPlain_of_ascii _ hchars hpoint hall⟩
    · rename_i hall
      have hplain := isPlain_encode label hchars hpoint
      rw [← Option.some.inj h]
      exact ⟨labelText?_claim label hchars hall
        (List.all_eq_true.mpr fun c hc => decide_eq_true (hplain c hc).1.1), hplain⟩

end Label

theorem forall₂_of_mapM {α β : Type} (f : α → Option β) :
    ∀ (as : List α) (bs : List β), as.mapM f = some bs →
      List.Forall₂ (fun a b => f a = some b) as bs := by
  intro as
  induction as with
  | nil =>
      intro bs h
      rw [List.mapM_nil] at h
      rw [← Option.some.inj h]
      exact .nil
  | cons a as ih =>
      intro bs h
      rw [List.mapM_cons] at h
      rcases Option.bind_eq_some_iff.mp h with ⟨b, hb, hrest⟩
      rcases Option.bind_eq_some_iff.mp hrest with ⟨bs', hbs, hcons⟩
      rw [← Option.some.inj hcons]
      exact .cons hb (ih bs' hbs)

theorem exists_of_mapM {α β : Type} (f : α → Option β) (as : List α) (bs : List β)
    (h : as.mapM f = some bs) (b : β) (hb : b ∈ bs) : ∃ a ∈ as, f a = some b := by
  have hzip := forall₂_of_mapM f as bs h
  rcases List.mem_iff_getElem.mp hb with ⟨i, hi, rfl⟩
  have hi' : i < as.length := by
    rw [hzip.length_eq]
    exact hi
  exact ⟨as[i], List.getElem_mem hi', hzip.get hi' hi⟩

theorem mapM_of_forall {α β : Type} (f : α → Option β) (g : α → β) (as : List α)
    (h : ∀ a ∈ as, f a = some (g a)) : as.mapM f = some (as.map g) := by
  induction as with
  | nil => rfl
  | cons a as ih =>
      rw [List.mapM_cons, h a List.mem_cons_self, ih fun b hb => h b (List.mem_cons_of_mem a hb)]
      rfl

/-- A name of finished labels is finished. -/
theorem domain?_of_forms (forms : List (List Char)) (name : List Char)
    (hname : ['.'].intercalate forms = name) (hne : forms ≠ [])
    (hforms : ∀ form ∈ forms, labelText? form = some form ∧ ∀ c ∈ form, IsPlain c ∧ c ≠ '.')
    (hallowed : ¬ (name.isEmpty ∨ name.any isForbiddenInDomain)) :
    domain? name = some name ∧ ∀ c ∈ name, IsPlain c := by
  have hplain : ∀ c ∈ name, IsPlain c := by
    intro c hc
    rw [← hname] at hc
    rcases Text.mem_intercalate '.' forms c hc with rfl | ⟨form, hform, hc⟩
    · decide
    · exact ((hforms form hform).2 c hc).1
  refine ⟨?_, hplain⟩
  have hmapped : (name.filter fun c => !isIgnored c).map mapChar = name := by
    have hkept : ∀ c ∈ name, (!isIgnored c) = true := by
      intro c hc
      rw [isIgnored_of_ascii c (hplain c hc).1]
      rfl
    rw [List.filter_eq_self.mpr hkept]
    exact (List.map_congr_left fun c hc => (hplain c hc).2).trans (List.map_id name)
  have husable : name.any isUnusable = false := by
    rw [List.any_eq_false]
    intro c hc
    rw [isUnusable_of_ascii c (hplain c hc).1]
    exact Bool.false_ne_true
  have hparts : Text.splitBy (· == '.') name = forms := by
    rw [← hname]
    refine Text.splitBy_intercalate _ '.' rfl forms hne fun form hform c hc => ?_
    exact beq_eq_false_iff_ne.mpr ((hforms form hform).2 c hc).2
  have hlabels : forms.mapM labelText? = some forms := by
    have h := mapM_of_forall labelText? id forms fun form hform => (hforms form hform).1
    rwa [List.map_id] at h
  -- No step of the reading finds anything to do.
  unfold domain?
  dsimp only
  rw [hmapped, husable, if_neg Bool.false_ne_true, hparts, hlabels]
  change (if (['.'].intercalate forms).isEmpty ∨ (['.'].intercalate forms).any isForbiddenInDomain
    then none else pure (['.'].intercalate forms)) = _
  rw [hname, if_neg hallowed]
  rfl

/-- A domain name is in its final form, and consists of plain characters that are
    allowed in it. -/
theorem domain?_domain? (cs name : List Char) (h : domain? cs = some name) :
    domain? name = some name ∧ name ≠ []
      ∧ ∀ c ∈ name, IsPlain c ∧ isForbiddenInDomain c = false := by
  unfold domain? at h
  dsimp only at h
  split at h
  · exact absurd h.symm (Option.some_ne_none _)
  · rename_i husable
    rcases Option.bind_eq_some_iff.mp h with ⟨forms, hforms, hname⟩
    split at hname
    · exact absurd hname.symm (Option.some_ne_none _)
    · rename_i hallowed
      have hzip := forall₂_of_mapM labelText? _ forms hforms
      have hne : forms ≠ [] := by
        rintro rfl
        exact Text.splitBy_ne_nil _ _ (List.forall₂_nil_right_iff.mp hzip)
      have hfinal : ∀ form ∈ forms, labelText? form = some form ∧ ∀ c ∈ form, IsPlain c ∧ c ≠ '.' := by
        intro form hform
        rcases exists_of_mapM labelText? _ forms hforms form hform with ⟨label, hpart, hlabel⟩
        -- The characters of a label are mapped, and all of them are usable.
        have hmem := Text.stop_of_mem_splitBy _ _ _ hpart
        refine labelText?_labelText? _ (fun c hc => ?_) (fun hc => ?_) _ hlabel
        · rcases List.mem_map.mp (hmem c hc).2 with ⟨source, hsource, rfl⟩
          have hkept := (List.mem_filter.mp hsource).2
          rw [Bool.not_eq_true'] at hkept
          rcases mapChar_mapChar source hkept with ⟨hmap, hignored⟩
          have husable' : isUnusable (mapChar source) = false := by
            rw [Bool.not_eq_true, List.any_eq_false] at husable
            exact Bool.eq_false_iff.mpr (husable _ (hmem _ hc).2)
          unfold isLabelChar
          rw [hignored, husable', hmap, beq_self_eq_true]
          rfl
        · exact absurd (hmem '.' hc).1 (by decide)
      rw [Option.pure_def, Option.some.injEq] at hname
      rcases domain?_of_forms forms name hname hne hfinal (by rwa [hname] at hallowed) with
        ⟨hfixed, hplain⟩
      rw [hname, not_or, List.isEmpty_iff, Bool.not_eq_true, List.any_eq_false] at hallowed
      exact ⟨hfixed, hallowed.1, fun c hc =>
        ⟨hplain c hc, Bool.eq_false_iff.mpr (hallowed.2 c hc)⟩⟩

end Host

end OpenApi
