import OpenApi.Proofs.Uri.Host

/-!
# Authorities Are in Their Final Form

An authority is read from what stands between two slashes and the path: a user up
to the last at sign, a host, and a port behind the first colon that is not inside
brackets. The user and the password are encoded, so neither of them has an at sign
or a colon left, and the host fits. So the parts are found again where they were
written.

## Main definitions

* `Uri.IsAuthority`: An authority in its final form.
* `Uri.authorityChars`: How it is written.

## Theorems

* `isAuthority_readAuthority?`: What is read is in its final form.
* `readAuthority?_authorityChars`: What is in its final form is read as it is.
-/

namespace OpenApi

theorem Percent.spares_userSet : Percent.Spares Percent.userSet :=
  spares_of_ascii _ (by decide) (by decide)

namespace Uri

/-- A user name or a password as it is kept. -/
def IsUserText (text : String) : Prop :=
  ∀ c ∈ text.toList, Percent.userSet c = false ∧ c.toNat < 0x80

theorem isUserText_encode (cs : List Char) :
    IsUserText (String.ofList (Percent.encode Percent.userSet cs)) := by
  unfold IsUserText
  rw [String.toList_ofList]
  exact Percent.mem_encode _ Percent.spares_userSet cs

/-- How the host of a scheme is read. -/
def readHost? (scheme : String) (cs : List Char) : Option String :=
  if isSpecial scheme then Host.read? cs else Host.readVerbatim? cs

/-- An authority as it is kept, under a scheme other than `file`. -/
structure IsAuthority (scheme : String) (a : Authority) : Prop where
  /-- The user name. -/
  user : IsUserText a.user
  /-- The password. -/
  password : ∀ p, a.password = some p → p ≠ "" ∧ IsUserText p
  /-- The host comes back. -/
  host : readHost? scheme a.host.toList = some a.host
  /-- The host fits. -/
  fits : Host.Fits a.host.toList
  /-- The port is written because it is needed. -/
  port : ∀ p, a.port = some p → p ≤ 65535 ∧ defaultPort? scheme ≠ some p
  /-- Without a host there is nothing. -/
  alone : a.host = "" → isSpecial scheme = false ∧ a.user = "" ∧ a.password = none ∧ a.port = none

theorem isUserText_readUser (cs : List Char) :
    IsUserText (readUser cs).1 ∧ ∀ p, (readUser cs).2 = some p → p ≠ "" ∧ IsUserText p := by
  unfold readUser
  dsimp only
  split
  · exact ⟨isUserText_encode _, fun p h => absurd h.symm (Option.some_ne_none p)⟩
  · exact ⟨isUserText_encode _, fun p h => absurd h.symm (Option.some_ne_none p)⟩
  · rename_i user password hne hsplit
    refine ⟨isUserText_encode _, fun p h => ?_⟩
    rw [← Option.some.inj h]
    refine ⟨fun hempty => ?_, isUserText_encode _⟩
    exact Percent.encode_ne_nil _ password (fun hnil => hne hnil)
      (String.ofList_eq_empty_iff.mp hempty)

theorem port_of_readPort? (scheme : String) (cs rest : List Char) (port : Option Nat)
    (h : readPort? scheme cs = some (port, rest)) :
    (∀ p, port = some p → p ≤ 65535 ∧ defaultPort? scheme ≠ some p) ∧ (cs = [] → port = none) := by
  cases cs with
  | nil =>
      rw [← (Prod.mk.inj (Option.some.inj h)).1]
      exact ⟨fun p hp => absurd hp.symm (Option.some_ne_none p), fun _ => rfl⟩
  | cons c cs =>
      refine ⟨?_, fun hnil => absurd hnil (List.cons_ne_nil _ _)⟩
      simp only [readPort?] at h
      split_ifs at h with hbound hneeded
      · rw [← (Prod.mk.inj (Option.some.inj h)).1]
        exact fun p hp => absurd hp.symm (Option.some_ne_none p)
      · rw [not_or, Nat.not_lt] at hbound
        rw [not_or] at hneeded
        intro p hp
        rw [← (Prod.mk.inj (Option.some.inj h)).1, Option.some.injEq] at hp
        rw [← hp]
        exact ⟨hbound.2, hneeded.2⟩

theorem readHost?_readHost? (scheme : String) (cs : List Char) (host : String)
    (h : readHost? scheme cs = some host) :
    readHost? scheme host.toList = some host ∧ Host.Fits host.toList
      ∧ (host = "" → isSpecial scheme = false ∧ cs = []) := by
  unfold readHost? at h ⊢
  split_ifs at h ⊢ with hspecial
  · rcases Host.read?_read? cs host h with ⟨hread, hfits, hne⟩
    exact ⟨hread, hfits, fun hempty => absurd hempty hne⟩
  · rcases Host.readVerbatim?_readVerbatim? cs host h with ⟨hread, hfits⟩
    refine ⟨hread, hfits, fun hempty => ⟨Bool.eq_false_iff.mpr hspecial, ?_⟩⟩
    rw [hempty] at h
    exact Host.eq_nil_of_readVerbatim? cs h

/-- Reading an authority, step by step. -/
theorem readAuthority?_eq (scheme : String) (more : Bool) (cs : List Char) :
    readAuthority? scheme more cs =
      let front := cs.takeWhile fun c => !endsSegment (isSpecial scheme) c
      let rest := cs.dropWhile fun c => !endsSegment (isSpecial scheme) c
      let parts := splitUser front
      let user := readUser (parts.1.getD [])
      let ends := splitHost false parts.2
      if parts.1 = some [] ∧ parts.2.isEmpty ∧ (¬ rest.isEmpty ∨ more) then none
      else if ends.1.isEmpty
          ∧ (isSpecial scheme ∨ ¬ ends.2.isEmpty ∨ user.1 ≠ "" ∨ user.2.isSome) then none
      else
        (readHost? scheme ends.1).bind fun host => (readPort? scheme ends.2).bind fun port =>
          some (⟨user.1, user.2, host, port.1⟩, port.2 ++ rest) := by
  unfold readAuthority? readHost?
  dsimp only
  split_ifs <;> rfl

/-- The authority that is read is in its final form. -/
theorem isAuthority_readAuthority? (scheme : String) (more : Bool) (cs rest : List Char)
    (a : Authority) (h : readAuthority? scheme more cs = some (a, rest)) : IsAuthority scheme a := by
  rw [readAuthority?_eq] at h
  dsimp only at h
  split_ifs at h with hnobody halone
  rcases Option.bind_eq_some_iff.mp h with ⟨host, hhost, h⟩
  rcases Option.bind_eq_some_iff.mp h with ⟨⟨port, after⟩, hport, h⟩
  rw [← (Prod.mk.inj (Option.some.inj h)).1]
  have huser := isUserText_readUser
    ((splitUser (cs.takeWhile fun c => !endsSegment (isSpecial scheme) c)).1.getD [])
  have hports := port_of_readPort? scheme _ after port hport
  rcases readHost?_readHost? scheme _ host hhost with ⟨hread, hfits, hempty⟩
  refine ⟨huser.1, huser.2, hread, hfits, hports.1, fun hnone => ?_⟩
  rcases hempty hnone with ⟨hspecial, htext⟩
  rw [not_and, not_or, not_or, not_or, not_not, not_not] at halone
  rcases halone (List.isEmpty_iff.mpr htext) with ⟨_, hporttext, hname, hpassword⟩
  exact ⟨hspecial, hname, Option.not_isSome_iff_eq_none.mp hpassword,
    hports.2 (List.isEmpty_iff.mp hporttext)⟩

/-- A port with the colon in front of it. -/
def portChars : Option Nat → List Char
  | some port => ':' :: Nat.toDigits 10 port
  | none => []

/-- How an authority is written behind the two slashes. -/
def authorityChars (a : Authority) : List Char :=
  (userText a).toList ++ (a.host.toList ++ portChars a.port)

theorem toList_authorityText (a : Authority) :
    (authorityText a).toList = '/' :: '/' :: authorityChars a := by
  have hslashes : "//".toList = ['/', '/'] := rfl
  have hcolon : ":".toList = [':'] := rfl
  unfold authorityText authorityChars
  cases a.port with
  | none =>
      rw [String.toList_append, String.toList_append, String.toList_append, hslashes]
      simp only [List.cons_append, List.nil_append, List.append_assoc]
      rfl
  | some port =>
      have hdigits : (toString port).toList = Nat.toDigits 10 port := Nat.toList_repr
      simp only [String.toList_append, hslashes, hcolon, hdigits, List.cons_append, List.nil_append,
        List.append_assoc, portChars]

theorem splitUser_of_not_mem (cs : List Char) (h : '@' ∉ cs) : splitUser cs = (none, cs) := by
  have hdrop : cs.reverse.dropWhile (· != '@') = [] :=
    List.dropWhile_eq_nil_iff.mpr fun c hc => bne_iff_ne.mpr fun heq =>
      h (heq ▸ List.mem_reverse.mp hc)
  simp only [splitUser, hdrop]

theorem splitUser_append (user cs : List Char) (h : '@' ∉ cs) :
    splitUser (user ++ '@' :: cs) = (some user, cs) := by
  have hcs : ∀ c ∈ cs.reverse, (c != '@') = true := fun c hc => bne_iff_ne.mpr fun heq =>
    h (heq ▸ List.mem_reverse.mp hc)
  have hreverse : (user ++ '@' :: cs).reverse = cs.reverse ++ '@' :: user.reverse := by
    rw [List.reverse_append, List.reverse_cons, List.append_assoc, List.singleton_append]
  simp only [splitUser, hreverse, List.dropWhile_append_of_pos hcs,
    List.takeWhile_append_of_pos hcs, List.dropWhile_cons, List.takeWhile_cons, bne_self_eq_false,
    Bool.false_eq_true, if_false, List.append_nil, List.reverse_reverse]

theorem splitMark_append (mark : Char) (front rest : List Char) (h : mark ∉ front) :
    splitMark mark (front ++ mark :: rest) = (front, some rest) := by
  have hfront : ∀ c ∈ front, (c != mark) = true := fun c hc => bne_iff_ne.mpr fun heq =>
    h (heq ▸ hc)
  simp only [splitMark, List.dropWhile_append_of_pos hfront, List.takeWhile_append_of_pos hfront,
    List.dropWhile_cons, List.takeWhile_cons, bne_self_eq_false, Bool.false_eq_true, if_false,
    List.append_nil]

theorem splitMark_of_not_mem (mark : Char) (cs : List Char) (h : mark ∉ cs) :
    splitMark mark cs = (cs, none) := by
  have hcs : ∀ c ∈ cs, (c != mark) = true := fun c hc => bne_iff_ne.mpr fun heq =>
    h (heq ▸ hc)
  simp only [splitMark, List.dropWhile_eq_nil_iff.mpr hcs, List.takeWhile_eq_self_iff.mpr hcs]

theorem not_mem_of_isUserText (text : String) (h : IsUserText text) (c : Char)
    (hc : Percent.userSet c = true) : c ∉ text.toList := fun hmem =>
  absurd ((h c hmem).1.symm.trans hc) Bool.false_ne_true

theorem encode_of_isUserText (text : String) (h : IsUserText text) :
    String.ofList (Percent.encode Percent.userSet text.toList) = text := by
  rw [Percent.encode_eq_self _ _ h, String.ofList_toList]

/-- The user and the password are found again. -/
theorem splitUser_userText (a : Authority) (huser : IsUserText a.user)
    (hpassword : ∀ p, a.password = some p → p ≠ "" ∧ IsUserText p) (rest : List Char)
    (hrest : '@' ∉ rest) :
    ∃ part, splitUser ((userText a).toList ++ rest) = (part, rest)
      ∧ readUser (part.getD []) = (a.user, a.password) ∧ part ≠ some [] := by
  have hat : "@".toList = ['@'] := rfl
  have hcolon : ":".toList = [':'] := rfl
  have hplain := splitMark_of_not_mem ':' a.user.toList (not_mem_of_isUserText _ huser ':' (by decide))
  unfold userText
  -- The text has no mark, one, or two, as there is nobody, a user, or a user with a password.
  cases hp : a.password with
  | none =>
      by_cases hempty : a.user = ""
      · refine ⟨none, ?_, ?_, Option.some_ne_none [] ∘ Eq.symm⟩
        · rw [if_pos hempty]
          exact splitUser_of_not_mem rest hrest
        · rw [hempty]
          rfl
      · refine ⟨some a.user.toList, ?_, ?_, fun heq => ?_⟩
        · rw [if_neg hempty, String.toList_append, hat, List.append_assoc, List.singleton_append]
          exact splitUser_append a.user.toList rest hrest
        · simp only [readUser, Option.getD_some, hplain, encode_of_isUserText _ huser]
        · exact hempty (String.toList_eq_nil_iff.mp (Option.some.inj heq))
  | some password =>
      rcases hpassword password hp with ⟨hne, htext⟩
      refine ⟨some (a.user.toList ++ ':' :: password.toList), ?_, ?_, fun heq => ?_⟩
      · simp only [String.toList_append, hat, hcolon, List.append_assoc, List.singleton_append]
        rw [← List.append_assoc]
        exact splitUser_append _ rest hrest
      · have hcolons := not_mem_of_isUserText _ huser ':' (by decide)
        rcases List.exists_cons_of_ne_nil fun hnil => hne (String.toList_eq_nil_iff.mp hnil) with
          ⟨c, cs, hlist⟩
        rw [Option.getD_some, hlist]
        simp only [readUser, splitMark_append ':' _ (c :: cs) hcolons]
        rw [← hlist, encode_of_isUserText _ huser, encode_of_isUserText _ htext]
      · exact List.append_ne_nil_of_right_ne_nil _ (List.cons_ne_nil _ _) (Option.some.inj heq)

/-- The port is found again. -/
theorem readPort?_portChars (scheme : String) (port : Option Nat)
    (h : ∀ p, port = some p → p ≤ 65535 ∧ defaultPort? scheme ≠ some p) :
    readPort? scheme (portChars port) = some (port, []) := by
  cases port with
  | none => rfl
  | some p =>
      rcases h p rfl with ⟨hle, hneeded⟩
      have hdigits : ∀ c ∈ Nat.toDigits 10 p, c.isDigit = true := fun c hc =>
        Nat.isDigit_of_mem_toDigits (by decide) (by decide) hc
      have hvalue : (Nat.toDigits 10 p).foldl (fun n c => 10 * n + (c.toNat - '0'.toNat)) 0 = p :=
        Nat.ofDigitChars_ten_toDigits
      have hne : (Nat.toDigits 10 p).isEmpty = false :=
        List.isEmpty_eq_false_iff.mpr Nat.toDigits_ne_nil
      simp only [portChars, readPort?, List.takeWhile_eq_self_iff.mpr hdigits,
        List.dropWhile_eq_nil_iff.mpr hdigits, hvalue, hne, Bool.false_eq_true, not_true_eq_false,
        false_or, if_neg hneeded, if_neg (Nat.not_lt.mpr hle)]

/-- The characters of an authority. -/
theorem mem_authorityChars (scheme : String) (a : Authority) (ha : IsAuthority scheme a) (c : Char)
    (hc : c ∈ authorityChars a) : Host.isHostChar c = true ∨ c = '@' := by
  have huserChar : ∀ text, IsUserText text → c ∈ text.toList → Host.isHostChar c = true :=
    fun text htext hmem => Percent.of_ascii
      (fun c => Percent.userSet c = false → Host.isHostChar c = true) (by decide +kernel) c
        (htext c hmem).2 (htext c hmem).1
  have hat : "@".toList = ['@'] := rfl
  have hcolon : ":".toList = [':'] := rfl
  -- A character is of the user, of the host, or of the port.
  rcases List.mem_append.mp hc with hc | hc
  · unfold userText at hc
    split at hc
    · rename_i password hp
      simp only [String.toList_append, hat, hcolon, List.mem_append, List.mem_singleton] at hc
      rcases hc with ((hc | rfl) | hc) | hc
      · exact Or.inl (huserChar _ ha.user hc)
      · exact Or.inl (by decide)
      · exact Or.inl (huserChar _ (ha.password password hp).2 hc)
      · exact Or.inr hc
    · split at hc
      · exact absurd hc List.not_mem_nil
      · rw [String.toList_append, hat] at hc
        rcases List.mem_append.mp hc with hc | hc
        · exact Or.inl (huserChar _ ha.user hc)
        · exact Or.inr (List.mem_singleton.mp hc)
  · rcases List.mem_append.mp hc with hc | hc
    · exact Or.inl (ha.fits.chars c hc)
    · unfold portChars at hc
      split at hc
      · rcases List.mem_cons.mp hc with rfl | hc
        · exact Or.inl (by decide)
        · rcases Host.mem_toDigits 10 (by decide) (by decide) _ c hc with ⟨d, hd, rfl⟩
          exact Or.inl ((by decide : ∀ d < 16, Host.isHostChar (Nat.digitChar d) = true) d hd)
      · exact absurd hc List.not_mem_nil

theorem isSlash_of_isHostChar (c : Char) (h : Host.isHostChar c = true) : isSlash c = false := by
  simp only [Host.isHostChar, Bool.and_eq_true, bne_iff_ne] at h
  rw [isSlash, beq_eq_false_iff_ne.mpr h.1.1.1.1.1.2, beq_eq_false_iff_ne.mpr h.1.1.1.1.2,
    Bool.or_false]

theorem isSlash_of_mem_authorityChars (scheme : String) (a : Authority) (ha : IsAuthority scheme a)
    (c : Char) (hc : c ∈ authorityChars a) : isSlash c = false := by
  rcases mem_authorityChars scheme a ha c hc with hhost | rfl
  · exact isSlash_of_isHostChar c hhost
  · rfl

theorem endsSegment_of_isSlash (special : Bool) (c : Char) (h : isSlash c = false) :
    endsSegment special c = false := by
  rw [isSlash, Bool.or_eq_false_iff] at h
  rw [endsSegment, h.1, h.2, Bool.and_false, Bool.or_false]

/-- The authority ends where the path starts. -/
theorem span_authorityChars (scheme : String) (a : Authority) (ha : IsAuthority scheme a)
    (rest : List Char) (hrest : ∀ c tail, rest = c :: tail → c = '/') :
    (authorityChars a ++ rest).takeWhile (fun c => !endsSegment (isSpecial scheme) c)
        = authorityChars a
      ∧ (authorityChars a ++ rest).dropWhile (fun c => !endsSegment (isSpecial scheme) c) = rest := by
  have hslash : ∀ c ∈ authorityChars a, (!endsSegment (isSpecial scheme) c) = true := by
    intro c hc
    rw [endsSegment_of_isSlash _ c (isSlash_of_mem_authorityChars scheme a ha c hc), Bool.not_false]
  rw [List.takeWhile_append_of_pos hslash, List.dropWhile_append_of_pos hslash]
  cases rest with
  | nil => exact ⟨List.append_nil _, rfl⟩
  | cons c tail =>
      rw [hrest c tail rfl]
      exact ⟨List.append_nil _, rfl⟩

theorem at_not_mem_portChars (port : Option Nat) : '@' ∉ portChars port := by
  intro hmem
  unfold portChars at hmem
  split at hmem
  · rcases List.mem_cons.mp hmem with hmem | hmem
    · exact absurd hmem (by decide)
    · exact absurd (Nat.isDigit_of_mem_toDigits (by decide) (by decide) hmem) (by decide)
  · exact absurd hmem List.not_mem_nil

/-- The authority comes back from its text, up to the path. -/
theorem readAuthority?_authorityChars (scheme : String) (more : Bool) (a : Authority)
    (ha : IsAuthority scheme a) (rest : List Char) (hrest : ∀ c tail, rest = c :: tail → c = '/') :
    readAuthority? scheme more (authorityChars a ++ rest) = some (a, rest) := by
  have hfront := span_authorityChars scheme a ha rest hrest
  -- The mark behind the user is the last one.
  have hhost : '@' ∉ a.host.toList ++ portChars a.port := by
    intro hmem
    rcases List.mem_append.mp hmem with hmem | hmem
    · exact absurd (ha.fits.chars '@' hmem) (by decide)
    · exact at_not_mem_portChars a.port hmem
  have hport : ∀ c tail, portChars a.port = c :: tail → c = ':' := by
    intro c tail hchars
    unfold portChars at hchars
    split at hchars
    · exact (List.cons.inj hchars).1.symm
    · exact absurd hchars.symm (List.cons_ne_nil _ _)
  -- Now each part is cut off where it ends, from the left to the right.
  rcases splitUser_userText a ha.user ha.password _ hhost with ⟨part, hsplit, huser, hpart⟩
  rw [readAuthority?_eq]
  dsimp only
  rw [hfront.1, hfront.2, authorityChars, hsplit]
  dsimp only
  rw [huser, ha.fits.split _ hport, if_neg fun h => hpart h.1, if_neg ?_, ha.host,
    Option.bind_some, readPort?_portChars scheme a.port ha.port]
  · rfl
  · rintro ⟨hempty, hnot⟩
    rcases ha.alone (String.toList_eq_nil_iff.mp (List.isEmpty_iff.mp hempty)) with
      ⟨hspecial, hname, hpassword, hnone⟩
    rw [hspecial, hname, hpassword, hnone] at hnot
    rcases hnot with hnot | hnot | hnot | hnot
    · exact Bool.false_ne_true hnot
    · exact hnot rfl
    · exact hnot rfl
    · exact Bool.false_ne_true hnot

end Uri

end OpenApi
