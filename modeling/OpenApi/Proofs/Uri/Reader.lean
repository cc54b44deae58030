import OpenApi.Proofs.Uri.Regular

/-!
# Regular URIs Come Back

Reading the text of a regular URI gives the URI again. The text is taken apart
from the outside in: there is nothing around it to be dropped, its first hash
sign starts the fragment and its first question mark before that the query,
since both are encoded everywhere else. What is left starts with the scheme, and
its rest is read as it was written, part by part.

Only blanks at the very end of a text would be lost. A path that is no sequence
of segments may have some, but none are left in the path of a document, and a
fragment hides them.

## Main definitions

* `Uri.restChars`: How the authority and the path are written.

## Theorems

* `readAbsolute?_restChars`: The authority and the path come back.
* `clean_of_visible`: Nothing is dropped from a text without blanks around it.
* `read?_text`: A regular URI comes back.
-/

namespace OpenApi

namespace Uri

/-- What stands between the colon behind the scheme and the query. -/
def restChars (authority : Option Authority) (path : UriPath) : List Char :=
  (frontText ⟨"", authority, path, none, none⟩ ++ pathText path).toList

section Segments

variable (special file : Bool) (list : List String) (h : IsPath special file list)

/-- The path is empty or starts with a slash. -/
theorem segmentsText_cases :
    (list = [] ∧ (segmentsText list).toList = [])
      ∨ (list ≠ [] ∧ (segmentsText list).toList = '/' :: joined list) := by
  rcases list with _ | ⟨s, rest⟩
  · exact Or.inl ⟨rfl, rfl⟩
  · exact Or.inr ⟨List.cons_ne_nil _ _, toList_segmentsText _ (List.cons_ne_nil _ _)⟩

theorem restChars_some (a : Authority) :
    restChars (some a) (.segments list)
      = '/' :: '/' :: (authorityChars a ++ (segmentsText list).toList) := by
  unfold restChars frontText pathText
  rw [String.toList_append, toList_authorityText]
  rfl

theorem restChars_rootless (text : String) : restChars none (.rootless text) = text.toList := by
  unfold restChars frontText pathText
  rw [String.toList_append]
  rfl

include h

/-- Behind a first segment that is not empty there is no second slash. -/
theorem joined_ne_slash (s : String) (rest : List String) (hlist : list = s :: rest)
    (hs : rest ≠ [] → s ≠ "") (tail : List Char) : joined list ≠ '/' :: tail := by
  intro heq
  have hslash : '/' ∉ s.toList := by
    intro hmem
    have hends := ((h.segments s (hlist ▸ List.mem_cons_self)).chars '/' hmem).2.2
    exact absurd hends (by cases special with
      | true => decide
      | false => decide)
  rw [hlist] at heq
  unfold joined at heq
  rcases hchars : s.toList with _ | ⟨c, cs⟩
  · rcases rest with _ | ⟨next, rest⟩
    · rw [List.map_cons, hchars, List.map_nil, List.intercalate_singleton] at heq
      exact absurd heq.symm (List.cons_ne_nil _ _)
    · exact hs (List.cons_ne_nil _ _) (String.toList_eq_nil_iff.mp hchars)
  · rw [List.map_cons, hchars] at heq
    rcases Text.exists_intercalate '/' c cs (rest.map String.toList) with ⟨more, hmore⟩
    rw [hmore] at heq
    rw [hchars, (List.cons.inj heq).1] at hslash
    exact hslash List.mem_cons_self

omit h in
theorem frontText_none :
    frontText ⟨"", none, .segments list, none, none⟩
      = if 1 < list.length ∧ list.head? = some "" then "/." else "" := by
  unfold frontText
  split
  · rename_i heq
    exact absurd heq.symm (Option.some_ne_none _)
  · rename_i heq
    rw [UriPath.segments.inj heq]
    rfl
  · rename_i hnot
    rw [if_neg]
    rintro ⟨hlength, hhead⟩
    rcases list with _ | ⟨s, _ | ⟨next, rest⟩⟩
    · exact absurd hhead.symm (Option.some_ne_none _)
    · exact absurd hlength (Nat.lt_irrefl 1)
    · exact hnot next rest (by rw [Option.some.inj hhead])

/-- Without an authority, two slashes at the start are kept apart. -/
theorem restChars_none (hne : list ≠ []) :
    (restChars none (.segments list) = '/' :: joined list ∧ ∀ tail, joined list ≠ '/' :: tail)
      ∨ restChars none (.segments list) = '/' :: '.' :: '/' :: joined list := by
  have hdot : "/.".toList = ['/', '.'] := rfl
  unfold restChars pathText
  rw [String.toList_append, toList_segmentsText list hne, frontText_none]
  split
  · rw [hdot]
    exact Or.inr rfl
  · rename_i hnot
    refine Or.inl ⟨rfl, ?_⟩
    rcases list with _ | ⟨s, rest⟩
    · exact absurd rfl hne
    · refine joined_ne_slash special file _ h s rest rfl fun hrest hs => hnot ⟨?_, ?_⟩
      · exact Nat.succ_lt_succ (List.length_pos_iff.mpr hrest)
      · rw [hs]
        rfl

end Segments

section Fronts

variable (scheme : String) (more : Bool)

theorem takeWhile_slash (front rest : List Char) (hfront : ∀ c ∈ front, isSlash c = false)
    (hrest : ∀ c tail, rest = c :: tail → c = '/') :
    (front ++ rest).takeWhile (fun c => !isSlash c) = front
      ∧ (front ++ rest).dropWhile (fun c => !isSlash c) = rest := by
  refine Text.span_append (fun c => !isSlash c) front rest (fun c hc => ?_) fun c tail h => ?_
  · rw [hfront c hc, Bool.not_false]
  · rw [hrest c tail h]
    rfl

/-- A host that fits is no drive letter. -/
theorem isDrive_of_fits (cs : List Char) (h : Host.Fits cs) : isDrive cs = false := by
  rw [Bool.eq_false_iff]
  intro hdrive
  rcases isDrive_cases cs hdrive with ⟨letter, mark, rfl, hletter, rfl | rfl⟩
  · -- Its colon would begin a port.
    have hsplit := h.split [] fun c tail heq => absurd heq.symm (List.cons_ne_nil _ _)
    have hbracket : (letter == '[') = false := beq_eq_false_iff_ne.mpr fun heq =>
      absurd (heq ▸ hletter) (by decide)
    have hcolon : (letter == ':') = false := beq_eq_false_iff_ne.mpr fun heq =>
      absurd (heq ▸ hletter) (by decide)
    simp only [List.append_nil, splitHost, hbracket, hcolon, Bool.false_eq_true, if_false,
      ite_self, Bool.not_false, Bool.and_true, beq_self_eq_true, if_true] at hsplit
    exact absurd (List.cons.inj (Prod.mk.inj hsplit).1).2.symm (List.cons_ne_nil _ _)
  · exact absurd (h.chars '|' (List.mem_cons_of_mem _ List.mem_cons_self)) (by decide)

/-- The host of a file comes back. -/
theorem readFileHost?_host (host : String) (hhost : IsFileHost host) (rest : List Char) :
    readFileHost? (host.toList ++ '/' :: rest) = some (host, '/' :: rest) := by
  unfold readFileHost?
  dsimp only
  rcases hhost with rfl | ⟨hread, hfits, hlocal⟩
  · rfl
  · have hslash := takeWhile_slash host.toList ('/' :: rest)
      (fun c hc => isSlash_of_isHostChar c (hfits.chars c hc))
      (fun c tail heq => (List.cons.inj heq).1.symm)
    rw [hslash.1, hslash.2, isDrive_of_fits _ hfits, if_neg Bool.false_ne_true, if_neg, hread]
    · exact congrArg (fun h => some (h, '/' :: rest)) (if_neg hlocal)
    · intro hempty
      exact (Host.read?_read? _ host hread).2.2
        (String.toList_eq_nil_iff.mp (List.isEmpty_iff.mp hempty))

/-- A file comes back behind two slashes. -/
theorem readFile?_host (host : String) (hhost : IsFileHost host) (list : List String)
    (hpath : IsPath true true list) (hne : list ≠ []) (hlist : IsFilePath list)
    (hdrive : list.head?.map (fun s => isPlainDrive s.toList) = some true → host = "") :
    readFile? none ('/' :: '/' :: (host.toList ++ '/' :: joined list))
      = some ⟨"file", some (.ofHost host), .segments list, none, none⟩ := by
  have hback := takePath_joined true true list hne hpath fun _ => hlist
  change (readFileHost? (host.toList ++ '/' :: joined list)).bind _ = _
  rw [readFileHost?_host host hhost, Option.bind_some]
  change some (fileUri (if (takePath true true [] (joined list)).head?.map _ = some true then ""
    else host) (takePath true true [] (joined list))) = _
  rw [hback]
  split
  · rename_i hhead
    rw [hdrive hhead]
    rfl
  · rfl

/-- The host of a special scheme is not empty, so no third slash follows the two. -/
theorem dropWhile_isSlash_authorityChars (a : Authority) (ha : IsAuthority scheme a)
    (hspecial : isSpecial scheme = true) (tail : List Char) :
    ('/' :: '/' :: (authorityChars a ++ tail)).dropWhile isSlash = authorityChars a ++ tail := by
  have hslash := isSlash_of_mem_authorityChars scheme a ha
  rcases hchars : authorityChars a with _ | ⟨c, cs⟩
  · have hhost := (List.append_eq_nil_iff.mp (List.append_eq_nil_iff.mp hchars).2).1
    have halone := (ha.alone (String.toList_eq_nil_iff.mp hhost)).1
    exact absurd (hspecial.symm.trans halone) (by decide)
  · have hc : ¬ isSlash c = true := by
      rw [hslash c (hchars ▸ List.mem_cons_self)]
      exact Bool.false_ne_true
    rw [List.dropWhile_cons_of_pos rfl, List.dropWhile_cons_of_pos rfl, List.cons_append,
      List.dropWhile_cons_of_neg hc]

/-- The authority comes back behind two slashes, and so does the path. -/
theorem readAfterSlashes?_text (a : Authority) (ha : IsAuthority scheme a) (list : List String)
    (hpath : IsPath (isSpecial scheme) false list) (hne : isSpecial scheme = true → list ≠ []) :
    readAfterSlashes? scheme more (authorityChars a ++ (segmentsText list).toList)
      = some ⟨scheme, some a, .segments list, none, none⟩ := by
  have hslash : endsSegment (isSpecial scheme) '/' = true := rfl
  unfold readAfterSlashes?
  rcases segmentsText_cases list with ⟨rfl, htext⟩ | ⟨hlist, htext⟩
  · have hspecial : isSpecial scheme = false := Bool.eq_false_iff.mpr fun h => hne h rfl
    rw [readAuthority?_authorityChars scheme more a ha _ fun c tail heq =>
      absurd (heq.symm.trans htext) (List.cons_ne_nil _ _), htext]
    simp only [Option.bind_eq_bind, Option.bind_some, pathAfterAuthority, hspecial,
      Bool.false_eq_true, if_false, Option.pure_def]
  · rw [readAuthority?_authorityChars scheme more a ha _ fun c tail heq =>
      (List.cons.inj (heq.symm.trans htext)).1, htext]
    simp only [Option.bind_eq_bind, Option.bind_some, pathAfterAuthority, hslash, if_true,
      takePath_joined _ false list hlist hpath fun h => absurd h Bool.false_ne_true,
      Option.pure_def]

/-- A dot segment in front of a path is taken up as nothing. -/
theorem takePath_dot (list : List String) (hne : list ≠ []) (hpath : IsPath false false list) :
    takePath false false [] ('.' :: '/' :: joined list) = list := by
  have hkept := takePath_joined false false list hne hpath fun h => absurd h Bool.false_ne_true
  have hdot : Text.splitBy (endsSegment false) ('.' :: '/' :: joined list)
      = ['.'] :: Text.splitBy (endsSegment false) (joined list) :=
    Text.splitBy_append (endsSegment false) '/' rfl ['.'] (joined list)
  unfold takePath at hkept ⊢
  rw [if_neg Bool.false_ne_true] at hkept ⊢
  rw [hdot]
  rcases hparts : Text.splitBy (endsSegment false) (joined list) with _ | ⟨part, parts⟩
  · exact absurd hparts (Text.splitBy_ne_nil _ _)
  · rw [hparts] at hkept
    exact hkept

/-- The authority and the path come back. -/
theorem readAbsolute?_restChars (authority : Option Authority) (path : UriPath)
    (h : IsFront scheme authority path) :
    readAbsolute? none scheme more (restChars authority path)
      = some ⟨scheme, authority, path, none, none⟩ := by
  unfold readAbsolute?
  cases h with
  | file host list hfile hhost hpath hne hlist hdrive =>
      have hchars : authorityChars (.ofHost host) = host.toList := List.append_nil _
      rw [if_pos hfile, restChars_some, toList_segmentsText list hne, hchars, hfile]
      exact readFile?_host host hhost list hpath hne hlist hdrive
  | authority a list hfile ha hpath hne =>
      rw [if_neg hfile, restChars_some]
      split
      · rename_i hspecial
        rw [dropWhile_isSlash_authorityChars scheme a ha hspecial]
        exact readAfterSlashes?_text scheme more a ha list hpath hne
      · exact readAfterSlashes?_text scheme more a ha list hpath hne
  | rooted list hspecial hpath hne =>
      have hfile : scheme ≠ "file" := by
        rintro rfl
        exact absurd hspecial (by decide)
      rw [if_neg hfile, hspecial, if_neg Bool.false_ne_true]
      rcases restChars_none false false list hpath hne with ⟨htext, hslash⟩ | htext
      · rw [htext]
        split
        · exact absurd (List.cons.inj ‹_›).2 (hslash _)
        · rename_i hrest
          rw [← (List.cons.inj hrest).2, takePath_joined false false list hne hpath
            fun h => absurd h Bool.false_ne_true]
        · rename_i hnot
          exact absurd rfl (hnot _)
      · rw [htext]
        change some _ = _
        rw [takePath_dot list hne hpath]
  | rootless text hspecial hchars hslash =>
      have hfile : scheme ≠ "file" := by
        rintro rfl
        exact absurd hspecial (by decide)
      rw [if_neg hfile, hspecial, if_neg Bool.false_ne_true, restChars_rootless]
      split
      · exact absurd ‹_› (hslash _)
      · exact absurd ‹_› (hslash _)
      · rw [Percent.encode_eq_self _ _ fun c hc => ⟨(hchars c hc).1, (hchars c hc).2.1⟩,
          String.ofList_toList]

end Fronts

/-- Whether a character can be seen and neither starts a query nor a fragment. -/
def isBodyChar (c : Char) : Bool := 0x20 < c.toNat && c != '?' && c != '\x23'

theorem isBodyChar_of_isHostChar (c : Char) (h : Host.isHostChar c = true) :
    isBodyChar c = true := by
  simp only [Host.isHostChar, Bool.and_eq_true] at h
  unfold isBodyChar
  rw [h.1.1.1.1.1.1.1, h.1.1.2, h.1.2]
  rfl

theorem isBodyChar_of_isSchemeChar (c : Char) (h : isSchemeChar c = true) : isBodyChar c = true :=
  Percent.of_ascii (fun c => isSchemeChar c = true → isBodyChar c = true) (by decide +kernel) c
    (toNat_of_isSchemeChar c h) h

theorem isBodyChar_of_mem_segmentsText (special file : Bool) (list : List String)
    (h : IsPath special file list) (c : Char) (hc : c ∈ (segmentsText list).toList) :
    isBodyChar c = true := by
  rcases segmentsText_cases list with ⟨_, htext⟩ | ⟨_, htext⟩
  · rw [htext] at hc
    exact absurd hc List.not_mem_nil
  · rw [htext] at hc
    rcases List.mem_cons.mp hc with rfl | hc
    · rfl
    · rcases Text.mem_intercalate '/' _ c hc with rfl | ⟨part, hpart, hc⟩
      · rfl
      · rcases List.mem_map.mp hpart with ⟨s, hs, rfl⟩
        have hplain := (h.segments s hs).chars c hc
        exact Percent.of_ascii (fun c => Percent.pathSet c = false → isBodyChar c = true)
          (by decide +kernel) c hplain.2.1 hplain.1

/-- Only a path that is no sequence of segments holds blanks. -/
theorem mem_restChars (scheme : String) (authority : Option Authority) (path : UriPath)
    (h : IsFront scheme authority path) (c : Char) (hc : c ∈ restChars authority path) :
    isBodyChar c = true ∨ (c = ' ' ∧ ∃ text, path = .rootless text) := by
  have hslashes : ∀ a list, c ∈ restChars (some a) (.segments list) →
      isBodyChar c = true ∨ c ∈ authorityChars a ∨ c ∈ (segmentsText list).toList := by
    intro a list hmem
    rw [restChars_some] at hmem
    rcases List.mem_cons.mp hmem with rfl | hmem
    · exact Or.inl rfl
    · rcases List.mem_cons.mp hmem with rfl | hmem
      · exact Or.inl rfl
      · exact Or.inr (List.mem_append.mp hmem)
  cases h with
  | file host list hfile hhost hpath =>
      rcases hslashes _ list hc with hc | hc | hc
      · exact Or.inl hc
      · rcases hhost with rfl | ⟨_, hfits, _⟩
        · exact absurd hc List.not_mem_nil
        · have hchars : authorityChars (.ofHost host) = host.toList := List.append_nil _
          rw [hchars] at hc
          exact Or.inl (isBodyChar_of_isHostChar c (hfits.chars c hc))
      · exact Or.inl (isBodyChar_of_mem_segmentsText true true list hpath c hc)
  | authority a list hfile ha hpath =>
      rcases hslashes a list hc with hc | hc | hc
      · exact Or.inl hc
      · rcases mem_authorityChars scheme a ha c hc with hhost | rfl
        · exact Or.inl (isBodyChar_of_isHostChar c hhost)
        · exact Or.inl rfl
      · exact Or.inl (isBodyChar_of_mem_segmentsText _ false list hpath c hc)
  | rooted list hspecial hpath hne =>
      have hpathChar := isBodyChar_of_mem_segmentsText false false list hpath c
      rw [toList_segmentsText list hne] at hpathChar
      rcases restChars_none false false list hpath hne with ⟨htext, _⟩ | htext
      · rw [htext] at hc
        exact Or.inl (hpathChar hc)
      · rw [htext] at hc
        rcases List.mem_cons.mp hc with rfl | hc
        · exact Or.inl rfl
        · rcases List.mem_cons.mp hc with rfl | hc
          · exact Or.inl rfl
          · exact Or.inl (hpathChar hc)
  | rootless text hspecial hchars =>
      rw [restChars_rootless] at hc
      rcases hchars c hc with ⟨hcontrol, hascii, hquery, hfragment⟩
      -- Of the characters that are written as they are, only the blank could be cut off.
      by_cases hblank : c = ' '
      · exact Or.inr ⟨hblank, text, rfl⟩
      · refine Or.inl (Percent.of_ascii (fun c => Percent.control c = false → c ≠ ' ' → c ≠ '?' →
          c ≠ '\x23' → isBodyChar c = true) (by decide +kernel) c hascii hcontrol hblank hquery
            hfragment)

/-- A text that does not end with a blank or a control character. -/
def EndsVisibly (cs : List Char) : Prop := ∃ front last, cs = front ++ [last] ∧ 0x20 < last.toNat

theorem endsVisibly_append (front cs : List Char) (h : EndsVisibly cs) :
    EndsVisibly (front ++ cs) := by
  rcases h with ⟨start, last, rfl, hlast⟩
  exact ⟨front ++ start, last, (List.append_assoc _ _ _).symm, hlast⟩

theorem endsVisibly_of_forall (cs : List Char) (hne : cs ≠ []) (h : ∀ c ∈ cs, 0x20 < c.toNat) :
    EndsVisibly cs :=
  ⟨cs.dropLast, cs.getLast hne, (List.dropLast_concat_getLast hne).symm,
    h _ (List.getLast_mem hne)⟩

/-- Nothing is dropped from a text that starts and ends with visible characters. -/
theorem clean_of_visible (first : Char) (tail : List Char) (hfirst : 0x20 < first.toNat)
    (hlast : EndsVisibly (first :: tail)) (hall : ∀ c ∈ first :: tail, isLineOrTab c = false) :
    clean (first :: tail) = first :: tail := by
  have hfilter : (first :: tail).filter (fun c => !isLineOrTab c) = first :: tail :=
    List.filter_eq_self.mpr fun c hc => by rw [hall c hc]; rfl
  have hstart : ∀ c : Char, 0x20 < c.toNat → ¬ (decide (c.toNat ≤ 0x20)) = true :=
    fun c hc h => Nat.not_le.mpr hc (of_decide_eq_true h)
  unfold clean
  dsimp only
  rw [List.dropWhile_cons_of_neg (p := fun c : Char => decide (c.toNat ≤ 0x20))
    (hstart first hfirst)]
  rcases hlast with ⟨front, last, heq, hvisible⟩
  rw [heq] at hfilter ⊢
  rw [List.reverse_append, List.reverse_singleton, List.singleton_append,
    List.dropWhile_cons_of_neg (p := fun c : Char => decide (c.toNat ≤ 0x20)) (hstart last hvisible),
    List.reverse_cons, List.reverse_reverse, hfilter]

/-- The scheme comes back. -/
theorem splitScheme?_text (scheme : String) (h : IsScheme scheme) (rest : List Char) :
    splitScheme? (scheme.toList ++ ':' :: rest) = some (scheme, rest) := by
  rcases h with ⟨⟨first, tail, hlist, halpha⟩, hchars⟩
  have hkept : ∀ c ∈ scheme.toList, isSchemeChar c = true := fun c hc => (hchars c hc).1
  have hlower : scheme.toList.map Char.toLower = scheme.toList :=
    (List.map_congr_left (g := id) fun c hc => (hchars c hc).2).trans (List.map_id _)
  unfold splitScheme?
  rw [List.dropWhile_append_of_pos hkept, List.takeWhile_append_of_pos hkept,
    List.takeWhile_cons_of_neg (by decide), List.dropWhile_cons_of_neg (by decide), List.append_nil,
    hlower, String.ofList_toList]
  split
  · rename_i heq
    rw [hlist] at heq
    exact absurd heq (List.cons_ne_nil _ _)
  · rename_i heq
    rw [hlist] at heq
    rw [← (List.cons.inj heq).1, if_pos halpha]
    rfl

/-- A part with a mark in front of it, if there is one. -/
def marked (mark : Char) (part : Option String) : List Char :=
  part.elim [] fun text => mark :: text.toList

theorem splitMark_marked (mark : Char) (front : List Char) (part : Option String)
    (h : mark ∉ front) :
    splitMark mark (front ++ marked mark part) = (front, part.map String.toList) := by
  cases part with
  | none =>
      change splitMark mark (front ++ []) = _
      rw [List.append_nil]
      exact splitMark_of_not_mem mark front h
  | some text => exact splitMark_append mark front text.toList h

theorem toList_text (u : Uri) :
    u.text.toList = u.scheme.toList ++ ':' :: restChars u.authority u.path
      ++ marked '?' u.query ++ marked '\x23' u.fragment := by
  have hcolon : ":".toList = [':'] := rfl
  have hquery : "?".toList = ['?'] := rfl
  have hhash : "\x23".toList = ['\x23'] := rfl
  have hnone : ∀ mark, marked mark none = [] := fun _ => rfl
  have hsome : ∀ mark text, marked mark (some text) = mark :: text.toList := fun _ _ => rfl
  have hdocument : u.documentText.toList = u.scheme.toList ++ ':' :: restChars u.authority u.path
      ++ marked '?' u.query := by
    have hfront : u.frontText = frontText ⟨"", u.authority, u.path, none, none⟩ := rfl
    have hempty : "".toList = [] := rfl
    unfold documentText restChars
    rw [hfront]
    cases u.query with
    | none =>
        simp only [String.toList_append, hcolon, hnone, hempty, List.append_assoc,
          List.nil_append, List.cons_append]
    | some query =>
        simp only [String.toList_append, hcolon, hquery, hsome, List.append_assoc,
          List.nil_append, List.cons_append]
  -- The fragment is written behind the text of the document.
  unfold text
  cases u.fragment with
  | none => rw [hdocument, hnone, List.append_nil]
  | some fragment =>
      rw [String.toList_append, String.toList_append, hdocument, hhash, hsome, List.append_assoc _ ['\x23']]
      rfl

section Text

variable (u : Uri) (hu : IsRegular u)

include hu

theorem visible_of_query (q : String) (hq : u.query = some q) (c : Char) (hc : c ∈ q.toList) :
    0x20 < c.toNat ∧ c ≠ '\x23' := by
  have hplain := hu.query q hq c hc
  have hset : Percent.querySet c = false := by
    have h := hplain.1
    unfold querySetOf at h
    split at h
    · exact (Bool.or_eq_false_iff.mp h).1
    · exact h
  exact Percent.of_ascii (fun c => Percent.querySet c = false → 0x20 < c.toNat ∧ c ≠ '\x23')
    (by decide +kernel) c hplain.2 hset

theorem visible_of_fragment (f : String) (hf : u.fragment = some f) (c : Char)
    (hc : c ∈ f.toList) : 0x20 < c.toNat :=
  Percent.of_ascii (fun c => Percent.fragmentSet c = false → 0x20 < c.toNat) (by decide +kernel) c
    (hu.fragment f hf c hc).2 (hu.fragment f hf c hc).1

/-- The text up to the query starts neither a query nor a fragment. -/
theorem mem_mainChars (c : Char) (hc : c ∈ u.scheme.toList ++ ':' :: restChars u.authority u.path) :
    isBodyChar c = true ∨ (c = ' ' ∧ ∃ text, u.path = .rootless text) := by
  rcases List.mem_append.mp hc with hc | hc
  · exact Or.inl (isBodyChar_of_isSchemeChar c (hu.scheme.2 c hc).1)
  · rcases List.mem_cons.mp hc with rfl | hc
    · exact Or.inl rfl
    · exact mem_restChars u.scheme u.authority u.path hu.front c hc

omit hu in
theorem visible_of_isBodyChar (c : Char) (h : isBodyChar c = true) : 0x20 < c.toNat := by
  simp only [isBodyChar, Bool.and_eq_true, decide_eq_true_eq] at h
  exact h.1.1

/-- Neither the scheme nor the path ends with a blank, if nothing hides it. -/
theorem endsVisibly_mainChars (hend : stripPath u.path = u.path) :
    EndsVisibly (u.scheme.toList ++ ':' :: restChars u.authority u.path) := by
  refine endsVisibly_append _ _ ?_
  -- Blanks are possible in a path without a root alone, and there the last ones are stripped.
  by_cases hpath : ∃ text, u.path = .rootless text
  · rcases hpath with ⟨text, hpath⟩
    have hfront := hu.front
    rw [hpath] at hend hfront
    have hrest : restChars u.authority u.path = text.toList := by
      rw [hpath]
      generalize u.authority = authority at hfront
      cases hfront
      exact restChars_rootless text
    by_cases hempty : text.toList = []
    · rw [hrest, hempty]
      exact ⟨[], ':', rfl, by decide⟩
    · have hstrip : text.toList.rdropWhile (· == ' ') = text.toList := by
        have hlist := congrArg String.toList (UriPath.rootless.inj hend)
        rwa [String.toList_ofList] at hlist
      have hlast := List.rdropWhile_eq_self_iff.mp hstrip hempty
      rw [hrest]
      refine endsVisibly_append [':'] _ ⟨text.toList.dropLast, text.toList.getLast hempty,
        (List.dropLast_concat_getLast hempty).symm, ?_⟩
      have hmem : text.toList.getLast hempty ∈ restChars u.authority u.path := by
        rw [hrest]
        exact List.getLast_mem hempty
      rcases mem_restChars u.scheme _ _ hu.front _ hmem with hbody | ⟨hblank, _⟩
      · exact visible_of_isBodyChar _ hbody
      · exact absurd (beq_iff_eq.mpr hblank) hlast
  · refine endsVisibly_of_forall _ (List.cons_ne_nil _ _) fun c hc => ?_
    rcases mem_mainChars u hu c (List.mem_append_right _ hc) with hbody | ⟨_, hrootless⟩
    · exact visible_of_isBodyChar c hbody
    · exact absurd hrootless hpath

/-- Only blanks at the end of a path would be lost. -/
theorem endsVisibly_text (hend : u.fragment = none → u.document = u) : EndsVisibly u.text.toList := by
  rw [toList_text]
  cases hf : u.fragment with
  | some f =>
      refine endsVisibly_append _ _ (endsVisibly_of_forall _ (List.cons_ne_nil _ _) fun c hc => ?_)
      rcases List.mem_cons.mp hc with rfl | hc
      · decide
      · exact visible_of_fragment u hu f hf c hc
  | none =>
      change EndsVisibly (_ ++ [])
      rw [List.append_nil]
      cases hq : u.query with
      | some q =>
          refine endsVisibly_append _ _ (endsVisibly_of_forall _ (List.cons_ne_nil _ _) fun c hc => ?_)
          rcases List.mem_cons.mp hc with rfl | hc
          · decide
          · exact (visible_of_query u hu q hq c hc).1
      | none =>
          change EndsVisibly (_ ++ [])
          rw [List.append_nil]
          refine endsVisibly_mainChars u hu ?_
          -- Nothing hides the end of the path here, so what is cut off from the path of a
          -- document is not there.
          have hpath := congrArg path (hend hf)
          change (if u.query.isSome then u.path else stripPath u.path) = u.path at hpath
          rwa [hq, if_neg (by decide)] at hpath

/-- There are no tabs and no line ends in the text. -/
theorem isLineOrTab_of_mem_text (c : Char) (hc : c ∈ u.text.toList) : isLineOrTab c = false := by
  -- Tabs and line ends are below the blank, and nothing in the text is.
  have hlarge : 0x20 ≤ c.toNat := by
    rw [toList_text] at hc
    rcases List.mem_append.mp hc with hc | hc
    · rcases List.mem_append.mp hc with hc | hc
      · rcases mem_mainChars u hu c hc with hbody | ⟨rfl, _⟩
        · exact Nat.le_of_lt (visible_of_isBodyChar c hbody)
        · decide
      · cases hq : u.query with
        | none =>
            rw [hq] at hc
            exact absurd hc List.not_mem_nil
        | some q =>
            rw [hq] at hc
            rcases List.mem_cons.mp hc with rfl | hc
            · decide
            · exact Nat.le_of_lt (visible_of_query u hu q hq c hc).1
    · cases hf : u.fragment with
      | none =>
          rw [hf] at hc
          exact absurd hc List.not_mem_nil
      | some f =>
          rw [hf] at hc
          rcases List.mem_cons.mp hc with rfl | hc
          · decide
          · exact Nat.le_of_lt (visible_of_fragment u hu f hf c hc)
  rw [Bool.eq_false_iff]
  exact fun hline => Nat.not_lt.mpr hlarge (toNat_of_isLineOrTab c hline)

theorem clean_text (hend : u.fragment = none → u.document = u) :
    clean u.text.toList = u.text.toList := by
  rcases hu.scheme.1 with ⟨first, tail, hscheme, _⟩
  have hfirst := (hu.scheme.2 first (by rw [hscheme]; exact List.mem_cons_self)).1
  have hvisible := endsVisibly_text u hu hend
  have hlines := isLineOrTab_of_mem_text u hu
  have htext := toList_text u
  rw [hscheme, List.cons_append, List.cons_append, List.cons_append] at htext
  rw [htext] at hvisible hlines ⊢
  exact clean_of_visible first _ (visible_of_isBodyChar first (isBodyChar_of_isSchemeChar first hfirst))
    hvisible hlines

/-- The query and the fragment are encoded already. -/
theorem encode_parts :
    ((u.query.map String.toList).map (encodeQuery u.scheme)).or none = u.query
      ∧ (u.fragment.map String.toList).map (fun cs => encodeFragment (String.ofList cs))
        = u.fragment := by
  constructor
  · cases hq : u.query with
    | none => rfl
    | some q =>
        have hencode : encodeQuery u.scheme q.toList = q := by
          change String.ofList (Percent.encode (querySetOf u.scheme) q.toList) = q
          rw [Percent.encode_eq_self _ _ (hu.query q hq), String.ofList_toList]
        rw [Option.map_some, Option.map_some, hencode]
        rfl
  · cases hf : u.fragment with
    | none => rfl
    | some f =>
        rw [Option.map_some, Option.map_some, String.ofList_toList,
          encodeFragment_eq_self f (hu.fragment f hf)]

/-- A regular URI comes back from its text. -/
theorem read?_text (hend : u.fragment = none → u.document = u) : read? u.text = some u := by
  have hnot : ∀ mark, mark = '?' ∨ mark = '\x23' →
      mark ∉ u.scheme.toList ++ ':' :: restChars u.authority u.path := by
    intro mark hmark hmem
    rcases mem_mainChars u hu mark hmem with hbody | ⟨hblank, _⟩
    · rcases hmark with rfl | rfl
      · exact absurd hbody (by decide)
      · exact absurd hbody (by decide)
    · rw [hblank] at hmark
      exact absurd hmark (by decide)
  have hhash : '\x23' ∉ u.scheme.toList ++ ':' :: restChars u.authority u.path
      ++ marked '?' u.query := by
    intro hmem
    rcases List.mem_append.mp hmem with hmem | hmem
    · exact hnot _ (Or.inr rfl) hmem
    · cases hq : u.query with
      | none =>
          rw [hq] at hmem
          exact absurd hmem List.not_mem_nil
      | some q =>
          rw [hq] at hmem
          rcases List.mem_cons.mp hmem with hmem | hmem
          · exact absurd hmem (by decide)
          · exact (visible_of_query u hu q hq _ hmem).2 rfl
  -- Reading goes from the outside in: fragment, query, scheme, and what is between.
  unfold read?
  rw [readWith?_eq, clean_text u hu hend, toList_text]
  dsimp only
  rw [splitMark_marked _ _ _ hhash]
  dsimp only
  rw [splitMark_marked _ _ _ (hnot _ (Or.inl rfl))]
  unfold readFront?
  dsimp only
  rw [splitScheme?_text u.scheme hu.scheme]
  dsimp only
  rw [readAbsolute?_restChars u.scheme _ _ _ hu.front, Option.map_some]
  dsimp only
  rw [(encode_parts u hu).1, (encode_parts u hu).2]

end Text

end Uri

end OpenApi
