import OpenApi.Proofs.Text.Split
import OpenApi.Proofs.Uri.Fragment
import OpenApi.Uri.Reader

/-!
# Paths Are in Their Final Form

The segments of a path are taken up from left to right: dot segments are resolved
and the others are encoded. What is taken up is in its final form: it is no dot
segment, since an encoded segment is one only if the segment is, it has no
characters to be encoded and none that would split it. So taking up such segments
once more appends them as they are.

Under the scheme `file` there is one more rule, for a drive letter in front of
everything else. It gives the drive letter its colon, which is the final form of
that, too.

## Main definitions

* `Uri.IsSegment`: A segment in its final form.
* `Uri.DriveFirst`: A drive letter at the head of a path has a colon.

## Theorems

* `plainDots_encode`: Encoding makes no dot segments.
* `isSegment_takeSegments`: What is taken up is in its final form.
* `takeSegments_of_isSegment`: What is in its final form is taken up as it is.
-/

namespace OpenApi

namespace Percent

theorem spares_pathSet : Spares pathSet := spares_of_ascii _ (by decide) (by decide)

end Percent

namespace Uri

section Dots

theorem plainDots_cons (c : Char) (rest : List Char)
    (h : ∀ tail, c = '%' → rest ≠ '2' :: 'e' :: tail ∧ rest ≠ '2' :: 'E' :: tail) :
    plainDots (c :: rest) = c :: plainDots rest := by
  rw [plainDots]
  · rintro tail rfl rfl
    exact (h tail rfl).1 rfl
  · rintro tail rfl rfl
    exact (h tail rfl).2 rfl

/-- The triple of an octet other than a point is no point. -/
theorem plainDots_triple (octet : Nat) (hoctet : octet < 0x100) (hpoint : octet ≠ 0x2e)
    (rest : List Char) : plainDots (Percent.triple octet ++ rest) = Percent.triple octet ++ plainDots rest := by
  have hhigh : octet / 16 < 16 := by omega
  have hlow : octet % 16 < 16 := Nat.mod_lt octet (by decide)
  have hupper : ∀ n < 16, Percent.upperHex n ≠ '%' ∧ (Percent.upperHex n = '2' → n = 2)
      ∧ Percent.upperHex n ≠ 'e' ∧ (Percent.upperHex n = 'E' → n = 14) := by decide
  have hkept : ∀ n < 16, ∀ tail, plainDots (Percent.upperHex n :: tail)
      = Percent.upperHex n :: plainDots tail :=
    fun n hn tail => plainDots_cons _ _ fun _ heq => absurd heq (hupper n hn).1
  unfold Percent.triple
  rw [List.cons_append, List.cons_append, List.singleton_append, plainDots_cons, hkept _ hhigh,
    hkept _ hlow]
  · rfl
  · intro tail _
    refine ⟨fun heq => ?_, fun heq => ?_⟩
    · exact (hupper _ hlow).2.2.1 (List.cons.inj (List.cons.inj heq).2).1
    · have h2 := (hupper _ hhigh).2.1 (List.cons.inj heq).1
      have h14 := (hupper _ hlow).2.2.2 (List.cons.inj (List.cons.inj heq).2).1
      omega

theorem plainDots_triples (octets : List Nat) (h : ∀ octet ∈ octets, octet < 0x100 ∧ octet ≠ 0x2e)
    (rest : List Char) :
    plainDots (octets.flatMap Percent.triple ++ rest)
      = octets.flatMap Percent.triple ++ plainDots rest := by
  induction octets with
  | nil => rfl
  | cons octet octets ih =>
      have hoctet := h octet List.mem_cons_self
      rw [List.flatMap_cons, List.append_assoc, plainDots_triple octet hoctet.1 hoctet.2,
        ih fun o ho => h o (List.mem_cons_of_mem octet ho), List.append_assoc]

variable (special : Char → Bool) (hspecial : Percent.Spares special) (hpoint : special '.' = false)

include hspecial hpoint

omit hspecial in
theorem encode_cons_point (rest : List Char) :
    Percent.encode special ('.' :: rest) = '.' :: Percent.encode special rest := by
  unfold Percent.encode
  rw [List.flatMap_cons, Percent.encodeChar, hpoint]
  rfl

/-- Reading points in an encoded text is encoding the text with its points read. -/
theorem plainDots_encode (cs : List Char) :
    plainDots (Percent.encode special cs) = Percent.encode special (plainDots cs) := by
  have hcons : ∀ c rest, Percent.encode special (c :: rest)
      = Percent.encodeChar special c ++ Percent.encode special rest := fun c rest => rfl
  induction cs using plainDots.induct with
  | case1 => rfl
  -- An encoded point stays one, in lower case and in upper case.
  | case2 tail ih =>
      rw [Percent.encode_cons_percent special hspecial,
        Percent.encode_cons_digit special hspecial '2' _ (by decide),
        Percent.encode_cons_digit special hspecial 'e' _ (by decide), plainDots, plainDots, ih,
        encode_cons_point special hpoint]
  | case3 tail ih =>
      rw [Percent.encode_cons_percent special hspecial,
        Percent.encode_cons_digit special hspecial '2' _ (by decide),
        Percent.encode_cons_digit special hspecial 'E' _ (by decide), plainDots, plainDots, ih,
        encode_cons_point special hpoint]
  -- In front of any other character nothing is read, neither before nor after encoding.
  | case4 c rest hlower hupper ih =>
      rw [plainDots_cons c rest fun tail hc => ⟨hlower tail hc, hupper tail hc⟩, hcons, hcons, ← ih]
      rcases Percent.encodeChar_cases special c with hwritten | ⟨hkept, _⟩
      · rw [hwritten]
        refine plainDots_triples _ (fun octet hoctet => ⟨Percent.octet_lt c octet hoctet, ?_⟩) _
        rintro rfl
        have hc : c = '.' := Char.toNat_inj.mp (Utf8.toNat_of_mem_encodeChar c 0x2e (by decide) hoctet)
        rw [hc, Percent.encodeChar, hpoint] at hwritten
        exact absurd hwritten (by decide)
      · rw [hkept, List.singleton_append, List.singleton_append]
        have hmark : ∀ mark tail, mark ≠ '%' → Percent.encode special rest = '2' :: mark :: tail →
            ∃ tail', rest = '2' :: mark :: tail' := by
          intro mark tail hmark heq
          rcases Percent.cons_of_encode special rest '2' _ heq (by decide) with ⟨t, rfl, heq'⟩
          rcases Percent.cons_of_encode special t mark _ heq'.symm hmark with ⟨tail', rfl, _⟩
          exact ⟨tail', rfl⟩
        refine plainDots_cons c _ fun tail hc => ⟨fun heq => ?_, fun heq => ?_⟩
        · rcases hmark 'e' tail (by decide) heq with ⟨tail', hrest⟩
          exact hlower tail' hc hrest
        · rcases hmark 'E' tail (by decide) heq with ⟨tail', hrest⟩
          exact hupper tail' hc hrest

end Dots

/-- A segment as it is kept: nothing in it is to be encoded, nothing splits it, and
    it is no dot segment. -/
structure IsSegment (special : Bool) (segment : List Char) : Prop where
  /-- The characters. -/
  chars : ∀ c ∈ segment, Percent.pathSet c = false ∧ c.toNat < 0x80 ∧ endsSegment special c = false
  /-- The segment stays where it is. -/
  single : isSingleDot segment = false
  /-- The segment goes nowhere. -/
  double : isDoubleDot segment = false

theorem isSegment_nil (special : Bool) : IsSegment special [] :=
  ⟨fun _ hc => absurd hc List.not_mem_nil, rfl, rfl⟩

/-- Only what is the text itself is encoded as a text without percent signs. -/
theorem eq_of_encode (special : Char → Bool) (cs ds : List Char) (hds : '%' ∉ ds)
    (h : Percent.encode special cs = ds) : cs = ds := by
  induction ds generalizing cs with
  | nil =>
      by_contra hne
      exact Percent.encode_ne_nil special cs hne h
  | cons d ds ih =>
      have hd : d ≠ '%' := fun heq => hds (heq ▸ List.mem_cons_self)
      rcases Percent.cons_of_encode special cs d ds h hd with ⟨tail, hcs, htail⟩
      rw [hcs, ih tail (fun hmem => hds (List.mem_cons_of_mem d hmem)) htail.symm]

/-- A segment that is no dot segment is encoded to its final form. -/
theorem isSegment_encode (special : Bool) (segment : List Char)
    (hsplit : ∀ c ∈ segment, endsSegment special c = false) (hsingle : isSingleDot segment = false)
    (hdouble : isDoubleDot segment = false) :
    IsSegment special (Percent.encode Percent.pathSet segment) := by
  have hdots := plainDots_encode Percent.pathSet Percent.spares_pathSet (by decide) segment
  refine ⟨fun c hc => ?_, ?_, ?_⟩
  · have hplain := Percent.mem_encode _ Percent.spares_pathSet segment c hc
    have hhex : ∀ n < 16, endsSegment special (Percent.upperHex n) = false := by
      cases special with
      | true => decide
      | false => decide
    refine ⟨hplain.1, hplain.2, ?_⟩
    rcases Percent.mem_encode_cases _ segment c hc with ⟨hc, _⟩ | rfl | ⟨n, hn, rfl⟩
    · exact hsplit c hc
    · cases special with
      | true => decide
      | false => decide
    · exact hhex n hn
  -- A text that is encoded to points is made of points itself.
  · rw [Bool.eq_false_iff]
    intro h
    rw [isSingleDot, hdots, beq_iff_eq] at h
    rw [isSingleDot, eq_of_encode _ _ _ (by decide) h] at hsingle
    exact absurd hsingle (by decide)
  · rw [Bool.eq_false_iff]
    intro h
    rw [isDoubleDot, hdots, beq_iff_eq] at h
    rw [isDoubleDot, eq_of_encode _ _ _ (by decide) h] at hdouble
    exact absurd hdouble (by decide)

/-- A drive letter that only empty segments precede has its colon. -/
def DriveFirst : List String → Prop
  | [] => True
  | s :: rest => (isDrive s.toList = true → isPlainDrive s.toList = true) ∧ (s = "" → DriveFirst rest)

theorem driveFirst_append (list : List String) (s : String) (h : DriveFirst list)
    (hs : list.all (· == "") = true → isDrive s.toList = true → isPlainDrive s.toList = true) :
    DriveFirst (list ++ [s]) := by
  induction list with
  | nil => exact ⟨hs rfl, fun _ => trivial⟩
  | cons t rest ih =>
      refine ⟨h.1, fun hempty => ih (h.2 hempty) fun hall => hs ?_⟩
      rw [List.all_cons, hempty, hall]
      rfl

theorem driveFirst_dropLast (list : List String) (h : DriveFirst list) :
    DriveFirst list.dropLast := by
  induction list with
  | nil => exact trivial
  | cons t rest ih =>
      rcases rest with _ | ⟨next, rest⟩
      · exact trivial
      · exact ⟨h.1, fun hempty => ih (h.2 hempty)⟩

/-- The list is that of a path: its segments are in their final form, and so is a
    drive letter in a file. -/
structure IsPath (special file : Bool) (list : List String) : Prop where
  /-- The segments. -/
  segments : ∀ s ∈ list, IsSegment special s.toList
  /-- The drive letter. -/
  drive : file = true → DriveFirst list

theorem isPath_nil (special file : Bool) : IsPath special file [] :=
  ⟨fun _ hs => absurd hs List.not_mem_nil, fun _ => trivial⟩

theorem isPath_append (special file : Bool) (list : List String) (h : IsPath special file list)
    (segment : List Char) (hsegment : IsSegment special segment)
    (hdrive : file = true → list.all (· == "") = true → isDrive segment = true →
      isPlainDrive segment = true) :
    IsPath special file (list ++ [String.ofList segment]) := by
  refine ⟨fun s hs => ?_, fun hfile => ?_⟩
  · rcases List.mem_append.mp hs with hs | hs
    · exact h.segments s hs
    · rw [List.mem_singleton.mp hs, String.toList_ofList]
      exact hsegment
  · refine driveFirst_append list _ (h.drive hfile) fun hall hd => ?_
    rw [String.toList_ofList] at hd ⊢
    exact hdrive hfile hall hd

theorem isPath_append_empty (special file : Bool) (list : List String)
    (h : IsPath special file list) : IsPath special file (list ++ [""]) :=
  isPath_append special file list h [] (isSegment_nil special) fun _ _ hd =>
    absurd hd Bool.false_ne_true

theorem isPath_shorten (special file : Bool) (list : List String) (h : IsPath special file list) :
    IsPath special file (shorten file list) := by
  unfold shorten
  split
  · split
    · exact h
    · exact isPath_nil special file
  · exact ⟨fun s hs => h.segments s (List.dropLast_subset list hs),
      fun hfile => driveFirst_dropLast list (h.drive hfile)⟩

theorem isDrive_cases (segment : List Char) (h : isDrive segment = true) :
    ∃ letter mark, segment = [letter, mark] ∧ letter.isAlpha = true ∧ (mark = ':' ∨ mark = '|') := by
  unfold isDrive at h
  split at h
  · rename_i letter mark
    rw [Bool.and_eq_true, Bool.or_eq_true, beq_iff_eq, beq_iff_eq] at h
    exact ⟨letter, mark, rfl, h⟩
  · exact absurd h Bool.false_ne_true

/-- Encoding makes no drive letters. -/
theorem isDrive_of_isDrive_encode (special : Char → Bool) (segment : List Char)
    (h : isDrive (Percent.encode special segment) = true) : isDrive segment = true := by
  rcases isDrive_cases _ h with ⟨letter, mark, hencode, hletter, hmark⟩
  have hpercent : '%' ∉ [letter, mark] := by
    intro hmem
    simp only [List.mem_cons, List.not_mem_nil, or_false] at hmem
    rcases hmem with rfl | rfl
    · exact absurd hletter (by decide)
    · exact absurd hmark (by decide)
  rwa [eq_of_encode _ _ _ hpercent hencode, ← hencode]

theorem toNat_of_isAlpha (c : Char) (h : c.isAlpha = true) : c.toNat < 0x80 := by
  unfold Char.isAlpha Char.isUpper Char.isLower at h
  rw [Bool.or_eq_true, decide_eq_true_eq, Bool.and_eq_true, decide_eq_true_eq,
    decide_eq_true_eq] at h
  rcases h with ⟨_, h⟩ | ⟨_, h⟩
  · exact Nat.lt_of_le_of_lt (show c.toNat ≤ 90 from h) (by decide)
  · exact Nat.lt_of_le_of_lt (show c.toNat ≤ 122 from h) (by decide)

/-- A drive letter with its colon is a segment in its final form. -/
theorem isSegment_drive (letter : Char) (hletter : letter.isAlpha = true) :
    IsSegment true [letter, ':'] ∧ isPlainDrive [letter, ':'] = true := by
  have hascii := toNat_of_isAlpha letter hletter
  have hall : ∀ n < 0x80, (Char.ofNat n).isAlpha = true → Percent.pathSet (Char.ofNat n) = false
      ∧ endsSegment true (Char.ofNat n) = false ∧ isSingleDot [Char.ofNat n, ':'] = false
      ∧ isDoubleDot [Char.ofNat n, ':'] = false := by decide +kernel
  rcases Percent.of_ascii (fun c => c.isAlpha = true → Percent.pathSet c = false
    ∧ endsSegment true c = false ∧ isSingleDot [c, ':'] = false ∧ isDoubleDot [c, ':'] = false)
    hall letter hascii hletter with ⟨hpath, hends, hsingle, hdouble⟩
  refine ⟨⟨fun c hc => ?_, hsingle, hdouble⟩, ?_⟩
  · simp only [List.mem_cons, List.not_mem_nil, or_false] at hc
    rcases hc with rfl | rfl
    · exact ⟨hpath, hascii, hends⟩
    · decide
  · rw [isPlainDrive, hletter]
    rfl

/-- Taking up a segment keeps a path a path. Files are special. -/
theorem isPath_takeSegment (special file : Bool) (hfile : file = true → special = true)
    (list : List String) (h : IsPath special file list) (segment : List Char)
    (hsplit : ∀ c ∈ segment, endsSegment special c = false) (last : Bool) :
    IsPath special file (takeSegment file list segment last)
      ∧ (last = true → takeSegment file list segment last ≠ []) := by
  -- Two points take a segment away, one leaves the list as it is, and anything else is appended.
  -- The last of either kind leaves an empty segment behind.
  unfold takeSegment
  split
  · have hshort := isPath_shorten special file list h
    dsimp only
    split
    · exact ⟨isPath_append_empty special file _ hshort, fun _ => List.append_ne_nil_of_right_ne_nil _
        (List.cons_ne_nil _ _)⟩
    · rename_i hlast
      exact ⟨hshort, fun h => absurd h hlast⟩
  · rename_i hdouble
    split
    · split
      · exact ⟨isPath_append_empty special file _ h, fun _ => List.append_ne_nil_of_right_ne_nil _
          (List.cons_ne_nil _ _)⟩
      · rename_i hlast
        exact ⟨h, fun h => absurd h hlast⟩
    · rename_i hsingle
      refine ⟨?_, ?_⟩
      · split
        · rename_i hdrive
          rw [Bool.and_eq_true, Bool.and_eq_true] at hdrive
          rcases isDrive_cases segment hdrive.2 with ⟨letter, mark, rfl, hletter, _⟩
          rw [hfile hdrive.1.1] at h ⊢
          -- The drive letter gets its colon, whichever mark it had.
          have hplain := isSegment_drive letter hletter
          exact isPath_append true file list h [letter, ':'] hplain.1 fun _ _ _ => hplain.2
        · rename_i hdrive
          refine isPath_append special file list h _ (isSegment_encode special segment hsplit
            (Bool.eq_false_iff.mpr hsingle) (Bool.eq_false_iff.mpr hdouble)) ?_
          intro hf hall hd
          rw [hf, hall, isDrive_of_isDrive_encode _ segment hd] at hdrive
          exact absurd rfl hdrive
      · split
        · exact fun _ => List.append_ne_nil_of_right_ne_nil _ (List.cons_ne_nil _ _)
        · exact fun _ => List.append_ne_nil_of_right_ne_nil _ (List.cons_ne_nil _ _)

theorem isPath_takeSegments (special file : Bool) (hfile : file = true → special = true)
    (segments : List (List Char)) :
    ∀ list, IsPath special file list →
      (∀ segment ∈ segments, ∀ c ∈ segment, endsSegment special c = false) →
      IsPath special file (takeSegments file list segments)
        ∧ (segments ≠ [] → takeSegments file list segments ≠ []) := by
  induction segments with
  | nil => exact fun list h _ => ⟨h, fun hne => absurd rfl hne⟩
  | cons segment rest ih =>
      intro list h hsplit
      have hfirst := isPath_takeSegment special file hfile list h segment
        (hsplit segment List.mem_cons_self)
      rcases rest with _ | ⟨next, rest⟩
      · exact ⟨(hfirst true).1, fun _ => (hfirst true).2 rfl⟩
      · have hrest := ih _ (hfirst false).1 fun s hs => hsplit s (List.mem_cons_of_mem segment hs)
        exact ⟨hrest.1, fun _ => hrest.2 (List.cons_ne_nil _ _)⟩

theorem dropWhile_of_ne (s : String) (rest : List String) (hs : s ≠ "") :
    (s :: rest).dropWhile (· == "") = s :: rest := by
  have h : ¬ (s == "") = true := fun h => hs (beq_iff_eq.mp h)
  exact List.dropWhile_cons_of_neg (p := fun t => t == "") h

theorem isPath_dropWhile (special file : Bool) (list : List String) (h : IsPath special file list) :
    IsPath special file (list.dropWhile (· == "")) := by
  refine ⟨fun s hs => h.segments s ((List.dropWhile_sublist _).subset hs), fun hfile => ?_⟩
  have hdrive := h.drive hfile
  clear h
  induction list with
  | nil => exact trivial
  | cons s rest ih =>
      by_cases hs : s = ""
      · rw [hs]
        exact ih (hdrive.2 hs)
      · rw [dropWhile_of_ne s rest hs]
        exact hdrive

/-- The path of a file starts with a segment that is not empty, or there is only
    an empty one. -/
def IsFilePath (list : List String) : Prop := list = [""] ∨ ∃ s rest, list = s :: rest ∧ s ≠ ""

/-- What is taken up is a path, and not without segments. -/
theorem isPath_takePath (special file : Bool) (hfile : file = true → special = true)
    (list : List String) (h : IsPath special file list) (cs : List Char) :
    IsPath special file (takePath special file list cs) ∧ takePath special file list cs ≠ []
      ∧ (file = true → IsFilePath (takePath special file list cs)) := by
  have htaken := isPath_takeSegments special file hfile (Text.splitBy (endsSegment special) cs) list h
    fun segment hsegment c hc => (Text.stop_of_mem_splitBy _ cs segment hsegment c hc).1
  unfold takePath
  dsimp only
  split
  · -- Of the path of a file no empty segment is left in front, unless nothing else is left.
    have hdrop := isPath_dropWhile special file _ htaken.1
    split
    · exact ⟨isPath_append_empty special file [] (isPath_nil special file), List.cons_ne_nil _ _,
        fun _ => Or.inl rfl⟩
    · rename_i hne
      refine ⟨hdrop, fun hnil => hne hnil, fun _ => ?_⟩
      rcases hrest : (takeSegments file list (Text.splitBy (endsSegment special) cs)).dropWhile
          (· == "") with _ | ⟨s, rest⟩
      · exact absurd hrest hne
      · refine Or.inr ⟨s, rest, rfl, fun hs => ?_⟩
        have hhead := List.head?_dropWhile_not (· == "")
          (takeSegments file list (Text.splitBy (endsSegment special) cs))
        rw [hrest, hs] at hhead
        exact absurd hhead.symm Bool.false_ne_true
  · rename_i hnot
    exact ⟨htaken.1, htaken.2 (Text.splitBy_ne_nil _ _), fun h => absurd h hnot⟩

/-- A segment in its final form is taken up as it is. -/
theorem takeSegment_of_isSegment (special file : Bool) (list : List String) (s : String)
    (h : IsSegment special s.toList) (last : Bool)
    (hdrive : file = true → list.all (· == "") = true → isDrive s.toList = true →
      isPlainDrive s.toList = true) :
    takeSegment file list s.toList last = list ++ [s] := by
  unfold takeSegment
  rw [h.double, h.single, if_neg Bool.false_ne_true, if_neg Bool.false_ne_true]
  -- A drive letter has its colon already, and anything else is encoded already.
  split
  · rename_i hcondition
    rw [Bool.and_eq_true, Bool.and_eq_true] at hcondition
    have hplain := hdrive hcondition.1.1 hcondition.1.2 hcondition.2
    unfold isPlainDrive at hplain
    split at hplain
    · rename_i letter mark hs
      rw [Bool.and_eq_true, beq_iff_eq] at hplain
      rw [hs, ← hplain.2]
      have hlist : String.ofList ([letter, mark].take 1 ++ [mark]) = s := by
        rw [← String.ofList_toList (s := s), hs]
        rfl
      rw [hlist]
    · exact absurd hplain Bool.false_ne_true
  · rw [Percent.encode_eq_self _ _ fun c hc => ⟨(h.chars c hc).1, (h.chars c hc).2.1⟩,
      String.ofList_toList]

/-- Segments in their final form are taken up as they are. -/
theorem takeSegments_of_isSegment (special file : Bool) (segments : List String) :
    ∀ list, (∀ s ∈ segments, IsSegment special s.toList) →
      (file = true → list.all (· == "") = true → DriveFirst segments) →
      takeSegments file list (segments.map String.toList) = list ++ segments := by
  induction segments with
  | nil => exact fun list _ _ => (List.append_nil list).symm
  | cons s rest ih =>
      intro list h hdrive
      have hs : ∀ last, takeSegment file list s.toList last = list ++ [s] := fun last =>
        takeSegment_of_isSegment special file list s (h s List.mem_cons_self) last
          fun hfile hall => (hdrive hfile hall).1
      rcases rest with _ | ⟨next, rest⟩
      · exact hs true
      · have hrest := ih (list ++ [s]) (fun t ht => h t (List.mem_cons_of_mem s ht)) (by
          intro hfile hall
          rw [List.all_append, Bool.and_eq_true, List.all_cons, Bool.and_eq_true, beq_iff_eq] at hall
          exact (hdrive hfile hall.1).2 hall.2.1)
        rw [List.append_assoc, List.singleton_append] at hrest
        rw [← hrest, ← hs false]
        rfl

/-- A path as it is written, without the slash in front. -/
def joined (list : List String) : List Char := ['/'].intercalate (list.map String.toList)

theorem toList_segmentsText (list : List String) (hne : list ≠ []) :
    (segmentsText list).toList = '/' :: joined list := by
  have hfold : ∀ (list : List String) (text : String),
      (list.foldl (fun text segment => text ++ "/" ++ segment) text).toList
        = text.toList ++ list.flatMap fun s => '/' :: s.toList := by
    intro list
    induction list with
    | nil => exact fun text => (List.append_nil _).symm
    | cons s rest ih =>
        intro text
        have hslash : "/".toList = ['/'] := rfl
        rw [List.foldl_cons, ih, String.toList_append, String.toList_append, hslash,
          List.flatMap_cons, List.append_assoc, List.append_assoc]
        rfl
  -- A slash in front of each segment is one in front of all and one between any two.
  have hjoin : ∀ (list : List String), list ≠ [] →
      (list.flatMap fun s => '/' :: s.toList) = '/' :: joined list := by
    intro list
    induction list with
    | nil => exact fun h => absurd rfl h
    | cons s rest ih =>
        intro _
        rcases rest with _ | ⟨next, rest⟩
        · unfold joined
          rw [List.map_cons, List.map_nil, List.intercalate_singleton, List.flatMap_cons,
            List.flatMap_nil, List.append_nil]
        · have hrest := ih (List.cons_ne_nil _ _)
          have hcons : joined (s :: next :: rest) = s.toList ++ ['/'] ++ joined (next :: rest) :=
            List.intercalate_cons_cons
          rw [List.flatMap_cons, hrest, hcons, List.append_assoc]
          rfl
  unfold segmentsText
  rw [hfold, hjoin list hne]
  rfl

/-- A path comes back. -/
theorem takePath_joined (special file : Bool) (list : List String) (hne : list ≠ [])
    (h : IsPath special file list) (hfile : file = true → IsFilePath list) :
    takePath special file [] (joined list) = list := by
  have hslash : endsSegment special '/' = true := by
    cases special with
    | true => rfl
    | false => rfl
  have hparts : Text.splitBy (endsSegment special) (joined list) = list.map String.toList := by
    refine Text.splitBy_intercalate _ '/' hslash _ (fun hnil => hne (List.map_eq_nil_iff.mp hnil)) ?_
    intro part hpart c hc
    rcases List.mem_map.mp hpart with ⟨s, hs, rfl⟩
    exact ((h.segments s hs).chars c hc).2.2
  have htaken := takeSegments_of_isSegment special file list [] h.segments fun hf _ => h.drive hf
  rw [List.nil_append] at htaken
  unfold takePath
  dsimp only
  rw [hparts, htaken]
  -- For files the empty segments in front are dropped, and there are none to be dropped.
  split
  · rename_i hf
    rcases hfile hf with rfl | ⟨s, rest, rfl, hs⟩
    · rfl
    · rw [dropWhile_of_ne s rest hs]
  · rfl

end Uri

end OpenApi
