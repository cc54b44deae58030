import OpenApi.Proofs.Uri.Authority
import OpenApi.Proofs.Uri.Path

/-!
# Regular URIs

What reading a text gives is regular: every part is in its final form and the
parts belong together. A special scheme has an authority and a path of segments,
a file has a host alone, and a drive letter at the head of a path has no host in
front of it. The other schemes may lack the authority, and then the path may be
no sequence of segments, but it does not start with a slash in that case.

Relative references keep parts of their base, so what they stand for is regular
if the base is. Files are left out as bases: a file relative to another one may
keep a host in front of a drive letter, and reading the text drops it.

## Main definitions

* `Uri.IsScheme`: A scheme in its final form.
* `Uri.IsFront`: An authority and a path that belong together.
* `Uri.IsRegular`: A URI in its final form.

## Theorems

* `isFront_readAbsolute?`, `isFront_readReference?`: What is read up to the path.
* `isRegular_readWith?`: What is read is regular.
* `isRegular_document`, `isRegular_withFragment`: So is its document, with any
  fragment.
-/

namespace OpenApi

namespace Uri

/-- A scheme as it is kept. -/
def IsScheme (scheme : String) : Prop :=
  (∃ first tail, scheme.toList = first :: tail ∧ first.isAlpha = true)
    ∧ ∀ c ∈ scheme.toList, isSchemeChar c = true ∧ c.toLower = c

theorem toNat_of_isSchemeChar (c : Char) (h : isSchemeChar c = true) : c.toNat < 0x80 := by
  unfold isSchemeChar Char.isAlphanum at h
  simp only [Bool.or_eq_true, beq_iff_eq] at h
  rcases h with (((h | h) | rfl) | rfl) | rfl
  · exact toNat_of_isAlpha c h
  · rw [Char.isDigit, Bool.and_eq_true, decide_eq_true_eq, decide_eq_true_eq] at h
    exact Nat.lt_of_le_of_lt (show c.toNat ≤ 57 from h.2) (by decide)
  · decide
  · decide
  · decide

/-- A letter of a scheme in lower case is a letter of a scheme. -/
theorem isSchemeChar_toLower (c : Char) (h : isSchemeChar c = true) :
    isSchemeChar c.toLower = true ∧ c.toLower.toLower = c.toLower
      ∧ (c.isAlpha = true → c.toLower.isAlpha = true) := by
  refine Percent.of_ascii (fun c => isSchemeChar c = true → isSchemeChar c.toLower = true
    ∧ c.toLower.toLower = c.toLower ∧ (c.isAlpha = true → c.toLower.isAlpha = true)) ?_ c
      (toNat_of_isSchemeChar c h) h
  decide +kernel

theorem isScheme_splitScheme? (cs rest : List Char) (scheme : String)
    (h : splitScheme? cs = some (scheme, rest)) :
    IsScheme scheme ∧ ∀ c ∈ rest, c ∈ cs := by
  unfold splitScheme? at h
  split at h
  · exact absurd h.symm (Option.some_ne_none _)
  · rename_i first tail
    split at h
    · rename_i halpha
      split at h
      · rename_i after hafter
        rcases Prod.mk.inj (Option.some.inj h) with ⟨hscheme, hrest⟩
        -- The first character is a letter, and so it is one of those that are taken.
        have hfirst : isSchemeChar first = true := by
          unfold isSchemeChar Char.isAlphanum
          rw [halpha]
          rfl
        rw [← hscheme, ← hrest]
        refine ⟨⟨⟨first.toLower, (tail.takeWhile isSchemeChar).map Char.toLower, ?_, (isSchemeChar_toLower first hfirst).2.2 halpha⟩, ?_⟩, ?_⟩
        · rw [String.toList_ofList, List.takeWhile_cons_of_pos hfirst, List.map_cons]
        · rw [String.toList_ofList]
          intro c hc
          rcases List.mem_map.mp hc with ⟨d, hd, rfl⟩
          have hlower := isSchemeChar_toLower d (List.mem_takeWhile_imp hd)
          exact ⟨hlower.1, hlower.2.1⟩
        · intro c hc
          refine (List.dropWhile_sublist isSchemeChar).subset ?_
          rw [hafter]
          exact List.mem_cons_of_mem _ hc
      · exact absurd h.symm (Option.some_ne_none _)
    · exact absurd h.symm (Option.some_ne_none _)

/-- The host of a file as it is kept. -/
def IsFileHost (host : String) : Prop :=
  host = "" ∨ (Host.read? host.toList = some host ∧ Host.Fits host.toList ∧ host ≠ "localhost")

/-- An authority and a path that belong together under a scheme. -/
inductive IsFront (scheme : String) : Option Authority → UriPath → Prop where
  /-- A file has a host alone, and none in front of a drive letter. -/
  | file (host : String) (list : List String) : scheme = "file" → IsFileHost host →
      IsPath true true list → list ≠ [] → IsFilePath list →
      (list.head?.map (fun s => isPlainDrive s.toList) = some true → host = "") →
      IsFront scheme (some (.ofHost host)) (.segments list)
  /-- Segments stand behind an authority. -/
  | authority (a : Authority) (list : List String) : scheme ≠ "file" → IsAuthority scheme a →
      IsPath (isSpecial scheme) false list → (isSpecial scheme = true → list ≠ []) →
      IsFront scheme (some a) (.segments list)
  /-- Segments stand alone. -/
  | rooted (list : List String) : isSpecial scheme = false → IsPath false false list →
      list ≠ [] → IsFront scheme none (.segments list)
  /-- There is a text that is no sequence of segments. -/
  | rootless (text : String) : isSpecial scheme = false →
      (∀ c ∈ text.toList, Percent.control c = false ∧ c.toNat < 0x80 ∧ c ≠ '?' ∧ c ≠ '\x23') →
      (∀ tail, text.toList ≠ '/' :: tail) → IsFront scheme none (.rootless text)

/-- The characters that are encoded in a query of a scheme. -/
def querySetOf (scheme : String) : Char → Bool :=
  if isSpecial scheme then Percent.specialQuerySet else Percent.querySet

theorem spares_querySetOf (scheme : String) : Percent.Spares (querySetOf scheme) := by
  unfold querySetOf
  split
  · exact Percent.spares_of_ascii _ (by decide) (by decide)
  · exact Percent.spares_of_ascii _ (by decide) (by decide)

/-- A URI as it is kept. -/
structure IsRegular (u : Uri) : Prop where
  /-- The scheme. -/
  scheme : IsScheme u.scheme
  /-- The authority and the path. -/
  front : IsFront u.scheme u.authority u.path
  /-- The query. -/
  query : ∀ q, u.query = some q → ∀ c ∈ q.toList, querySetOf u.scheme c = false ∧ c.toNat < 0x80
  /-- The fragment. -/
  fragment : ∀ f, u.fragment = some f →
    ∀ c ∈ f.toList, Percent.fragmentSet c = false ∧ c.toNat < 0x80

theorem isRegular_withFragment (u : Uri) (hu : IsRegular u) (fragment : String) :
    IsRegular (u.withFragment fragment) := by
  refine ⟨hu.scheme, hu.front, hu.query, fun f hf => ?_⟩
  rw [← Option.some.inj hf]
  exact mem_encodeFragment fragment

theorem isFront_stripPath (scheme : String) (authority : Option Authority) (path : UriPath)
    (h : IsFront scheme authority path) : IsFront scheme authority (stripPath path) := by
  cases h with
  | file host list hfile hhost hpath hne hlist hdrive =>
      exact IsFront.file host list hfile hhost hpath hne hlist hdrive
  | authority a list hfile ha hpath hne => exact IsFront.authority a list hfile ha hpath hne
  | rooted list hspecial hpath hne => exact IsFront.rooted list hspecial hpath hne
  | rootless text hspecial hchars hslash =>
      have hstart := List.rdropWhile_prefix (· == ' ') text.toList
      refine IsFront.rootless _ hspecial (fun c hc => ?_) fun tail htail => ?_
      · rw [String.toList_ofList] at hc
        exact hchars c (hstart.subset hc)
      · rw [String.toList_ofList] at htail
        rcases hstart with ⟨blanks, hblanks⟩
        exact hslash (tail ++ blanks) (by
          rw [← hblanks, List.rdropWhile, htail, List.cons_append])

/-- The document of a regular URI is regular. -/
theorem isRegular_document (u : Uri) (hu : IsRegular u) : IsRegular u.document := by
  refine ⟨hu.scheme, ?_, hu.query, fun f hf => absurd hf.symm (Option.some_ne_none f)⟩
  change IsFront u.scheme u.authority (if u.query.isSome then u.path else stripPath u.path)
  split
  · exact hu.front
  · exact isFront_stripPath _ _ _ hu.front

theorem isRegular_of_front (scheme : String) (authority : Option Authority) (path : UriPath)
    (hscheme : IsScheme scheme) (hfront : IsFront scheme authority path) :
    IsRegular ⟨scheme, authority, path, none, none⟩ :=
  ⟨hscheme, hfront, fun q hq => absurd hq.symm (Option.some_ne_none q),
    fun f hf => absurd hf.symm (Option.some_ne_none f)⟩

section Files

theorem isScheme_file : IsScheme "file" := by
  have hlist : "file".toList = ['f', 'i', 'l', 'e'] := rfl
  refine ⟨⟨'f', ['i', 'l', 'e'], hlist, rfl⟩, fun c hc => ?_⟩
  rw [hlist] at hc
  simp only [List.mem_cons, List.not_mem_nil, or_false] at hc
  rcases hc with rfl | rfl | rfl | rfl
  · decide
  · decide
  · decide
  · decide

/-- A file with a path that is taken up from a text. The host is dropped in front
    of a drive letter. -/
theorem isRegular_fileUri (host : String) (hhost : IsFileHost host) (cs : List Char) :
    IsRegular (fileUri
      (if (takePath true true [] cs).head?.map (fun s => isPlainDrive s.toList) = some true then ""
        else host) (takePath true true [] cs)) := by
  rcases isPath_takePath true true (fun h => h) [] (isPath_nil true true) cs with
    ⟨hpath, hne, hlist⟩
  refine isRegular_of_front "file" _ _ isScheme_file
    (IsFront.file _ _ rfl ?_ hpath hne (hlist rfl) fun hdrive => if_pos hdrive)
  split
  · exact Or.inl rfl
  · exact hhost

theorem isRegular_localFile (cs : List Char) :
    IsRegular (fileUri "" (takePath true true [] cs)) := by
  have h := isRegular_fileUri "" (Or.inl rfl) cs
  rwa [ite_self] at h

theorem isFileHost_readFileHost? (cs rest : List Char) (host : String)
    (h : readFileHost? cs = some (host, rest)) : IsFileHost host := by
  unfold readFileHost? at h
  dsimp only at h
  split at h
  · exact Or.inl (Prod.mk.inj (Option.some.inj h)).1.symm
  · split at h
    · exact Or.inl (Prod.mk.inj (Option.some.inj h)).1.symm
    · rcases Option.bind_eq_some_iff.mp h with ⟨read, hread, h⟩
      rcases Host.read?_read? _ read hread with ⟨hfixed, hfits, _⟩
      rw [← (Prod.mk.inj (Option.some.inj h)).1]
      split
      · exact Or.inl rfl
      · rename_i hlocal
        exact Or.inr ⟨hfixed, hfits, hlocal⟩

/-- A file that is read without a base is regular. -/
theorem isRegular_readFile? (cs : List Char) (u : Uri) (h : readFile? none cs = some u) :
    IsRegular u := by
  unfold readFile? at h
  split at h
  · rw [← Option.some.inj h]
    exact isRegular_localFile []
  · split at h
    · split at h
      · split at h
        · rcases Option.bind_eq_some_iff.mp h with ⟨⟨host, tail⟩, hhost, h⟩
          rw [← Option.some.inj h]
          exact isRegular_fileUri host (isFileHost_readFileHost? _ tail host hhost) (dropSlash tail)
        · rw [← Option.some.inj h]
          exact isRegular_localFile _
      · rw [← Option.some.inj h]
        exact isRegular_localFile _
    · rw [← Option.some.inj h]
      exact isRegular_localFile _

end Files

section Segments

variable (scheme : String) (hfile : scheme ≠ "file")

theorem isPath_pathAfterAuthority (special : Bool) (cs : List Char) :
    ∃ list, pathAfterAuthority special cs = .segments list ∧ IsPath special false list
      ∧ (special = true → list ≠ []) := by
  unfold pathAfterAuthority
  split
  · refine ⟨_, rfl, ?_, ?_⟩
    · split
      · exact isPath_append_empty special false [] (isPath_nil special false)
      · exact isPath_nil special false
    · intro h
      rw [if_pos h]
      exact List.cons_ne_nil _ _
  · rcases isPath_takePath special false (fun h => absurd h Bool.false_ne_true) []
      (isPath_nil special false) _ with ⟨hpath, hne, _⟩
    exact ⟨_, rfl, hpath, fun _ => hne⟩

include hfile

theorem isRegular_readAfterSlashes? (hscheme : IsScheme scheme) (more : Bool) (cs : List Char)
    (u : Uri) (h : readAfterSlashes? scheme more cs = some u) : IsRegular u := by
  rcases Option.bind_eq_some_iff.mp h with ⟨⟨a, rest⟩, ha, h⟩
  rcases isPath_pathAfterAuthority (isSpecial scheme) rest with ⟨list, hlist, hpath, hne⟩
  rw [← Option.some.inj h, hlist]
  exact isRegular_of_front scheme _ _ hscheme (IsFront.authority a list hfile
    (isAuthority_readAuthority? scheme more cs rest a ha) hpath hne)

/-- Any other path of segments fits the authority. -/
theorem isFront_segments (authority : Option Authority) (path : UriPath)
    (h : IsFront scheme authority path) (list : List String)
    (hpath : IsPath (isSpecial scheme) false list) (hne : list ≠ []) :
    IsFront scheme authority (.segments list) := by
  cases h with
  | file host list' heq => exact absurd heq hfile
  | authority a list' _ ha => exact IsFront.authority a list hfile ha hpath fun _ => hne
  | rooted list' hspecial =>
      rw [hspecial] at hpath
      exact IsFront.rooted list hspecial hpath hne
  | rootless text hspecial =>
      rw [hspecial] at hpath
      exact IsFront.rooted list hspecial hpath hne

end Segments

section Relative

variable (base : Uri) (hbase : IsRegular base) (hfile : base.scheme ≠ "file")

include hbase hfile

theorem isRegular_atPath (list : List String) (hpath : IsPath (isSpecial base.scheme) false list)
    (hne : list ≠ []) : IsRegular (readRelative?.atPath base list) :=
  isRegular_of_front base.scheme _ _ hbase.scheme
    (isFront_segments base.scheme hfile _ _ hbase.front list hpath hne)

theorem isPath_pathSegments : IsPath (isSpecial base.scheme) false base.pathSegments := by
  unfold pathSegments
  have hfront := hbase.front
  split
  · exact isPath_nil _ false
  · rename_i list hlist
    rw [hlist] at hfront
    generalize base.authority = authority at hfront
    cases hfront with
    | file host _ heq => exact absurd heq hfile
    | authority a _ _ _ hpath => exact hpath
    | rooted _ hspecial hpath =>
        rw [hspecial]
        exact hpath

/-- What a relative reference stands for is regular if its base is. -/
theorem isRegular_readRelative? (more : Bool) (cs : List Char) (u : Uri)
    (h : readRelative? base more cs = some u) : IsRegular u := by
  have htake : ∀ list ds, IsPath (isSpecial base.scheme) false list →
      IsRegular (readRelative?.atPath base (takePath (isSpecial base.scheme) false list ds)) := by
    intro list ds hlist
    rcases isPath_takePath (isSpecial base.scheme) false (fun h => absurd h Bool.false_ne_true)
      list hlist ds with ⟨hpath, hne, _⟩
    exact isRegular_atPath base hbase hfile _ hpath hne
  unfold readRelative? at h
  dsimp only at h
  split at h
  · rw [← Option.some.inj h]
    exact ⟨hbase.scheme, hbase.front, hbase.query, fun f hf => absurd hf.symm (Option.some_ne_none f)⟩
  · split at h
    · split at h
      · split at h
        · split at h
          · exact isRegular_readAfterSlashes? _ hfile hbase.scheme more _ u h
          · exact isRegular_readAfterSlashes? _ hfile hbase.scheme more _ u h
        · rw [← Option.some.inj h]
          exact htake _ _ (isPath_nil _ false)
      · rw [← Option.some.inj h]
        exact htake _ _ (isPath_nil _ false)
    · -- Without a slash in front, the last segment of the base makes room.
      rw [← Option.some.inj h]
      have hsegments := isPath_pathSegments base hbase hfile
      exact htake _ _ ⟨fun s hs => hsegments.segments s (List.dropLast_subset _ hs),
        fun h => absurd h Bool.false_ne_true⟩

theorem isRegular_readReference? (query fragment : Bool) (cs : List Char) (u : Uri)
    (h : readReference? base query fragment cs = some u) : IsRegular u := by
  unfold readReference? at h
  split at h
  · rw [← Option.some.inj h]
    exact ⟨hbase.scheme, hbase.front, hbase.query, fun f hf => absurd hf.symm (Option.some_ne_none f)⟩
  · split at h
    · exact absurd h.symm (Option.some_ne_none u)
    · exact isRegular_readRelative? base hbase hfile _ cs u h

end Relative

/-- What stands before the first mark does not hold it. -/
theorem mem_splitMark (mark : Char) (cs : List Char) (c : Char) (hc : c ∈ (splitMark mark cs).1) :
    c ≠ mark ∧ c ∈ cs := by
  have hfront : (splitMark mark cs).1 = cs.takeWhile (· != mark) := by
    unfold splitMark
    dsimp only
    split
    · rfl
    · rfl
  rw [hfront] at hc
  exact ⟨bne_iff_ne.mp (List.mem_takeWhile_imp (p := (· != mark)) hc),
    (List.takeWhile_sublist _).subset hc⟩

section Absolute

variable (base : Option Uri) (hbase : ∀ b, base = some b → IsRegular b ∧ b.scheme ≠ "file")

include hbase

theorem isRegular_readAbsolute? (scheme : String) (hscheme : IsScheme scheme) (more : Bool)
    (cs : List Char) (hcs : ∀ c ∈ cs, c ≠ '?' ∧ c ≠ '\x23') (u : Uri)
    (h : readAbsolute? base scheme more cs = some u) : IsRegular u := by
  unfold readAbsolute? at h
  split at h
  · -- A base that is no file says nothing about files.
    have hnone : (base.filter fun b => b.scheme == "file") = none := by
      rw [Option.filter_eq_none_iff]
      exact fun b hb hscheme => (hbase b hb).2 (beq_iff_eq.mp hscheme)
    rw [hnone] at h
    exact isRegular_readFile? cs u h
  · rename_i hfile
    split at h
    · dsimp only at h
      split at h
      · rename_i b
        split at h
        · exact isRegular_readRelative? b (hbase b rfl).1 (hbase b rfl).2 more cs u h
        · exact isRegular_readAfterSlashes? scheme hfile hscheme more _ u h
      · exact isRegular_readAfterSlashes? scheme hfile hscheme more _ u h
    · rename_i hspecial
      rw [Bool.not_eq_true] at hspecial
      split at h
      · exact isRegular_readAfterSlashes? scheme hfile hscheme more _ u h
      · rename_i rest _
        rcases isPath_takePath false false (fun h => h) [] (isPath_nil false false) rest with
          ⟨hpath, hne, _⟩
        rw [← Option.some.inj h]
        exact isRegular_of_front scheme _ _ hscheme (IsFront.rooted _ hspecial hpath hne)
      · rename_i hslashes hslash
        rw [← Option.some.inj h]
        refine isRegular_of_front scheme _ _ hscheme (IsFront.rootless _ hspecial ?_ ?_)
        · rw [String.toList_ofList]
          intro c hc
          have hplain := Percent.mem_encode _ Percent.spares_control cs c hc
          refine ⟨hplain.1, hplain.2, ?_⟩
          have hhex : ∀ n < 16, Percent.upperHex n ≠ '?' ∧ Percent.upperHex n ≠ '\x23' := by decide
          rcases Percent.mem_encode_cases _ cs c hc with ⟨hc, _⟩ | rfl | ⟨n, hn, rfl⟩
          · exact hcs c hc
          · decide
          · exact hhex n hn
        · rw [String.toList_ofList]
          intro tail htail
          rcases Percent.cons_of_encode _ cs '/' tail htail (by decide) with ⟨rest, hrest, _⟩
          exact hslash rest hrest

/-- What a text up to its query stands for. -/
def readFront? (query fragment : Bool) (cs : List Char) : Option Uri :=
  match splitScheme? cs with
  | some (scheme, rest) => readAbsolute? base scheme (query || fragment) rest
  | none => base.bind fun b => readReference? b query fragment cs

omit hbase in
/-- Reading a text, from the outside in. -/
theorem readWith?_eq (reference : String) :
    readWith? base reference =
      let parts := splitMark '\x23' (clean reference.toList)
      let halves := splitMark '?' parts.1
      (readFront? base halves.2.isSome parts.2.isSome halves.1).map fun u =>
        { u with
          query := (halves.2.map (encodeQuery u.scheme)).or u.query
          fragment := parts.2.map fun cs => encodeFragment (String.ofList cs) } := by
  unfold readWith? readFront?
  dsimp only
  generalize splitMark '?' (splitMark '\x23' (clean reference.toList)).1 = halves
  rcases halves with ⟨front, query⟩
  dsimp only
  cases splitScheme? front with
  | none =>
      cases base.bind fun b => readReference? b query.isSome
          (splitMark '\x23' (clean reference.toList)).2.isSome front with
      | none => rfl
      | some u => cases query with
        | none => rfl
        | some cs => rfl
  | some parts =>
      rcases parts with ⟨scheme, rest⟩
      dsimp only
      cases readAbsolute? base scheme
          (query.isSome || (splitMark '\x23' (clean reference.toList)).2.isSome) rest with
      | none => rfl
      | some u => cases query with
        | none => rfl
        | some cs => rfl

theorem isRegular_readFront? (query fragment : Bool) (cs : List Char)
    (hcs : ∀ c ∈ cs, c ≠ '?' ∧ c ≠ '\x23') (u : Uri)
    (h : readFront? base query fragment cs = some u) : IsRegular u := by
  unfold readFront? at h
  split at h
  · rename_i scheme rest hsplit
    rcases isScheme_splitScheme? cs rest scheme hsplit with ⟨hscheme, hrest⟩
    exact isRegular_readAbsolute? base hbase scheme hscheme _ rest (fun c hc => hcs c (hrest c hc)) u h
  · rcases Option.bind_eq_some_iff.mp h with ⟨b, hb, h⟩
    exact isRegular_readReference? b (hbase b hb).1 (hbase b hb).2 query fragment cs u h

/-- What a text stands for is regular if its base is. -/
theorem isRegular_readWith? (reference : String) (u : Uri)
    (h : readWith? base reference = some u) : IsRegular u := by
  rw [readWith?_eq] at h
  rcases Option.map_eq_some_iff.mp h with ⟨read, hread, rfl⟩
  have hregular := isRegular_readFront? base hbase _ _ _ (fun c hc => by
    have hquery := mem_splitMark '?' _ c hc
    exact ⟨hquery.1, (mem_splitMark '\x23' _ c hquery.2).1⟩) read hread
  refine ⟨hregular.scheme, hregular.front, fun q hq => ?_, fun f hf => ?_⟩
  · rcases Option.or_eq_some_iff.mp hq with hq | ⟨_, hq⟩
    · rcases Option.map_eq_some_iff.mp hq with ⟨cs, _, rfl⟩
      intro c hc
      rw [encodeQuery, String.toList_ofList] at hc
      exact Percent.mem_encode _ (spares_querySetOf read.scheme) cs c hc
    · exact hregular.query q hq
  · rcases Option.map_eq_some_iff.mp hf with ⟨cs, _, rfl⟩
    exact mem_encodeFragment _

end Absolute

end Uri

end OpenApi
