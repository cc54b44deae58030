import Mathlib.Data.List.TakeWhile
import OpenApi.Parameter.Decoded
import OpenApi.Proofs.Ordered
import OpenApi.Proofs.Text.Split

/-!
# Deep Objects

A deep object is spread over a query string that it shares with other parameters.
Between the ampersands stand parts of three kinds: a key in brackets behind the
name, with an equals sign and a value; the same without an equals sign, which
means the empty value; and anything else, which belongs to someone else.

The name and the keys hold neither brackets nor equals signs, so that the first
equals sign of a part ends the key and the brackets show where it begins. Nothing
is asked of a value but that it holds no ampersand. So every text is made of such
parts in one way or another, and what is decoded from it are the members among
them, in order.

## Main definitions

* `Serialization.bracketed`: A key in brackets behind a name.
* `Serialization.QueryPart`: A part of a query string.
* `Serialization.queryText`: The text of some parts.

## Theorems

* `deepKey?_eq_some_iff`: Where there is a key in brackets.
* `deepMember?_text`: What is read from a part.
* `exists_queryParts`: Every text is made of parts.
* `decode_queryText`: The members come back from between the other parts.
-/

namespace OpenApi

namespace Serialization

/-- A text without brackets. -/
def Unbracketed (cs : List Char) : Prop := '[' ∉ cs ∧ ']' ∉ cs

instance (cs : List Char) : Decidable (Unbracketed cs) := inferInstanceAs (Decidable (_ ∧ _))

/-- A text that can stand as a name or as a key: without brackets, and without the
    signs that end a key or a part. -/
def Plain (cs : List Char) : Prop := Unbracketed cs ∧ '=' ∉ cs ∧ '&' ∉ cs

instance (cs : List Char) : Decidable (Plain cs) := inferInstanceAs (Decidable (_ ∧ _))

/-- A key in brackets behind a name. -/
def bracketed (name key : List Char) : List Char := name ++ '[' :: (key ++ [']'])

section Keys

variable (name key cs : List Char)

theorem unbracketed_iff :
    Unbracketed cs ↔ ∀ c ∈ cs, (!(c == '[' || c == ']')) = true := by
  unfold Unbracketed
  constructor
  · rintro ⟨hopen, hclose⟩ c hc
    rw [Bool.not_eq_true', Bool.or_eq_false_iff, beq_eq_false_iff_ne, beq_eq_false_iff_ne]
    exact ⟨fun h => hopen (h ▸ hc), fun h => hclose (h ▸ hc)⟩
  · intro h
    exact ⟨fun hc => absurd (h '[' hc) (by decide), fun hc => absurd (h ']' hc) (by decide)⟩

theorem unbracketed_takeWhile :
    Unbracketed (cs.takeWhile fun c => !(c == '[' || c == ']')) := by
  rw [unbracketed_iff]
  exact fun c hc => List.mem_takeWhile_imp (p := fun c => !(c == '[' || c == ']')) hc

/-- What is read up to the first bracket, and what is left there. -/
theorem span_bracket (c : Char) (hc : (c == '[' || c == ']') = true) (rest : List Char)
    (hcs : Unbracketed cs) :
    (cs ++ c :: rest).takeWhile (fun d => !(d == '[' || d == ']')) = cs
      ∧ (cs ++ c :: rest).dropWhile (fun d => !(d == '[' || d == ']')) = c :: rest :=
  Text.span_append_cons _ c (by rw [hc]; rfl) cs ((unbracketed_iff cs).mp hcs) rest

/-- A key is read exactly where it stands in brackets behind the name. -/
theorem deepKey?_eq_some_iff :
    deepKey? name cs = some key
      ↔ name ≠ [] ∧ Unbracketed name ∧ Unbracketed key ∧ cs = bracketed name key := by
  constructor
  · intro h
    unfold deepKey? at h
    dsimp only at h
    split at h
    · rename_i rest hdrop
      by_cases hfaults : (cs.takeWhile fun c => !(c == '[' || c == ']')).isEmpty = true
          ∨ (cs.takeWhile fun c => !(c == '[' || c == ']')) ≠ name
          ∨ (rest.dropWhile fun c => !(c == '[' || c == ']')) ≠ [']']
      · rw [if_pos hfaults] at h
        exact absurd h.symm (Option.some_ne_none key)
      · rw [if_neg hfaults, Option.some.injEq] at h
        -- What the tests have let through is put together again from the pieces.
        rw [not_or, not_or, not_not, not_not] at hfaults
        obtain ⟨hempty, hname, hbehind⟩ := hfaults
        have hcs := cs.takeWhile_append_dropWhile (p := fun c => !(c == '[' || c == ']'))
        have hrest := rest.takeWhile_append_dropWhile (p := fun c => !(c == '[' || c == ']'))
        rw [hname, hdrop] at hcs
        rw [h, hbehind] at hrest
        refine ⟨?_, ?_, ?_, ?_⟩
        · rintro rfl
          exact hempty (List.isEmpty_iff.mpr hname)
        · rw [← hname]
          exact unbracketed_takeWhile cs
        · rw [← h]
          exact unbracketed_takeWhile rest
        · unfold bracketed
          rw [← hcs, ← hrest]
    · exact absurd h.symm (Option.some_ne_none key)
  · rintro ⟨hne, hname, hkey, rfl⟩
    obtain ⟨htake, hdrop⟩ := span_bracket name '[' rfl (key ++ [']']) hname
    obtain ⟨hinside, hbehind⟩ := span_bracket key ']' rfl [] hkey
    unfold deepKey? bracketed
    simp only [htake, hdrop, hinside, hbehind, List.isEmpty_iff, hne, ne_eq, not_true_eq_false,
      or_self, if_false]

/-- No key is read exactly where none stands in brackets behind the name. -/
theorem deepKey?_eq_none_iff (hne : name ≠ []) (hname : Unbracketed name) :
    deepKey? name cs = none ↔ ∀ key, Unbracketed key → cs ≠ bracketed name key := by
  constructor
  · intro hnone key hkey hcs
    have hread := (deepKey?_eq_some_iff name key cs).mpr ⟨hne, hname, hkey, hcs⟩
    exact Option.some_ne_none key (hread.symm.trans hnone)
  · intro h
    rcases hread : deepKey? name cs with _ | key
    · rfl
    · obtain ⟨_, _, hkey, hcs⟩ := (deepKey?_eq_some_iff name key cs).mp hread
      exact absurd hcs (h key hkey)

end Keys

/-- A part of a query string. -/
inductive QueryPart where
  /-- A key in brackets behind the name, with a value. -/
  | member (key value : String)
  /-- A key in brackets behind the name, and nothing else. -/
  | bare (key : String)
  /-- Something else. -/
  | foreign (text : String)
deriving DecidableEq, Repr

namespace QueryPart

/-- The text of a part, for an object with a name. -/
def text (name : List Char) : QueryPart → List Char
  | .member key value => bracketed name key.toList ++ '=' :: value.toList
  | .bare key => bracketed name key.toList
  | .foreign text => text.toList

/-- The member that a part adds to the object. -/
def member? : QueryPart → Option (String × String)
  | .member key value => some (key, value)
  | .bare key => some (key, "")
  | .foreign _ => none

/-- A part can be told from the others, and from parts of another kind. -/
def Fits (name : List Char) : QueryPart → Prop
  | .member key value => Plain key.toList ∧ '&' ∉ value.toList
  | .bare key => Plain key.toList
  | .foreign text => '&' ∉ text.toList ∧
      ∀ key, Unbracketed key → text.toList.takeWhile (· != '=') ≠ bracketed name key

end QueryPart

/-- The members of some parts, in order. -/
def queryMembers (parts : List QueryPart) : List (String × String) :=
  parts.filterMap QueryPart.member?

/-- The text of some parts, with ampersands between them. -/
def queryText (name : String) (parts : List QueryPart) : String :=
  String.ofList (['&'].intercalate (parts.map (QueryPart.text name.toList)))

section Parts

variable (name : List Char)

theorem not_mem_bracketed (key : List Char) (c : Char) (hc : c ≠ '[' ∧ c ≠ ']')
    (hname : c ∉ name) (hkey : c ∉ key) : c ∉ bracketed name key := by
  unfold bracketed
  simp only [List.mem_append, List.mem_cons, List.not_mem_nil, or_false, not_or]
  exact ⟨hname, hc.1, hkey, hc.2⟩

/-- The key of a part ends at the first equals sign, and the value begins behind it. -/
theorem deepMember?_append (cs key behind : List Char) (hcs : '=' ∉ cs)
    (hkey : deepKey? name cs = some key) (hbehind : ∀ c tail, behind = c :: tail → c = '=') :
    deepMember? name (cs ++ behind)
      = some (String.ofList key, some (String.ofList (behind.drop 1))) := by
  obtain ⟨htake, hdrop⟩ := Text.span_append (· != '=') cs behind
    (fun c hc => bne_iff_ne.mpr fun h => hcs (h ▸ hc))
    (fun c tail h => by rw [hbehind c tail h]; rfl)
  unfold deepMember?
  rw [htake, hdrop, hkey]
  rfl

/-- What is read from a part is the member that it adds. -/
theorem deepMember?_text (hne : name ≠ []) (hname : Plain name) (part : QueryPart)
    (h : part.Fits name) :
    deepMember? name (part.text name)
      = part.member?.map fun member => (member.1, some member.2) := by
  have hkey : ∀ key : List Char, Plain key →
      deepKey? name (bracketed name key) = some key ∧ '=' ∉ bracketed name key := by
    rintro key ⟨hbrackets, hequals, _⟩
    exact ⟨(deepKey?_eq_some_iff name key _).mpr ⟨hne, hname.1, hbrackets, rfl⟩,
      not_mem_bracketed name key '=' (by decide) hname.2.1 hequals⟩
  cases part with
  | member key value =>
      obtain ⟨hread, hequals⟩ := hkey key.toList h.1
      have hmember := deepMember?_append name _ key.toList ('=' :: value.toList) hequals hread
        fun c tail h => (List.cons.inj h).1.symm
      rw [List.drop_succ_cons, List.drop_zero, String.ofList_toList, String.ofList_toList]
        at hmember
      exact hmember
  | bare key =>
      obtain ⟨hread, hequals⟩ := hkey key.toList h
      have hmember := deepMember?_append name _ key.toList [] hequals hread nofun
      rw [List.append_nil, String.ofList_toList] at hmember
      exact hmember
  -- A part that has the form of no member is passed over.
  | foreign text =>
      unfold deepMember? QueryPart.text QueryPart.member?
      rw [Option.map_none, Option.map_eq_none_iff]
      exact (deepKey?_eq_none_iff name _ hne hname.1).mpr h.2

theorem ampersand_not_mem_text (hname : Plain name) (part : QueryPart) (h : part.Fits name) :
    '&' ∉ part.text name := by
  have hkey : ∀ key : List Char, Plain key → '&' ∉ bracketed name key := fun key hplain =>
    not_mem_bracketed name key '&' (by decide) hname.2.2 hplain.2.2
  cases part with
  | member key value =>
      intro hmem
      rcases List.mem_append.mp hmem with hmem | hmem
      · exact hkey key.toList h.1 hmem
      · rcases List.mem_cons.mp hmem with hequals | hmem
        · exact absurd hequals (by decide)
        · exact h.2 hmem
  | bare key => exact hkey key.toList h
  | foreign text => exact h.1

/-- What is read from the parts between the ampersands of a text are the members. -/
theorem filterMap_deepMember?_text (hne : name ≠ []) (hname : Plain name)
    (parts : List QueryPart) (hparts : ∀ part ∈ parts, part.Fits name) :
    (parts.map (QueryPart.text name)).filterMap (deepMember? name)
      = (queryMembers parts).map fun member => (member.1, some member.2) := by
  unfold queryMembers
  rw [List.filterMap_map, List.map_filterMap]
  exact List.filterMap_congr fun part hpart =>
    deepMember?_text name hne hname part (hparts part hpart)

end Parts

section Text

/-- What stands in brackets in front of the first equals sign can be a key. -/
theorem plain_of_takeWhile (name key cs : List Char) (hcs : '&' ∉ cs) (hkey : Unbracketed key)
    (hfront : cs.takeWhile (· != '=') = bracketed name key) : Plain key := by
  have hinside : ∀ c ∈ key, c ∈ cs.takeWhile (· != '=') := by
    intro c hc
    rw [hfront]
    unfold bracketed
    exact List.mem_append_right name (List.mem_cons_of_mem '[' (List.mem_append_left [']'] hc))
  refine ⟨hkey, fun hequals => ?_, fun hampersand => ?_⟩
  · exact bne_iff_ne.mp (List.mem_takeWhile_imp (p := (· != '=')) (hinside '=' hequals)) rfl
  · exact hcs ((List.takeWhile_sublist _).subset (hinside '&' hampersand))

/-- Whatever stands between two ampersands is a part. -/
theorem exists_queryPart (name cs : List Char) (hcs : '&' ∉ cs) :
    ∃ part : QueryPart, part.Fits name ∧ part.text name = cs := by
  -- The negation of this is what `Fits` asks of a foreign part.
  by_cases hkey : ∃ key, Unbracketed key ∧ cs.takeWhile (· != '=') = bracketed name key
  · obtain ⟨key, hbrackets, hfront⟩ := hkey
    have hspan := cs.takeWhile_append_dropWhile (p := (· != '='))
    have hplain : Plain (String.ofList key).toList := by
      rw [String.toList_ofList]
      exact plain_of_takeWhile name key cs hcs hbrackets hfront
    -- The key ends the part, or an equals sign and the value follow it.
    rcases Text.dropWhile_ne_cases '=' cs with hvalue | ⟨value, hvalue⟩
    · refine ⟨.bare (String.ofList key), hplain, ?_⟩
      change bracketed name (String.ofList key).toList = cs
      rw [hvalue, List.append_nil] at hspan
      rw [String.toList_ofList, ← hfront, hspan]
    · refine ⟨.member (String.ofList key) (String.ofList value), ⟨hplain, ?_⟩, ?_⟩
      · rw [String.toList_ofList]
        intro hampersand
        refine hcs ((List.dropWhile_sublist (· != '=')).subset ?_)
        rw [hvalue]
        exact List.mem_cons_of_mem '=' hampersand
      · change bracketed name (String.ofList key).toList ++ '=' :: (String.ofList value).toList = cs
        rw [String.toList_ofList, String.toList_ofList, ← hfront, ← hvalue, hspan]
  · refine ⟨.foreign (String.ofList cs), ⟨?_, fun key hbrackets hfront => ?_⟩, ?_⟩
    · rwa [String.toList_ofList]
    · rw [String.toList_ofList] at hfront
      exact hkey ⟨key, hbrackets, hfront⟩
    · exact String.toList_ofList

/-- Every text is made of parts. -/
theorem exists_queryParts (name text : String) :
    ∃ parts : List QueryPart, (∀ part ∈ parts, part.Fits name.toList)
      ∧ queryText name parts = text := by
  have hparts : ∀ pieces : List (List Char), (∀ cs ∈ pieces, '&' ∉ cs) →
      ∃ parts : List QueryPart, (∀ part ∈ parts, part.Fits name.toList)
        ∧ parts.map (QueryPart.text name.toList) = pieces := by
    intro pieces hpieces
    induction pieces with
    | nil => exact ⟨[], nofun, rfl⟩
    | cons cs rest ih =>
        obtain ⟨hcs, hrest⟩ := List.forall_mem_cons.mp hpieces
        obtain ⟨part, hpart, rfl⟩ := exists_queryPart name.toList cs hcs
        obtain ⟨parts, hparts, rfl⟩ := ih hrest
        exact ⟨part :: parts, List.forall_mem_cons.mpr ⟨hpart, hparts⟩, rfl⟩
  obtain ⟨parts, hfits, hpieces⟩ := hparts (Text.splitBy (· == '&') text.toList)
    (fun cs hcs hampersand =>
      absurd (Text.stop_of_mem_splitBy _ _ cs hcs '&' hampersand).1 (by decide))
  refine ⟨parts, hfits, ?_⟩
  unfold queryText
  rw [hpieces, Text.intercalate_splitBy, String.ofList_toList]

end Text

variable (s : Serialization)

/-- The members of a deep object are those among the parts of its text. -/
theorem deepMembers?_queryText (hne : s.name ≠ "") (hname : Plain s.name.toList)
    (parts : List QueryPart) (hparts : ∀ part ∈ parts, part.Fits s.name.toList) :
    s.deepMembers? (queryText s.name parts).toList
      = if queryMembers parts = [] then none
        else some (Ordered.ofEntries
          ((queryMembers parts).map fun member => (member.1, some member.2))) := by
  have hread : (Text.splitBy (· == '&') (queryText s.name parts).toList).filterMap
      (deepMember? s.name.toList)
        = (queryMembers parts).map fun member => (member.1, some member.2) := by
    unfold queryText
    rw [String.toList_ofList]
    -- Splitting gives one part more than there are separators, so an empty one of no parts.
    by_cases hnil : parts = []
    · rw [hnil]
      rfl
    · have hapart : ∀ cs ∈ parts.map (QueryPart.text s.name.toList), ∀ c ∈ cs,
          (c == '&') = false := by
        intro cs hcs c hc
        obtain ⟨part, hpart, rfl⟩ := List.mem_map.mp hcs
        rw [beq_eq_false_iff_ne]
        rintro rfl
        exact ampersand_not_mem_text s.name.toList hname part (hparts part hpart) hc
      have hsplit := Text.splitBy_intercalate (· == '&') '&' rfl
        (parts.map (QueryPart.text s.name.toList))
        (fun h => hnil (List.map_eq_nil_iff.mp h)) hapart
      rw [hsplit]
      exact filterMap_deepMember?_text s.name.toList
        (fun h => hne (String.toList_eq_nil_iff.mp h)) hname parts hparts
  unfold deepMembers?
  rw [hread]
  cases queryMembers parts with
  | nil => rfl
  | cons member rest => rfl

/-- The empty text carries no deep object either, so it needs no case of its own. -/
theorem decode_deepObject (hstyle : s.style = .deepObject) (text : String) :
    s.decode text .object = .ok ((s.deepMembers? text.toList).map .object) := by
  unfold decode object?
  rw [hstyle]
  cases htext : text.toList with
  | nil => rfl
  | cons c rest => rfl

/-- The members of a deep object come back from between the other parts of the
    text, wherever these stand. Of the members with one key the last one counts, in
    the place of the first one, and without any member there is no object. There is
    no text that is not made of such parts. -/
theorem decode_queryText (hstyle : s.style = .deepObject) (hne : s.name ≠ "")
    (hname : Plain s.name.toList) :
    (∀ parts : List QueryPart, (∀ part ∈ parts, part.Fits s.name.toList) →
        (queryMembers parts = [] → s.decode (queryText s.name parts) .object = .ok none)
        ∧ (queryMembers parts ≠ [] → ∃ entries,
            s.decode (queryText s.name parts) .object = .ok (some (.object entries))
              ∧ Ordered.keys entries = ((queryMembers parts).map Prod.fst).eraseDups
              ∧ ∀ key, Ordered.get? entries key
                  = ((queryMembers parts).reverse.lookup key).map some))
      ∧ ∀ text, ∃ parts : List QueryPart, (∀ part ∈ parts, part.Fits s.name.toList)
          ∧ queryText s.name parts = text := by
  refine ⟨fun parts hparts => ?_, exists_queryParts s.name⟩
  have hdecoded := s.decode_deepObject hstyle (queryText s.name parts)
  rw [s.deepMembers?_queryText hne hname parts hparts] at hdecoded
  constructor
  · intro hmembers
    rw [hdecoded, if_pos hmembers, Option.map_none]
  · intro hmembers
    rw [if_neg hmembers, Option.map_some] at hdecoded
    refine ⟨_, hdecoded, ?_, fun key => ?_⟩
    · rw [Ordered.keys_ofEntries, List.map_map]
      rfl
    · -- The last member of a key is the first one from behind.
      rw [Ordered.get?_ofEntries, ← List.map_reverse, Ordered.lookup_map_values]

/-- A search in a query string. -/
def search : Serialization := ⟨"search", .deepObject, true⟩

/-- The parts of a query string with two searches for a term, one of them for signs that
    mean something elsewhere. -/
def searchParts : List QueryPart :=
  [.foreign "filter[term]=active", .member "term" "hello", .bare "flag", .foreign "search",
    .member "term" "a=[b]", .foreign "search[a][b]=1"]

/-- The second term stands in the place of the first one and the flag is empty. With
    other parts alone there is nothing. -/
theorem decode_queryText_search :
    (∃ entries, search.decode
        ("filter[term]=active&search[term]=hello&search[flag]&search"
          ++ "&search[term]=a=[b]&search[a][b]=1") .object = .ok (some (.object entries))
      ∧ Ordered.keys entries = ["term", "flag"]
      ∧ Ordered.get? entries "term" = some (some "a=[b]")
      ∧ Ordered.get? entries "flag" = some (some ""))
      ∧ search.decode "filter[term]=active&search[a][b]=1" .object = .ok none := by
  have hforeign : ∀ text ∈ ["filter[term]=active", "search", "search[a][b]=1"],
      (QueryPart.foreign text).Fits search.name.toList := by
    intro text htext
    refine ⟨?_, (deepKey?_eq_none_iff _ _ (by decide) (by decide)).mp ?_⟩
    · revert text
      decide
    · revert text
      decide
  have hparts : ∀ part ∈ searchParts, part.Fits search.name.toList := by
    intro part hpart
    simp only [searchParts, List.mem_cons, List.not_mem_nil, or_false] at hpart
    rcases hpart with rfl | rfl | rfl | rfl | rfl | rfl
    · exact hforeign _ (by decide)
    · exact ⟨by decide, by decide⟩
    · exact (by decide : Plain "flag".toList)
    · exact hforeign _ (by decide)
    · exact ⟨by decide, by decide⟩
    · exact hforeign _ (by decide)
  have hdecode := (decode_queryText search rfl (by decide) (by decide)).1
  obtain ⟨entries, hentries, hkeys, hget⟩ := (hdecode searchParts hparts).2 (by decide)
  refine ⟨⟨entries, hentries, hkeys, hget "term", hget "flag"⟩, ?_⟩
  refine (hdecode [.foreign "filter[term]=active", .foreign "search[a][b]=1"] ?_).1 rfl
  intro part hpart
  simp only [List.mem_cons, List.not_mem_nil, or_false] at hpart
  rcases hpart with rfl | rfl
  · exact hforeign _ (by decide)
  · exact hforeign _ (by decide)

end Serialization

end OpenApi
