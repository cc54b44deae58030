import Mathlib.Data.List.DropRight
import OpenApi.Proofs.Text.Percent
import OpenApi.Uri.Basic

/-!
# Texts as Fragments

A text that is made the fragment of a URI is encoded, and decoding the fragment
is meant to give it back. Two things are lost on the way. Tabs and line ends are
dropped. A percent sign is left as it is, so one that two hexadecimal digits
follow in the text is taken for an encoded octet when the fragment is read.

A text without either is faithful, and the faithful texts are exactly those that
come back.

## Main definitions

* `Uri.isFaithful`: A text without line ends, tabs and triples.

## Theorems

* `spares_fragmentSet`: Encoding a fragment spares triples.
* `decodedFragment_withFragment_iff`: Exactly faithful texts come back.
* `mem_encodeFragment`, `encodeFragment_eq_self`: What a fragment is made of is kept when
  it is encoded again.
-/

namespace OpenApi

theorem Percent.spares_fragmentSet : Percent.Spares Percent.fragmentSet :=
  Percent.spares_of_ascii _ (by decide) (by decide)

namespace Uri

/-- Whether a text has neither tabs nor line ends, nor a percent sign with two
    hexadecimal digits behind it. -/
def isFaithful (text : String) : Bool :=
  text.toList.all (fun c => !isLineOrTab c) && !Percent.hasTriple text.toList

theorem toList_encodeFragment (text : String) :
    (encodeFragment text).toList
      = Percent.encode Percent.fragmentSet (text.toList.filter fun c => !isLineOrTab c) := by
  rw [encodeFragment, String.toList_ofList]

theorem decodedFragment_withFragment (u : Uri) (text : String) :
    (u.withFragment text).decodedFragment
      = String.ofList (Percent.decode (text.toList.filter fun c => !isLineOrTab c)) := by
  unfold decodedFragment withFragment
  dsimp only
  rw [toList_encodeFragment, Percent.decode, Percent.octets_encode _ Percent.spares_fragmentSet,
    Percent.decode]

/-- A text comes back from a fragment exactly if it is faithful. -/
theorem decodedFragment_withFragment_iff (u : Uri) (text : String) :
    (u.withFragment text).decodedFragment = text ↔ isFaithful text = true := by
  rw [decodedFragment_withFragment, isFaithful, Bool.and_eq_true, Bool.not_eq_true',
    ← Percent.decode_eq_iff]
  constructor
  · intro h
    have hdecode : Percent.decode (text.toList.filter fun c => !isLineOrTab c) = text.toList := by
      rw [← String.toList_ofList (l := Percent.decode _), h]
    -- Decoding adds no characters, so none can have been dropped before.
    have hle := Percent.length_decode_le (text.toList.filter fun c => !isLineOrTab c)
    rw [hdecode] at hle
    have hfilter : text.toList.filter (fun c => !isLineOrTab c) = text.toList :=
      (List.filter_sublist (p := fun c => !isLineOrTab c)).eq_of_length_le hle
    refine ⟨List.all_eq_true.mpr (List.filter_eq_self.mp hfilter), ?_⟩
    rwa [hfilter] at hdecode
  · rintro ⟨hkept, hdecode⟩
    rw [List.filter_eq_self.mpr (List.all_eq_true.mp hkept), hdecode, String.ofList_toList]

/-- The characters of a fragment. -/
theorem mem_encodeFragment (text : String) (c : Char) (h : c ∈ (encodeFragment text).toList) :
    Percent.fragmentSet c = false ∧ c.toNat < 0x80 := by
  rw [toList_encodeFragment] at h
  exact Percent.mem_encode _ Percent.spares_fragmentSet _ c h

/-- Tabs and line ends are below the characters that can be seen. -/
theorem toNat_of_isLineOrTab (c : Char) (h : isLineOrTab c = true) : c.toNat < 0x20 := by
  unfold isLineOrTab at h
  rw [Bool.or_eq_true, Bool.or_eq_true, beq_iff_eq, beq_iff_eq, beq_iff_eq] at h
  rcases h with (rfl | rfl) | rfl
  · decide
  · decide
  · decide

theorem not_isLineOrTab_of_fragmentSet (c : Char) (h : Percent.fragmentSet c = false) :
    isLineOrTab c = false := by
  rw [Bool.eq_false_iff]
  intro hline
  have hlow := toNat_of_isLineOrTab c hline
  exact absurd h (Bool.ne_false_iff.mpr (Percent.of_ascii
    (fun c => c.toNat < 0x20 → Percent.fragmentSet c = true) (by decide +kernel) c (by omega) hlow))

/-- What is encoded already is kept. -/
theorem encodeFragment_eq_self (text : String)
    (h : ∀ c ∈ text.toList, Percent.fragmentSet c = false ∧ c.toNat < 0x80) :
    encodeFragment text = text := by
  have hkept : ∀ c ∈ text.toList, (!isLineOrTab c) = true := by
    intro c hc
    rw [not_isLineOrTab_of_fragmentSet c (h c hc).1]
    rfl
  rw [encodeFragment, List.filter_eq_self.mpr hkept, Percent.encode_eq_self _ _ h,
    String.ofList_toList]

/-- A pointer into a document is no anchor, even after it came back changed. -/
theorem decodedFragment_cons (u : Uri) (text : String) (rest : List Char)
    (h : text.toList = '/' :: rest) :
    ∃ rest', (u.withFragment text).decodedFragment.toList = '/' :: rest' := by
  rw [decodedFragment_withFragment, String.toList_ofList, h]
  rw [List.filter_cons_of_pos (by decide), Percent.decode, Percent.octets_cons]
  · exact ⟨_, Utf8.decode_encodeChar_append '/' _⟩
  · unfold Percent.startsTriple
    split
    · rename_i heq
      rw [← (List.cons.inj heq).1]
      exact Bool.false_and _
    · rfl

/-- A document has no fragment to take away, nor blanks at the end of its path. -/
theorem document_document (u : Uri) : u.document.document = u.document := by
  rcases u with ⟨scheme, authority, path, query, fragment⟩
  cases query with
  | some query => rfl
  | none =>
      cases path with
      | segments list => rfl
      | rootless text =>
          simp only [document, Option.isSome_none, Bool.false_eq_true, if_false, stripPath,
            String.toList_ofList, List.reverse_reverse, List.dropWhile_idempotent]

/-- A node lies in its document. -/
theorem document_withFragment (u : Uri) (hu : u.document = u) (text : String) :
    (u.withFragment text).document = u := by
  rcases u with ⟨scheme, authority, path, query, fragment⟩
  exact hu

end Uri

end OpenApi
