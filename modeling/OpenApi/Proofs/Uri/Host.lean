import OpenApi.Proofs.Uri.Address
import OpenApi.Proofs.Uri.Fragment
import OpenApi.Uri.Reader

/-!
# Hosts Are in Their Final Form

Reading a host gives the text that the host is kept as, and reading that text
gives it again. Moreover the text fits into a URI: it has none of the characters
that end an authority or stand before a host, and a colon only inside brackets,
where it is no port.

## Main definitions

* `Host.isHostChar`: The characters of hosts.
* `Host.Fits`: The text of a host fits into a URI.

## Theorems

* `readBracketed?_readBracketed?`: A host in brackets comes back.
* `read?_read?`: A host of a special scheme comes back, and it fits.
* `readVerbatim?_readVerbatim?`: So does a host of any other scheme.
-/

namespace OpenApi

namespace Percent

theorem spares_control : Spares control := spares_of_ascii _ (by decide) (by decide)

end Percent

namespace Host

/-- Whether a host may have a character: it is visible and in ASCII, and neither
    ends an authority nor separates its parts. -/
def isHostChar (c : Char) : Bool :=
  0x20 < c.toNat && c.toNat < 0x7f && c != '/' && c != '\x5c' && c != '@' && c != '?'
    && c != '\x23' && c != '|'

/-- The host consists of such characters, and nothing of it is taken for a port. -/
structure Fits (cs : List Char) : Prop where
  /-- The characters. -/
  chars : ∀ c ∈ cs, isHostChar c = true
  /-- The host ends where a port begins. -/
  split : ∀ rest, (∀ c tail, rest = c :: tail → c = ':') → Uri.splitHost false (cs ++ rest) = (cs, rest)

theorem splitHost_port (rest : List Char) (h : ∀ c tail, rest = c :: tail → c = ':') :
    Uri.splitHost false rest = ([], rest) := by
  cases rest with
  | nil => rfl
  | cons c tail =>
      rw [h c tail rfl]
      rfl

/-- Without colons and brackets nothing is taken for a port. -/
theorem splitHost_append (cs rest : List Char)
    (hcs : ∀ c ∈ cs, c ≠ ':' ∧ c ≠ '[')
    (h : ∀ c tail, rest = c :: tail → c = ':') :
    Uri.splitHost false (cs ++ rest) = (cs, rest) := by
  induction cs with
  | nil => exact splitHost_port rest h
  | cons c cs ih =>
      have hc := hcs c List.mem_cons_self
      have hcolon : (c == ':') = false := beq_eq_false_iff_ne.mpr hc.1
      have hbracket : (c == '[') = false := beq_eq_false_iff_ne.mpr hc.2
      rw [List.cons_append, Uri.splitHost]
      simp only [hcolon, hbracket, Bool.false_and, Bool.false_eq_true, if_false, ite_self,
        ih fun d hd => hcs d (List.mem_cons_of_mem c hd)]

/-- Inside brackets colons belong to the host. -/
theorem splitHost_bracketed (cs rest : List Char) (hcs : ']' ∉ cs) :
    Uri.splitHost true (cs ++ ']' :: rest)
      = (cs ++ ']' :: (Uri.splitHost false rest).1, (Uri.splitHost false rest).2) := by
  induction cs with
  | nil => rfl
  | cons c cs ih =>
      have hc : (c == ']') = false := beq_eq_false_iff_ne.mpr fun heq => hcs (heq ▸ List.mem_cons_self)
      rw [List.cons_append, Uri.splitHost]
      simp only [hc, Bool.not_true, Bool.and_false, Bool.false_eq_true, if_false, ite_self,
        ih fun h => hcs (List.mem_cons_of_mem c h), List.cons_append]

section Bracketed

theorem mem_ipv6Text (ns : List Nat) (c : Char) (h : c ∈ (ipv6Text ns).toList) :
    c = ':' ∨ ∃ d < 16, c = Nat.digitChar d := by
  have hpieces : ∀ ms : List Nat, c ∈ (piecesText ms).toList → c = ':' ∨ ∃ d < 16, c = Nat.digitChar d := by
    intro ms hc
    rw [toList_piecesText] at hc
    rcases Text.mem_intercalate ':' _ c hc with hc | ⟨part, hpart, hc⟩
    · exact Or.inl hc
    · rcases List.mem_map.mp hpart with ⟨n, _, rfl⟩
      exact Or.inr (mem_toDigits 16 (by decide) (by decide) n c hc)
  unfold ipv6Text at h
  dsimp only at h
  split at h
  · exact hpieces ns h
  · have hcolons : "::".toList = [':', ':'] := rfl
    rw [String.toList_append, String.toList_append, hcolons] at h
    rcases List.mem_append.mp h with h | h
    · rcases List.mem_append.mp h with h | h
      · exact hpieces _ h
      · simp only [List.mem_cons, List.not_mem_nil, or_false, or_self] at h
        exact Or.inl h
    · exact hpieces _ h

theorem hostChar_of_mem_ipv6Text (ns : List Nat) (c : Char) (h : c ∈ (ipv6Text ns).toList) :
    isHostChar c = true ∧ c ≠ ']' := by
  have hdigit : ∀ d < 16, isHostChar (Nat.digitChar d) = true ∧ Nat.digitChar d ≠ ']' := by decide
  rcases mem_ipv6Text ns c h with rfl | ⟨d, hd, rfl⟩
  · decide
  · exact hdigit d hd

variable (cs : List Char) (host : String)

/-- A host in brackets comes back, and it fits. -/
theorem readBracketed?_readBracketed? (h : readBracketed? cs = some host) :
    readBracketed? host.toList = some host ∧ Fits host.toList
      ∧ ∃ rest, host.toList = '[' :: rest := by
  unfold readBracketed? at h
  split at h
  · split at h
    · rcases Option.map_eq_some_iff.mp h with ⟨ns, hns, rfl⟩
      rcases ipv6Pieces?_spec _ ns hns with ⟨hlength, hsmall⟩
      have hopen : "[".toList = ['['] := rfl
      have hclose : "]".toList = [']'] := rfl
      have hlist : ("[" ++ ipv6Text ns ++ "]").toList = '[' :: ((ipv6Text ns).toList ++ [']']) := by
        rw [String.toList_append, String.toList_append, hopen, hclose]
        rfl
      rw [hlist]
      -- The text of an address is an address, its characters may be in hosts, and a colon inside
      -- of the brackets does not start a port.
      refine ⟨?_, ⟨fun c hc => ?_, fun rest hrest => ?_⟩, _, rfl⟩
      · refine (if_pos List.getLast?_concat).trans ?_
        rw [List.dropLast_concat, ipv6Pieces?_ipv6Text ns hlength hsmall]
        rfl
      · rcases List.mem_cons.mp hc with rfl | hc
        · decide
        · rcases List.mem_append.mp hc with hc | hc
          · exact (hostChar_of_mem_ipv6Text ns c hc).1
          · rw [List.mem_singleton.mp hc]
            decide
      · have hinner := splitHost_bracketed (ipv6Text ns).toList rest
          (fun hmem => (hostChar_of_mem_ipv6Text ns ']' hmem).2 rfl)
        rw [splitHost_port rest hrest] at hinner
        rw [List.cons_append, List.append_assoc, List.singleton_append, Uri.splitHost]
        simp only [hinner, Bool.not_false, Bool.and_true, if_true, beq_self_eq_true,
          show ('[' == ':') = false from rfl, Bool.false_eq_true, if_false]
    · exact absurd h.symm (Option.some_ne_none host)
  · exact absurd h.symm (Option.some_ne_none host)

end Bracketed

/-- Domain names consist of characters that hosts may have. -/
theorem hostChar_of_domain (c : Char) (hplain : IsPlain c) (h : isForbiddenInDomain c = false) :
    isHostChar c = true ∧ c ≠ ':' ∧ c ≠ '[' ∧ c ≠ '%' :=
  Percent.of_ascii (fun c => isForbiddenInDomain c = false →
    isHostChar c = true ∧ c ≠ ':' ∧ c ≠ '[' ∧ c ≠ '%') (by decide +kernel) c hplain.1 h

/-- A domain name that is no address comes back as a host, and an address does. -/
theorem read?_of_domain (name : List Char) (hdomain : domain? name = some name) (hne : name ≠ [])
    (hchars : ∀ c ∈ name, IsPlain c ∧ isForbiddenInDomain c = false) :
    Fits name ∧ read? name
      = if endsInNumber name then (ipv4Value? name).map ipv4Text else some (String.ofList name) := by
  have hhost : ∀ c ∈ name, isHostChar c = true ∧ c ≠ ':' ∧ c ≠ '[' ∧ c ≠ '%' :=
    fun c hc => hostChar_of_domain c (hchars c hc).1 (hchars c hc).2
  refine ⟨⟨fun c hc => (hhost c hc).1, fun rest hrest =>
    splitHost_append name rest (fun c hc => ⟨(hhost c hc).2.1, (hhost c hc).2.2.1⟩) hrest⟩, ?_⟩
  have hdecode : Percent.decode name = name := (Percent.decode_eq_iff name).mpr
    (Percent.hasTriple_of_not_mem name fun h => (hhost '%' h).2.2.2 rfl)
  unfold read?
  split
  · exact absurd rfl (hhost '[' List.mem_cons_self).2.2.1
  · rw [hdecode, hdomain]
    rfl

/-- The host of a special scheme comes back, and it fits. -/
theorem read?_read? (cs : List Char) (host : String) (h : read? cs = some host) :
    read? host.toList = some host ∧ Fits host.toList ∧ host ≠ "" := by
  unfold read? at h
  split at h
  · rcases readBracketed?_readBracketed? _ host h with ⟨hread, hfits, rest, hhost⟩
    refine ⟨?_, hfits, fun hempty => ?_⟩
    · rw [hhost] at hread ⊢
      exact hread
    · rw [hempty] at hhost
      exact List.cons_ne_nil _ _ hhost.symm
  · rcases Option.bind_eq_some_iff.mp h with ⟨name, hname, hhost⟩
    rcases domain?_domain? _ name hname with ⟨hfixed, hne, hchars⟩
    split at hhost
    · rename_i hnumber
      rcases Option.map_eq_some_iff.mp hhost with ⟨value, hvalue, rfl⟩
      -- The address is a domain name as well, and it is read as the same address.
      have haddress := domain?_ipv4Text value
      rcases domain?_domain? _ _ haddress with ⟨_, hne', hchars'⟩
      rcases read?_of_domain _ haddress hne' hchars' with ⟨hfits, hread⟩
      rw [hread, endsInNumber_ipv4Text, if_pos rfl,
        ipv4Value?_ipv4Text value (ipv4Value?_lt name value hvalue)]
      exact ⟨rfl, hfits, fun hempty => hne' (by rw [hempty]; rfl)⟩
    · rename_i hnumber
      rcases read?_of_domain name hfixed hne hchars with ⟨hfits, hread⟩
      rw [← Option.some.inj hhost, String.toList_ofList, hread, if_neg hnumber]
      exact ⟨rfl, hfits, fun hempty => hne (String.ofList_eq_empty_iff.mp hempty)⟩

/-- The host of any other scheme comes back, and it fits. -/
theorem readVerbatim?_readVerbatim? (cs : List Char) (host : String)
    (h : readVerbatim? cs = some host) :
    readVerbatim? host.toList = some host ∧ Fits host.toList := by
  unfold readVerbatim? at h
  split at h
  · rcases readBracketed?_readBracketed? _ host h with ⟨hread, hfits, rest, hhost⟩
    rw [hhost] at hread hfits ⊢
    exact ⟨hread, hfits⟩
  · split at h
    · exact absurd h.symm (Option.some_ne_none host)
    · rename_i hallowed
      rw [Bool.not_eq_true, List.any_eq_false] at hallowed
      have hchars : ∀ c ∈ Percent.encode Percent.control cs, isForbidden c = false
          ∧ isHostChar c = true ∧ c ≠ ':' ∧ c ≠ '[' := by
        -- Encoded text is ASCII, so it is enough to look at those characters.
        have hascii : ∀ n < 0x80, isForbidden (Char.ofNat n) = false →
            Percent.control (Char.ofNat n) = false → isHostChar (Char.ofNat n) = true
              ∧ Char.ofNat n ≠ ':' ∧ Char.ofNat n ≠ '[' := by decide +kernel
        have hhex : ∀ n < 16, isForbidden (Percent.upperHex n) = false := by decide
        intro c hc
        have hplain := Percent.mem_encode _ Percent.spares_control cs c hc
        have hforbidden : isForbidden c = false := by
          rcases Percent.mem_encode_cases _ cs c hc with ⟨hc, _⟩ | rfl | ⟨n, hn, rfl⟩
          · exact Bool.eq_false_iff.mpr (hallowed c hc)
          · decide
          · exact hhex n hn
        exact ⟨hforbidden, Percent.of_ascii (fun c => isForbidden c = false →
          Percent.control c = false → isHostChar c = true ∧ c ≠ ':' ∧ c ≠ '[') hascii c hplain.2
            hforbidden hplain.1⟩
      rw [← Option.some.inj h, String.toList_ofList]
      refine ⟨?_, fun c hc => (hchars c hc).2.1, fun rest hrest =>
        splitHost_append _ rest (fun c hc => (hchars c hc).2.2) hrest⟩
      unfold readVerbatim?
      split
      · rename_i rest heq
        exact absurd rfl (hchars '[' (by rw [heq]; exact List.mem_cons_self)).2.2.2
      · rw [if_neg, Percent.encode_encode _ Percent.spares_control]
        rw [Bool.not_eq_true, List.any_eq_false]
        intro c hc
        rw [(hchars c hc).1]
        exact Bool.false_ne_true

theorem eq_nil_of_readVerbatim? (cs : List Char) (h : readVerbatim? cs = some "") : cs = [] := by
  unfold readVerbatim? at h
  split at h
  · rcases readBracketed?_readBracketed? _ "" h with ⟨_, _, rest, hhost⟩
    exact absurd hhost.symm (List.cons_ne_nil _ _)
  · split at h
    · exact absurd h.symm (Option.some_ne_none "")
    · by_contra hne
      exact Percent.encode_ne_nil _ cs hne (String.ofList_eq_empty_iff.mp (Option.some.inj h))

end Host

end OpenApi
