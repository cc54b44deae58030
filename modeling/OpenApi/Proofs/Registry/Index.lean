import OpenApi.Proofs.Registry.Declaration
import OpenApi.Proofs.Registry.Registration
import OpenApi.Proofs.Yaml.Value

/-!
# The Index of a Registry

A registry keeps an index of the identifiers and the anchors in its documents,
and a lookup goes from an entry of the index to a document and then to a place in
it. Nothing but the order of the two steps of a registration keeps them together:
the declarations are collected from a value, and then the value becomes a
document. So whatever was registered, and whether it succeeded or not, every
entry of the index leads to an object of a registered document, and this object
has the text that the entry was made for.

The values to register are well-formed. Texts need no such assumption, since what
is read from one is.

## Main definitions

* `Registration.WellFormed`: What is registered repeats no key.
* `Registry.Marks`: At a place there is an object with a text under a key.
* `Registry.Indexed`: Every entry of the index leads to such an object.

## Theorems

* `indexed_after`, `indexed_afterAll`: Registrations keep the index in order.
* `node?_identifier`, `node?_anchor`: Entries are found.
* `index_leads`: No entry of the index leads nowhere.
-/

namespace OpenApi

/-- The value that is registered repeats no key. -/
def Registration.WellFormed : Registration → Prop
  | .json _ root => root.WellFormed
  | .yaml _ _ => True

theorem Registration.wellFormed_of_value? (q : Registration) (hq : q.WellFormed) (root : Json)
    (h : q.value? = some root) : root.WellFormed := by
  cases q with
  | json address value => exact Option.some.inj h ▸ hq
  | yaml address text => exact Yaml.wellFormed_of_read? text root h

namespace Registry

/-- The registered document of the place has an object there, with a text under
    the key. -/
def Marks (r : Registry) (key : String) (place : Location) : Prop :=
  ∃ root members text, r.document? place.document = some root
    ∧ Pointer.get? root place.pointer = some (.object members)
    ∧ Ordered.get? members key = some (.string text)

/-- The entries of the index lead to the objects they were made for. -/
structure Indexed (r : Registry) : Prop where
  /-- Identifiers have no fragments and lead to objects with an `$id`. -/
  identifiers : ∀ entry ∈ r.identifiers, entry.1.document = entry.1 ∧ r.Marks "$id" entry.2
  /-- Anchors lead to objects with an `$anchor`. -/
  anchors : ∀ entry ∈ r.anchors, r.Marks "$anchor" entry.2

variable (r : Registry)

theorem Extends.marks {r r' : Registry} (h : r.Extends r') (key : String) (place : Location)
    (hplace : r.Marks key place) : r'.Marks key place := by
  rcases hplace with ⟨root, members, text, hroot, hvalue, htext⟩
  exact ⟨root, members, text, h.documents _ root hroot, hvalue, htext⟩

section Step

theorem built_after (hr : r.Built) (q : Registration) : (r.after q).Built := by
  rcases h : r.attempt q with e | ⟨d, r'⟩
  · rw [r.after_of_error q e h]
    exact hr
  · obtain ⟨address, root, _, hregister⟩ := r.exists_register_of_attempt r' q d h
    rw [r.after_of_ok r' q d h]
    exact .register r r' address root d hr hregister

/-- What a successful registration adds is the value and its declarations. -/
theorem lists_of_register (r' : Registry) (address : String) (root : Json) (d : Uri)
    (h : r.register address root = .ok (d, r')) :
    r' = { documents := r.documents ++ [(d, root)]
           identifiers := r.identifiers
             ++ (Declaration.collect root d d "").filterMap Declaration.identifier?
           anchors := r.anchors ++ (Declaration.collect root d d "").filterMap Declaration.anchor? }
      ∧ d.IsSegmented ∧ d.document = d := by
  obtain ⟨⟨uri, hread, hd⟩, hfree, _⟩ := r.registered_of_register r' address root d h
  refine ⟨?_, ?_, ?_⟩
  · unfold register at h
    rw [hread] at h
    dsimp only at h
    rw [← hd, hfree] at h
    dsimp only at h
    rw [Except.ok.injEq, Prod.mk.injEq] at h
    exact h.2.symm
  · rw [hd]
    exact Uri.isSegmented_of_isRegular _
      (Uri.isRegular_document uri (isRegular_readLenient? address uri hread))
  · rw [hd]
    exact Uri.document_document uri

theorem document?_of_register (r' : Registry) (address : String) (root : Json) (d : Uri)
    (h : r.register address root = .ok (d, r')) : r'.document? d = some root := by
  obtain ⟨_, hfree, _⟩ := r.registered_of_register r' address root d h
  obtain ⟨rfl, _⟩ := r.lists_of_register r' address root d h
  have hold : r.documents.lookup d = none := hfree
  unfold document?
  rw [List.lookup_append, hold, Option.none_or]
  exact List.lookup_cons_self

/-- An object with a text, at the end of a path. -/
theorem marks_of_seek? (document : Uri) (root x : Json) (around : Uri) (path : List String)
    (key text : String) (hroot : r.document? document = some root)
    (hseek : root.seek? document path = some (x, around)) (htext : x.textAt? key = some text) :
    r.Marks key ⟨document, Pointer.ofSegments path⟩ := by
  have hvalue := Json.get?_of_seek? path root x document around hseek
  have hmember := (x.textAt?_eq_some_iff key text).mp htext
  cases x with
  | object members => exact ⟨root, members, text, hroot, hvalue, hmember⟩
  | _ => exact absurd hmember.symm (Option.some_ne_none _)

-- What was in the index still leads to its objects, since documents stay. What is
-- new leads into the new document, along the path it was collected on.
theorem indexed_after (q : Registration) (hq : q.WellFormed) (hr : r.Indexed) :
    (r.after q).Indexed := by
  rcases h : r.attempt q with e | ⟨d, r'⟩
  · rw [r.after_of_error q e h]
    exact hr
  · have hextends := extends_after r q
    rw [r.after_of_ok r' q d h] at hextends ⊢
    obtain ⟨address, root, hroot, hregister⟩ := r.exists_register_of_attempt r' q d h
    replace hroot := q.wellFormed_of_value? hq root hroot
    have hdocument := r.document?_of_register r' address root d hregister
    obtain ⟨hlists, hsegmented, hself⟩ := r.lists_of_register r' address root d hregister
    refine ⟨fun entry hentry => ?_, fun entry hentry => ?_⟩
    · rw [hlists] at hentry
      rcases List.mem_append.mp hentry with hold | hnew
      · obtain ⟨haddress, hmarks⟩ := hr.identifiers entry hold
        exact ⟨haddress, hextends.marks "$id" entry.2 hmarks⟩
      · rcases (Declaration.mem_identifiers_iff d root hroot hsegmented hself _ _).mp hnew with
          ⟨path, full, hfull, _, haddress, hplace⟩
        rcases Option.bind_eq_some_iff.mp hfull with ⟨⟨x, around⟩, hseek, hfull⟩
        rcases Option.bind_eq_some_iff.mp hfull with ⟨id, hid, _⟩
        rw [haddress, hplace]
        exact ⟨Uri.document_document full,
          r'.marks_of_seek? d root x around path "$id" id hdocument hseek hid⟩
    · rw [hlists] at hentry
      rcases List.mem_append.mp hentry with hold | hnew
      · exact hextends.marks "$anchor" entry.2 (hr.anchors entry hold)
      · rcases (Declaration.mem_anchors_iff d root hroot hsegmented hself _ _).mp hnew with
          ⟨path, huri, _, hplace⟩
        rcases Option.bind_eq_some_iff.mp huri with ⟨⟨x, around⟩, hseek, huri⟩
        rcases Option.map_eq_some_iff.mp huri with ⟨name, hname, _⟩
        rw [hplace]
        exact r'.marks_of_seek? d root x around path "$anchor" name hdocument hseek hname

theorem indexed_empty : empty.Indexed where
  identifiers _ h := absurd h List.not_mem_nil
  anchors _ h := absurd h List.not_mem_nil

theorem indexed_afterAll (qs : List Registration) :
    ∀ r : Registry, r.Indexed → (∀ q ∈ qs, q.WellFormed) → (r.afterAll qs).Indexed := by
  induction qs with
  | nil => exact fun r hr _ => hr
  | cons q rest ih =>
      intro r hr hqs
      rcases List.forall_mem_cons.mp hqs with ⟨hq, hrest⟩
      exact ih (r.after q) (r.indexed_after q hq hr) hrest

end Step

section Lookup

theorem nodeAt?_of_marks (key : String) (place : Location) (h : r.Marks key place) :
    (r.nodeAt? place).isSome = true := by
  rcases h with ⟨root, members, _, hroot, hvalue, _⟩
  unfold nodeAt?
  rw [hroot, Option.bind_eq_bind, Option.bind_some, hvalue]
  rfl

theorem exists_lookup_of_mem {α β : Type} [BEq α] [LawfulBEq α] (entries : List (α × β))
    (entry : α × β) (h : entry ∈ entries) :
    ∃ value, entries.lookup entry.1 = some value ∧ (entry.1, value) ∈ entries := by
  rcases hvalue : entries.lookup entry.1 with _ | value
  · have hne := List.lookup_eq_none_iff.mp hvalue entry h
    rw [bne_self_eq_false] at hne
    exact absurd hne Bool.false_ne_true
  · rcases List.lookup_eq_some_iff.mp hvalue with ⟨before, after, hsplit, _⟩
    refine ⟨value, rfl, ?_⟩
    rw [hsplit]
    exact List.mem_append_right before List.mem_cons_self

variable (hr : r.Indexed)

include hr

/-- The address of an identifier has no fragment, so it is found as a document or
    else in the index. -/
theorem node?_identifier (entry : Uri × Location) (hentry : entry ∈ r.identifiers) :
    (r.node? entry.1).isSome = true := by
  have haddress := (hr.identifiers entry hentry).1
  have hfragment : entry.1.decodedFragment = "" := by
    rw [← haddress]
    rfl
  have hanchor : ¬ entry.1.namesAnchor = true := by
    unfold Uri.namesAnchor
    rw [hfragment]
    exact Bool.false_ne_true
  unfold node?
  rw [locate?_eq, if_neg hanchor, haddress, hfragment]
  rcases hdocument : r.document? entry.1 with _ | root
  · -- Another entry of the same address may come first, but it leads somewhere, too.
    obtain ⟨place, hplace, hmem⟩ := exists_lookup_of_mem r.identifiers entry hentry
    rw [hplace]
    dsimp only
    rw [Option.map_some, Option.bind_some, String.append_empty]
    exact r.nodeAt?_of_marks "$id" place (hr.identifiers (entry.1, place) hmem).2
  · dsimp only
    rw [Option.bind_some]
    unfold nodeAt?
    dsimp only
    rw [hdocument]
    rfl

theorem node?_anchor (entry : Uri × Location) (hentry : entry ∈ r.anchors)
    (hanchor : entry.1.namesAnchor = true) : (r.node? entry.1).isSome = true := by
  obtain ⟨place, hplace, hmem⟩ := exists_lookup_of_mem r.anchors entry hentry
  unfold node?
  rw [locate?_eq, if_pos hanchor, hplace, Option.bind_some]
  exact r.nodeAt?_of_marks "$anchor" place (hr.anchors (entry.1, place) hmem)

end Lookup

/-- After any registrations, every entry of the index leads to an object with the
    text it was made for, and the address of the entry leads to a node. An anchor
    that is empty or looks like a pointer has no such address. -/
theorem index_leads (qs : List Registration) (hqs : ∀ q ∈ qs, q.WellFormed)
    (hr : r = empty.afterAll qs) :
    (∀ entry ∈ r.identifiers,
        r.Marks "$id" entry.2 ∧ (r.node? entry.1).isSome = true)
      ∧ ∀ entry ∈ r.anchors,
        r.Marks "$anchor" entry.2
          ∧ (entry.1.namesAnchor = true → (r.node? entry.1).isSome = true) := by
  have hindexed : r.Indexed := by
    rw [hr]
    exact indexed_afterAll qs empty indexed_empty hqs
  refine ⟨fun entry hentry => ⟨(hindexed.identifiers entry hentry).2, ?_⟩,
    fun entry hentry => ⟨hindexed.anchors entry hentry, ?_⟩⟩
  · exact r.node?_identifier hindexed entry hentry
  · exact r.node?_anchor hindexed entry hentry

/-- Three registrations: of a document, of another one under its address, and of
    a text. -/
def threeRegistrations : List Registration :=
  [.json "http://bundle/a" bundleDocument, repetition,
    .yaml "http://bundle/c" "$anchor: top\ntype: string\n"]

/-- The address of the anchor in the text. -/
def topAddress : Uri := ⟨"http", some (.ofHost "bundle"), .segments ["c"], none, some "top"⟩

/-- The second registration fails, and the other two fill the index. -/
theorem index_leads_three :
    (∀ q ∈ threeRegistrations, q.WellFormed)
      ∧ ((empty.after (.json "http://bundle/a" bundleDocument)).attempt repetition).isOk = false
      ∧ (∃ place, (nestedAddress, place) ∈ (empty.afterAll threeRegistrations).identifiers
          ∧ (empty.afterAll threeRegistrations).Marks "$id" place)
      ∧ ((empty.afterAll threeRegistrations).node? nestedAddress).isSome = true
      ∧ (∃ place, (topAddress, place) ∈ (empty.afterAll threeRegistrations).anchors
          ∧ (empty.afterAll threeRegistrations).Marks "$anchor" place)
      ∧ ((empty.afterAll threeRegistrations).node? topAddress).isSome = true := by
  have hqs : ∀ q ∈ threeRegistrations, q.WellFormed := by
    intro q hq
    simp only [threeRegistrations, repetition, List.mem_cons, List.not_mem_nil, or_false] at hq
    rcases hq with rfl | rfl | rfl
    · exact (by decide +kernel : bundleDocument.WellFormed)
    · exact (by decide +kernel : Json.WellFormed .null)
    · trivial
  have hnested : (nestedAddress, ⟨bundleAddress, "/base"⟩)
      ∈ (empty.afterAll threeRegistrations).identifiers := by
    decide +kernel
  have htop : (topAddress, ⟨topAddress.document, ""⟩)
      ∈ (empty.afterAll threeRegistrations).anchors := by
    decide +kernel
  obtain ⟨hidentifiers, hanchors⟩ := index_leads _ threeRegistrations hqs rfl
  obtain ⟨hnestedMarks, hnestedNode⟩ := hidentifiers _ hnested
  obtain ⟨htopMarks, htopNode⟩ := hanchors _ htop
  exact ⟨hqs, by decide +kernel, ⟨_, hnested, hnestedMarks⟩, hnestedNode, ⟨_, htop, htopMarks⟩,
    htopNode (by decide +kernel)⟩

end Registry

end OpenApi
