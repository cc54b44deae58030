import OpenApi.Proofs.Evaluation.Termination
import OpenApi.Proofs.Registry.Resource

/-!
# Plain Names in Discriminators

A discriminator may select a schema by a plain name. The name is a shorthand for
a pointer to a component, and the pointer is a fragment, so it is resolved like
any reference: against the base of the schema with the discriminator. In a
document without identifiers this is the address of the document, and the name
stands for the component of the document that the schema is written in.

An `$id` on the way to the schema gives another base. Then the name leads into
the document that is registered under the base, or below the object that the base
is the identifier of. The component of the own document is found there only if
that object is the whole document.

## Main definitions

* `componentPointer`: The pointer that a plain name is a shorthand for.
* `Node.Calls`: A discriminator selects by a plain name.

## Theorems

* `isFaithful_componentPointer`: The pointer comes back from a fragment.
* `selected_of_calls`: The address that a plain name stands for.
* `selected_component`: When it is that of the component of the own document.
-/

namespace OpenApi

/-- The pointer to the component with a name. -/
def componentPointer (name : String) : String := "/components/schemas/" ++ name

/-- The discriminator of the schema reads the name from the instance. It is a
    plain name, and the mapping does not have it. -/
structure Node.Calls (n : Node) (x : Json) (name : String) : Prop where
  /-- The name is the text of the property that the discriminator names. -/
  property : ∃ property,
    ((n.get? "discriminator").bind fun d => d.get? "propertyName") = some (.string property)
      ∧ x.get? property = some (.string name)
  /-- The name is plain. -/
  plain : isPlainName name = true
  /-- The mapping gives nothing else for it. -/
  unmapped : ((n.get? "discriminator").bind fun d =>
    (d.get? "mapping").bind fun mapping => mapping.get? name) = none

theorem hyphen_le_of_plain (c : Char) (h : c.isAlphanum = true ∨ c = '_' ∨ c = '-' ∨ c = '.') :
    0x2D ≤ c.toNat := by
  rcases h with h | rfl | rfl | rfl
  · unfold Char.isAlphanum Char.isAlpha Char.isUpper Char.isLower at h
    rw [Bool.or_eq_true, Bool.or_eq_true, decide_eq_true_eq, Bool.and_eq_true, decide_eq_true_eq,
      decide_eq_true_eq, Char.isDigit, Bool.and_eq_true, decide_eq_true_eq, decide_eq_true_eq] at h
    change ((65 ≤ c.toNat ∧ c.toNat ≤ 90) ∨ 97 ≤ c.toNat ∧ c.toNat ≤ 122)
      ∨ 48 ≤ c.toNat ∧ c.toNat ≤ 57 at h
    omega
  · decide
  · decide
  · decide

section Characters

variable (name : String) (hname : isPlainName name = true)

include hname

/-- All characters come after the percent sign, the blanks and the controls. -/
theorem hyphen_le_of_mem_componentPointer (c : Char)
    (hc : c ∈ (componentPointer name).toList) : 0x2D ≤ c.toNat := by
  have hprefix : "/components/schemas/".toList.all (fun c => decide (0x2D ≤ c.toNat)) = true := by
    decide +kernel
  unfold componentPointer at hc
  rw [String.toList_append] at hc
  rcases List.mem_append.mp hc with hc | hc
  · exact decide_eq_true_eq.mp (List.all_eq_true.mp hprefix c hc)
  · -- A plain name has letters, digits, points, hyphens and low lines.
    refine hyphen_le_of_plain c ?_
    unfold isPlainName at hname
    split at hname
    · rename_i hempty
      rw [hempty] at hc
      exact absurd hc List.not_mem_nil
    · rename_i first rest hlist
      rw [hlist] at hc
      rw [Bool.and_eq_true, Bool.or_eq_true, beq_iff_eq, List.all_eq_true] at hname
      obtain ⟨hfirst, hrest⟩ := hname
      rcases List.mem_cons.mp hc with rfl | hc
      · unfold Char.isAlphanum
        rw [Bool.or_eq_true]
        exact hfirst.imp Or.inl Or.inl
      · have h := hrest c hc
        rw [Bool.or_eq_true, Bool.or_eq_true, Bool.or_eq_true, beq_iff_eq, beq_iff_eq, beq_iff_eq,
          or_assoc, or_assoc] at h
        exact h

theorem isFaithful_componentPointer : Uri.isFaithful (componentPointer name) = true := by
  have hchars := hyphen_le_of_mem_componentPointer name hname
  unfold Uri.isFaithful
  rw [Bool.and_eq_true, List.all_eq_true, Bool.not_eq_true']
  refine ⟨fun c hc => ?_, Percent.hasTriple_of_not_mem _ fun hpercent => ?_⟩
  · rw [Uri.not_isLineOrTab_of_visible c (Nat.lt_of_lt_of_le (by decide) (hchars c hc))]
    rfl
  · exact absurd (hchars '%' hpercent) (by decide)

end Characters

theorem exists_componentPointer (name : String) :
    ∃ rest, (componentPointer name).toList = '/' :: rest := by
  unfold componentPointer
  rw [String.toList_append]
  exact ⟨_, rfl⟩

/-- A plain name stands for a fragment of the base. -/
theorem Node.selected_of_calls (n : Node) (x : Json) (name path : String) (h : n.Calls x name) :
    n.selected path x = .ok (n.base.withFragment (componentPointer name)) := by
  obtain ⟨property, hproperty, htext⟩ := h.property
  have hmapped : n.mapped name = .ok name := by
    have hnone := h.unmapped
    unfold Node.mapped
    dsimp only [bind]
    rw [hnone]
  have hreference : referenceOf name = "\x23" ++ componentPointer name := by
    have hprefix : "\x23/components/schemas/" = "\x23" ++ "/components/schemas/" := by decide
    unfold referenceOf componentPointer
    rw [if_pos h.plain, hprefix, String.append_assoc]
  refine (n.selected_eq_ok_iff path x _).mpr ⟨property, name, name, hproperty, htext, hmapped, ?_⟩
  rw [hreference]
  exact Uri.resolve?_fragment n.base _ fun c hc =>
    Nat.lt_of_lt_of_le (by decide) (hyphen_le_of_mem_componentPointer name h.plain c hc)

namespace Registry

variable (r : Registry)

/-- In a document without identifiers on the way to a node, the base of the node is
    the address of the document. -/
theorem base_of_not_identified (n : Node) (hn : r.Has n) (root : Json)
    (hroot : r.document? n.document = some root)
    (h : ∀ outer, outer <+: Pointer.segments n.pointer →
      root.identified? n.document outer = none) : n.base = n.document := by
  obtain ⟨around, hseek, hbase⟩ := r.exists_seek?_of_has n root hn hroot
  rcases root.nearest_cases n.document _ n.value around hseek with
    ⟨nearest, uri, hnearest, _⟩ | ⟨_, hdocument⟩
  · have hid := hnearest.identified
    rw [h nearest hnearest.above] at hid
    exact absurd hid.symm (Option.some_ne_none uri)
  · exact hbase.trans hdocument

/-- The fragment of a plain name leads from a base to a component of a document
    exactly if the base lies in the document or is recorded for all of it. -/
theorem node?_component_iff (base document : Uri) (name : String) (hname : isPlainName name = true)
    (component : Node)
    (hcomponent : r.nodeAt? ⟨document, componentPointer name⟩ = some component) :
    r.node? (base.withFragment (componentPointer name)) = some component
      ↔ base.document = document
        ∨ (r.document? base.document = none
          ∧ r.identifiers.lookup base.document = some ⟨document, ""⟩) := by
  -- Only one place leads to the component.
  have hplace : ∀ place, r.nodeAt? place = some component ↔
      place = ⟨document, componentPointer name⟩ := by
    intro place
    constructor
    · intro h
      exact (r.place_of_found place component h).1.symm.trans
        (r.place_of_found _ component hcomponent).1
    · rintro rfl
      exact hcomponent
  rw [r.node?_withFragment base _ (isFaithful_componentPointer name hname)
    (Or.inr (exists_componentPointer name))]
  rcases hdocument : r.document? base.document with _ | root
  · have hne : base.document ≠ document := by
      rintro rfl
      rcases Option.bind_eq_some_iff.mp hcomponent with ⟨root, hroot, _⟩
      rw [hdocument] at hroot
      exact Option.some_ne_none root hroot.symm
    dsimp only
    constructor
    · -- What is recorded for the base is as deep as the component, so it is a whole document.
      intro h
      rcases Option.bind_eq_some_iff.mp h with ⟨place, hlookup, hfound⟩
      have heq := (hplace _).mp hfound
      rw [Location.mk.injEq] at heq
      have hempty : place.pointer = "" := by
        have hlist := congrArg String.toList heq.2
        rw [String.toList_append] at hlist
        exact String.toList_eq_nil_iff.mp (List.append_left_eq_self.mp hlist)
      refine Or.inr ⟨rfl, hlookup.trans (congrArg some ?_)⟩
      rw [← heq.1, ← hempty]
    · rintro (h | ⟨_, hlookup⟩)
      · exact absurd h hne
      · rw [hlookup, Option.bind_some, String.empty_append]
        exact hcomponent
  · dsimp only
    rw [hplace]
    constructor
    · intro h
      exact Or.inl (congrArg Location.document h)
    · rintro (h | ⟨h, _⟩)
      · rw [h]
      · exact absurd h (by simp only [reduceCtorEq, not_false_eq_true])

/-- A discriminator that calls for a component by its plain name selects the pointer
    to the component as a fragment of the base. This leads to the component of the
    document with the schema exactly if the base lies in this document, or no
    document is registered under it and it is recorded as the identifier of the
    whole document. Without an identifier on the way to the schema it always does. -/
theorem selected_component (hr : r.Built) (n : Node) (hn : r.Has n) (x : Json)
    (name path : String) (h : n.Calls x name) :
    n.selected path x = .ok (n.base.withFragment (componentPointer name))
      ∧ ∀ component, r.nodeAt? ⟨n.document, componentPointer name⟩ = some component →
        (r.node? (n.base.withFragment (componentPointer name)) = some component
            ↔ n.base.document = n.document
              ∨ (r.document? n.base.document = none
                ∧ r.identifiers.lookup n.base.document = some ⟨n.document, ""⟩))
          ∧ ∀ root, r.document? n.document = some root →
            (∀ outer, outer <+: Pointer.segments n.pointer →
              root.identified? n.document outer = none) →
            r.node? (n.base.withFragment (componentPointer name)) = some component := by
  refine ⟨n.selected_of_calls x name path h, fun component hcomponent => ?_⟩
  have hiff := r.node?_component_iff n.base n.document name h.plain component hcomponent
  refine ⟨hiff, fun root hroot hnone => hiff.mpr (Or.inl ?_)⟩
  obtain ⟨_, uri, _, _, hdocument, _⟩ := r.address_of_has hr n hn
  rw [r.base_of_not_identified n hn root hroot hnone, hdocument]
  exact Uri.document_document uri

/-- The address of a document of two schemas. -/
def zooAddress : Uri := ⟨"http", some (.ofHost "zoo"), .segments ["a"], none, none⟩

/-- A schema with a discriminator, and with some other members. -/
def zooPet (members : List (String × Json)) : Json :=
  .object (members ++ [("discriminator", .object [("propertyName", .string "kind")])])

/-- A document of a dog and a pet, with some other members each. -/
def zooDocument (outer inner : List (String × Json)) : Json :=
  .object (outer ++ [("components", .object [("schemas",
    .object [("Dog", .object [("type", .string "object")]), ("Pet", zooPet inner)])])])

/-- The registry of the document. -/
def zoo (outer inner : List (String × Json)) : Registry :=
  empty.after (.json "http://zoo/a" (zooDocument outer inner))

/-- The schema of a dog at its place, where the base is `base`. -/
def zooDog (base : Uri) : Node :=
  ⟨.object [("type", .string "object")], zooAddress, "/components/schemas/Dog", base, none⟩

/-- The schema of a pet at its place. -/
def zooPetNode (inner : List (String × Json)) (base : Uri) : Node :=
  ⟨zooPet inner, zooAddress, "/components/schemas/Pet", base, none⟩

/-- A pet that is a dog. -/
def zooInstance : Json := .object [("kind", .string "Dog")]

/-- The base that an `$id` gives. -/
def zooBase (segment : String) : Uri :=
  ⟨"http", some (.ofHost "zoo"), .segments [segment], none, none⟩

/-- The `$id` of the whole document. -/
def rootId : List (String × Json) := [("$id", .string "http://zoo/root")]

/-- The `$id` of the schema of a pet. -/
def petId : List (String × Json) := [("$id", .string "http://zoo/pet")]

/-- With an `$id` for the whole document, the name leads to the dog. -/
theorem selected_component_zoo :
    (zoo rootId []).Built ∧ (zoo rootId []).Has (zooPetNode [] (zooBase "root"))
      ∧ (zooPetNode [] (zooBase "root")).Calls zooInstance "Dog"
      ∧ ∃ uri, (zooPetNode [] (zooBase "root")).selected "" zooInstance = .ok uri
        ∧ (zoo rootId []).node? uri = some (zooDog (zooBase "root")) := by
  have hr : (zoo rootId []).Built := empty.built_after .empty _
  have hn : (zoo rootId []).Has (zooPetNode [] (zooBase "root")) := by
    unfold Has
    decide +kernel
  have hcalls : (zooPetNode [] (zooBase "root")).Calls zooInstance "Dog" :=
    ⟨⟨"kind", by decide +kernel, by decide +kernel⟩, by decide +kernel, by decide +kernel⟩
  have hdog : (zoo rootId []).nodeAt? ⟨zooAddress, componentPointer "Dog"⟩
      = some (zooDog (zooBase "root")) := by
    decide +kernel
  obtain ⟨hselected, hleads⟩ := selected_component _ hr _ hn zooInstance "Dog" "" hcalls
  refine ⟨hr, hn, hcalls, _, hselected, (hleads _ hdog).1.mpr (Or.inr ⟨?_, ?_⟩)⟩
  · decide +kernel
  · decide +kernel

/-- With an `$id` for the schema of a pet alone, the name leads nowhere, although
    there is a dog. -/
theorem selected_component_lost :
    (zoo [] petId).Built ∧ (zoo [] petId).Has (zooPetNode petId (zooBase "pet"))
      ∧ (zooPetNode petId (zooBase "pet")).Calls zooInstance "Dog"
      ∧ (zoo [] petId).nodeAt? ⟨zooAddress, componentPointer "Dog"⟩ = some (zooDog zooAddress)
      ∧ ∃ uri, (zooPetNode petId (zooBase "pet")).selected "" zooInstance = .ok uri
        ∧ (zoo [] petId).node? uri = none := by
  have hcalls : (zooPetNode petId (zooBase "pet")).Calls zooInstance "Dog" :=
    ⟨⟨"kind", by decide +kernel, by decide +kernel⟩, by decide +kernel, by decide +kernel⟩
  refine ⟨empty.built_after .empty _, ?_, hcalls, by decide +kernel, _,
    Node.selected_of_calls _ zooInstance "Dog" "" hcalls, by decide +kernel⟩
  unfold Has
  decide +kernel

end Registry

end OpenApi
