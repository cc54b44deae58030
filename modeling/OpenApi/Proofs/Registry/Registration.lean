import OpenApi.Proofs.Json.Identical
import OpenApi.Proofs.Registry.Node

/-!
# Registrations

What one more registration, or a run of them, does to the lookups of a registry.
A registration that fails leaves the registry as it is. One that succeeds adds a
document and the declarations inside it at the ends of the three lists, and in
each list the first entry of an address counts, so every entry that was found
before is found after (`Extends`).

Nevertheless a lookup may lead elsewhere afterwards. A lookup that names no
anchor asks the documents first and the identifiers only if there is no document
of that address, and only documents are protected from one another. So a
document registered under an address that was known as an `$id` takes that
address over: the lookups of that address and of pointers below it lead into the
new document. These are the only lookups that change (`node?_after`), and what
was taken over once is never given back (`node?_afterAll`).

## Main definitions

* `Registration`: A document to register, as a value or as a text.
* `Registration.value?`: The value that is given in one of the two ways.
* `Registry.after`, `Registry.afterAll`: The registry after registrations.
* `Registry.Redirects`: A registration takes an address over.
* `Registry.Extends`: What is found in one registry is found in the other.

## Theorems

* `exists_register_of_attempt`, `registered_of_attempt`: What a successful registration does.
* `extends_after`: A registration extends the registry.
* `node?_after`: Exactly the lookups that are redirected change.
* `node?_afterAll`: The same for a run of registrations.
-/

namespace OpenApi

/-- A document to be registered under an address. -/
inductive Registration where
  /-- The document is given as a value. -/
  | json (address : String) (root : Json)
  /-- The document is given as a YAML text. -/
  | yaml (address text : String)

/-- The value that is to be registered, unless it is given as a text that cannot
    be read. -/
def Registration.value? : Registration → Option Json
  | .json _ root => some root
  | .yaml _ text => Yaml.read? text

/-- The address has a fragment that is no pointer. -/
def Uri.namesAnchor (uri : Uri) : Bool :=
  match uri.decodedFragment.toList with
  | [] => false
  | c :: _ => c != '/'

namespace Registry

/-- The answer to a registration. -/
def attempt (r : Registry) : Registration → Except DocumentError (Uri × Registry)
  | .json address root => r.register address root
  | .yaml address text => r.registerYaml address text

/-- The registry after a registration, which may have failed. -/
def after (r : Registry) (q : Registration) : Registry :=
  match r.attempt q with
  | .ok (_, r') => r'
  | .error _ => r

/-- The registry after some registrations. -/
def afterAll (r : Registry) (qs : List Registration) : Registry := qs.foldl after r

/-- The registration succeeds, and the address, which names no anchor, lies in
    the document that it adds. -/
def Redirects (r : Registry) (q : Registration) (uri : Uri) : Prop :=
  uri.namesAnchor = false ∧ ∃ r', r.attempt q = .ok (uri.document, r')

/-- Whatever is found in the one registry is found in the other. -/
structure Extends (r r' : Registry) : Prop where
  /-- Documents stay under their addresses. -/
  documents : ∀ uri root, r.document? uri = some root → r'.document? uri = some root
  /-- Identified objects stay where they are. -/
  identifiers : ∀ uri place, r.identifiers.lookup uri = some place →
    r'.identifiers.lookup uri = some place
  /-- Anchored objects stay where they are. -/
  anchors : ∀ uri place, r.anchors.lookup uri = some place → r'.anchors.lookup uri = some place

variable (r : Registry)

/-- The three ways to find the place of an address. -/
theorem locate?_eq (uri : Uri) :
    r.locate? uri =
      if uri.namesAnchor = true then r.anchors.lookup uri
      else match r.document? uri.document with
        | some _ => some ⟨uri.document, uri.decodedFragment⟩
        | none => (r.identifiers.lookup uri.document).map fun place =>
            ⟨place.document, place.pointer ++ uri.decodedFragment⟩ := rfl

section Step

/-- A successful registration is that of a value. -/
theorem exists_register_of_attempt (r' : Registry) (q : Registration) (d : Uri)
    (h : r.attempt q = .ok (d, r')) :
    ∃ address root, q.value? = some root ∧ r.register address root = .ok (d, r') := by
  cases q with
  | json address root => exact ⟨address, root, rfl, h⟩
  | yaml address text =>
      unfold attempt registerYaml at h
      dsimp only at h
      split at h
      · exact absurd h (by simp only [reduceCtorEq, not_false_eq_true])
      · rename_i root hread
        exact ⟨address, root, hread, h⟩

theorem registered_of_attempt (r' : Registry) (q : Registration) (d : Uri)
    (h : r.attempt q = .ok (d, r')) :
    r.document? d = none ∧ ∃ root identifiers anchors,
      r' = ⟨r.documents ++ [(d, root)], r.identifiers ++ identifiers, r.anchors ++ anchors⟩ := by
  obtain ⟨address, root, _, hregister⟩ := r.exists_register_of_attempt r' q d h
  obtain ⟨_, hfree, hlists⟩ := r.registered_of_register r' address root d hregister
  exact ⟨hfree, root, hlists⟩

theorem after_of_ok (r' : Registry) (q : Registration) (d : Uri)
    (h : r.attempt q = .ok (d, r')) : r.after q = r' := by
  unfold after
  rw [h]

theorem after_of_error (q : Registration) (e : DocumentError) (h : r.attempt q = .error e) :
    r.after q = r := by
  unfold after
  rw [h]

/-- After a registration there is one more document at most. -/
theorem document?_after (q : Registration) (uri : Uri) :
    (r.after q).document? uri = r.document? uri ∨ ∃ r', r.attempt q = .ok (uri, r') := by
  rcases hq : r.attempt q with e | ⟨d, r'⟩
  · rw [r.after_of_error q e hq]
    exact Or.inl rfl
  · obtain ⟨_, root, identifiers, anchors, hr'⟩ := r.registered_of_attempt r' q d hq
    by_cases hd : uri = d
    · rw [hd]
      exact Or.inr ⟨r', rfl⟩
    · left
      have hnew : [(d, root)].lookup uri = none := by
        rw [List.lookup_cons, beq_false_of_ne hd, List.lookup_nil]
      rw [r.after_of_ok r' q d hq, hr']
      unfold document?
      rw [List.lookup_append, hnew, Option.or_none]

/-- The document that a registration adds was not there before and is there after. -/
theorem document?_of_attempt (r' : Registry) (q : Registration) (d : Uri)
    (h : r.attempt q = .ok (d, r')) :
    r.document? d = none ∧ ((r.after q).document? d).isSome = true := by
  obtain ⟨hfree, root, identifiers, anchors, hr'⟩ := r.registered_of_attempt r' q d h
  refine ⟨hfree, ?_⟩
  have hold : r.documents.lookup d = none := hfree
  have hnew : [(d, root)].lookup d = some root := List.lookup_cons_self
  rw [r.after_of_ok r' q d h, hr']
  unfold document?
  rw [List.lookup_append, hold, hnew]
  rfl

end Step

section Extension

variable {r}

theorem Extends.refl (r : Registry) : r.Extends r where
  documents _ _ h := h
  identifiers _ _ h := h
  anchors _ _ h := h

theorem Extends.trans {a b c : Registry} (hab : a.Extends b) (hbc : b.Extends c) :
    a.Extends c where
  documents uri root h := hbc.documents uri root (hab.documents uri root h)
  identifiers uri place h := hbc.identifiers uri place (hab.identifiers uri place h)
  anchors uri place h := hbc.anchors uri place (hab.anchors uri place h)

theorem lookup_append_of_some {α β : Type} [BEq α] (key : α) (value : β) (xs ys : List (α × β))
    (h : xs.lookup key = some value) : (xs ++ ys).lookup key = some value := by
  rw [List.lookup_append, h, Option.some_or]

theorem extends_after (r : Registry) (q : Registration) : r.Extends (r.after q) := by
  rcases hq : r.attempt q with e | ⟨d, r'⟩
  · rw [r.after_of_error q e hq]
    exact .refl r
  · obtain ⟨_, root, identifiers, anchors, hr'⟩ := r.registered_of_attempt r' q d hq
    rw [r.after_of_ok r' q d hq, hr']
    exact
      { documents := fun uri root' h => lookup_append_of_some uri root' _ _ h
        identifiers := fun uri place h => lookup_append_of_some uri place _ _ h
        anchors := fun uri place h => lookup_append_of_some uri place _ _ h }

theorem extends_afterAll (qs : List Registration) : ∀ r : Registry, r.Extends (r.afterAll qs) := by
  induction qs with
  | nil => exact fun r => .refl r
  | cons q rest ih => exact fun r => (extends_after r q).trans (ih (r.after q))

variable {r' : Registry} (h : r.Extends r')

include h

/-- A place keeps its node, since all of it is read off the document. -/
theorem Extends.nodeAt? (place : Location) (n : Node) (hn : r.nodeAt? place = some n) :
    r'.nodeAt? place = some n := by
  rcases Option.bind_eq_some_iff.mp hn with ⟨root, hroot, hvalue⟩
  exact Option.bind_eq_some_iff.mpr ⟨root, h.documents _ root hroot, hvalue⟩

/-- A lookup keeps its node unless its document came later. -/
theorem Extends.node? (uri : Uri) (n : Node) (hn : r.node? uri = some n)
    (hkept : uri.namesAnchor = false → r'.document? uri.document = r.document? uri.document) :
    r'.node? uri = some n := by
  rcases Option.bind_eq_some_iff.mp hn with ⟨place, hplace, hnode⟩
  refine Option.bind_eq_some_iff.mpr ⟨place, ?_, h.nodeAt? place n hnode⟩
  rw [locate?_eq] at hplace ⊢
  by_cases hanchor : uri.namesAnchor = true
  · rw [if_pos hanchor] at hplace ⊢
    exact h.anchors uri place hplace
  · rw [if_neg hanchor] at hplace ⊢
    rw [hkept (Bool.eq_false_iff.mpr hanchor)]
    rcases hdocument : r.document? uri.document with _ | root
    · rw [hdocument] at hplace
      rcases Option.map_eq_some_iff.mp hplace with ⟨found, hfound, heq⟩
      exact Option.map_eq_some_iff.mpr ⟨found, h.identifiers _ found hfound, heq⟩
    · rw [hdocument] at hplace
      exact hplace

end Extension

/-- A lookup whose document came later leads into that document, and so to
    another node than before. -/
theorem node?_ne_of_added (r' : Registry) (uri : Uri) (n : Node) (hn : r.node? uri = some n)
    (hanchor : uri.namesAnchor = false) (hbefore : r.document? uri.document = none)
    (hafter : (r'.document? uri.document).isSome = true) : r'.node? uri ≠ some n := by
  intro hsame
  have hdocument : n.document = uri.document := by
    rcases Option.bind_eq_some_iff.mp hsame with ⟨place, hplace, hnode⟩
    rw [locate?_eq, if_neg (Bool.eq_false_iff.mp hanchor)] at hplace
    rcases Option.isSome_iff_exists.mp hafter with ⟨root, hroot⟩
    rw [hroot] at hplace
    have hfound := (r'.place_of_found place n hnode).1
    rw [← Option.some.inj hplace] at hfound
    exact congrArg Location.document hfound
  -- The node that was found before lies in a document that was there before.
  rcases Option.bind_eq_some_iff.mp hn with ⟨place, _, hnode⟩
  rcases Option.bind_eq_some_iff.mp hnode with ⟨root, hroot, _⟩
  have hfound : place.document = n.document :=
    (congrArg Location.document (r.place_of_found place n hnode).1).symm
  rw [hfound, hdocument, hbefore] at hroot
  exact Option.some_ne_none root hroot.symm

/-- A registration redirects only lookups that were answered by an identifier. -/
theorem identifiers_of_redirects (q : Registration) (uri : Uri) (n : Node)
    (hn : r.node? uri = some n) (h : r.Redirects q uri) :
    ∃ place, r.identifiers.lookup uri.document = some place ∧ n.document = place.document := by
  obtain ⟨hanchor, r', hq⟩ := h
  have hfree := (r.document?_of_attempt r' q uri.document hq).1
  rcases Option.bind_eq_some_iff.mp hn with ⟨place, hplace, hnode⟩
  rw [locate?_eq, if_neg (Bool.eq_false_iff.mp hanchor), hfree] at hplace
  rcases Option.map_eq_some_iff.mp hplace with ⟨found, hfound, heq⟩
  refine ⟨found, hfound, ?_⟩
  have hdocument := congrArg Location.document (r.place_of_found place n hnode).1
  rw [← heq] at hdocument
  exact hdocument

/-- A lookup is kept exactly if the registration does not redirect it. -/
theorem node?_after_iff (q : Registration) (uri : Uri) (n : Node) (hn : r.node? uri = some n) :
    (r.after q).node? uri = some n ↔ ¬ r.Redirects q uri := by
  constructor
  · rintro hsame ⟨hanchor, r', hq⟩
    obtain ⟨hbefore, hafter⟩ := r.document?_of_attempt r' q uri.document hq
    exact r.node?_ne_of_added _ uri n hn hanchor hbefore hafter hsame
  · -- Unless a document is added where the lookup asks for one, the same list answers as before.
    intro hfree
    refine (extends_after r q).node? uri n hn fun hanchor => ?_
    rcases r.document?_after q uri.document with hkept | hadded
    · exact hkept
    · exact absurd ⟨hanchor, hadded⟩ hfree

/-- Over a run of registrations, a lookup is kept exactly if none of them redirects it. -/
theorem node?_afterAll (uri : Uri) (n : Node) (qs : List Registration) :
    ∀ r : Registry, r.node? uri = some n →
      ((r.afterAll qs).node? uri = some n
        ↔ ∀ before q rest, qs = before ++ q :: rest → ¬ (r.afterAll before).Redirects q uri) := by
  induction qs with
  | nil =>
      intro r hn
      refine ⟨fun _ before q rest h => ?_, fun _ => hn⟩
      exact absurd h.symm (List.append_ne_nil_of_right_ne_nil before (List.cons_ne_nil q rest))
  | cons first others ih =>
      intro r hn
      by_cases hfirst : r.Redirects first uri
      · -- The address is taken over at once, and documents stay.
        refine ⟨fun hsame => ?_, fun h => absurd hfirst (h [] first others rfl)⟩
        obtain ⟨hanchor, r', hq⟩ := hfirst
        obtain ⟨hbefore, hafter⟩ := r.document?_of_attempt r' first uri.document hq
        rcases Option.isSome_iff_exists.mp hafter with ⟨root, hroot⟩
        have hlast := (extends_afterAll others (r.after first)).documents _ root hroot
        exact absurd hsame (r.node?_ne_of_added _ uri n hn hanchor hbefore
          (Option.isSome_iff_exists.mpr ⟨root, hlast⟩))
      · -- The node is the same after the first registration, and the rest of the run starts there.
        have hkept : (r.after first).node? uri = some n :=
          (r.node?_after_iff first uri n hn).mpr hfirst
        refine (ih (r.after first) hkept).trans ⟨fun h before q rest hsplit => ?_, fun h => ?_⟩
        · rcases before with _ | ⟨b, before⟩
          · rw [List.nil_append, List.cons.injEq] at hsplit
            rw [← hsplit.1]
            exact hfirst
          · rw [List.cons_append, List.cons.injEq] at hsplit
            rw [← hsplit.1]
            exact h before q rest hsplit.2
        · intro before q rest hsplit
          exact h (first :: before) q rest (by rw [hsplit, List.cons_append])

/-- A registration changes exactly the lookups that it redirects: those of
    addresses below the new document that an `$id` had answered so far. One that
    fails changes no lookup. -/
theorem node?_after (q : Registration) :
    (∀ uri n, r.node? uri = some n →
        ((r.after q).node? uri = some n ↔ ¬ r.Redirects q uri)
          ∧ (r.Redirects q uri → ∃ place,
              r.identifiers.lookup uri.document = some place ∧ n.document = place.document))
      ∧ ∀ e, r.attempt q = .error e → ∀ uri, (r.after q).node? uri = r.node? uri := by
  refine ⟨fun uri n hn => ⟨r.node?_after_iff q uri n hn, ?_⟩, fun e he uri => ?_⟩
  · exact r.identifiers_of_redirects q uri n hn
  · rw [r.after_of_error q e he]

/-- A document with a schema that has an address of its own. -/
def bundleDocument : Json :=
  .object [("base", .object [("$id", .string "http://bundle/b"), ("type", .string "string")])]

/-- The registry of that document. -/
def bundle : Registry := empty.after (.json "http://bundle/a" bundleDocument)

/-- The address of the document. -/
def bundleAddress : Uri := ⟨"http", some (.ofHost "bundle"), .segments ["a"], none, none⟩

/-- The address of the schema. -/
def nestedAddress : Uri := ⟨"http", some (.ofHost "bundle"), .segments ["b"], none, none⟩

/-- The document. -/
def bundled : Node := ⟨bundleDocument, bundleAddress, "", bundleAddress, none⟩

/-- The schema. -/
def nested : Node :=
  ⟨.object [("$id", .string "http://bundle/b"), ("type", .string "string")], bundleAddress,
    "/base", nestedAddress, none⟩

/-- The registration of another document under the address of the schema. -/
def takeover : Registration := .json "http://bundle/b" (.object [("type", .string "integer")])

/-- The registration of another document under the address of the document. -/
def repetition : Registration := .json "http://bundle/a" .null

/-- The schema is no longer found under its address, the document still is, and
    nobody takes the place of the document. -/
theorem node?_after_bundle :
    bundle.node? nestedAddress = some nested ∧ bundle.Redirects takeover nestedAddress
      ∧ (bundle.after takeover).node? nestedAddress ≠ some nested
      ∧ bundle.node? bundleAddress = some bundled ∧ ¬ bundle.Redirects takeover bundleAddress
      ∧ (bundle.after takeover).node? bundleAddress = some bundled
      ∧ (∃ e, bundle.attempt repetition = .error e)
      ∧ (bundle.after repetition).node? bundleAddress = some bundled := by
  have hnested : bundle.node? nestedAddress = some nested := by decide +kernel
  have hbundled : bundle.node? bundleAddress = some bundled := by decide +kernel
  have hlost : (bundle.after takeover).node? nestedAddress ≠ some nested := by decide +kernel
  have hkept : (bundle.after takeover).node? bundleAddress = some bundled := by decide +kernel
  obtain ⟨hlookups, _⟩ := node?_after bundle takeover
  have hiff := (hlookups nestedAddress nested hnested).1
  have hfree := (hlookups bundleAddress bundled hbundled).1.mp hkept
  have hfails : (bundle.attempt repetition).toOption.isNone = true := by decide +kernel
  obtain ⟨e, he⟩ : ∃ e, bundle.attempt repetition = .error e := by
    rcases h : bundle.attempt repetition with e | added
    · exact ⟨e, rfl⟩
    · rw [h] at hfails
      exact absurd hfails Bool.false_ne_true
  have hsame := (node?_after bundle repetition).2 e he bundleAddress
  refine ⟨hnested, ?_, hlost, hbundled, hfree, hkept, ⟨e, he⟩, hsame.trans hbundled⟩
  by_contra hredirects
  exact hlost (hiff.mpr hredirects)

end Registry

end OpenApi
