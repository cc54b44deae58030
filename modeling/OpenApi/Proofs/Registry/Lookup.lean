import OpenApi.Proofs.Registry.Index

/-!
# Going Down and Looking Up

There are two ways from a node to what lies below it: going down by segments,
and looking up the pointer of the node with the segments pushed on it. They read
array places differently. A lookup wants canonical decimal, while going down also
takes a plus sign and leading zeros, and so does the base of a pointer.

So a path that is gone down is looked up under another spelling, the one with
every array place in canonical decimal. Under that spelling the two ways lead to
the same value in every document, and the node has the base of its pointer
whichever way that is spelled. Under the spelling that was given there is a value
exactly if the two spellings are the same and there is one. Otherwise there may
still be a node below, but nothing is at its pointer.

## Main definitions

* `Pointer.respell`: The segments with array places in canonical decimal.

## Theorems

* `foldlM_respell`: Going down is looking up the other spelling.
* `respell_eq_self`: Segments that are found are spelled canonically.
* `baseAt_foldl_push`: The base of a pointer some segments further.
* `child?_eq_some_iff`: Where there is a node below, and where its pointer is found.
-/

namespace OpenApi

namespace Pointer

/-- A segment as a lookup reads it: a place of an array in canonical decimal. -/
def respellSegment (value : Json) (segment : String) : String :=
  match value with
  | .array _ => ((index? segment).map toString).getD segment
  | _ => segment

/-- The segments as a lookup reads them, as far as they lead. -/
def respell (value : Json) : List String → List String
  | [] => []
  | segment :: rest =>
    match step? value segment with
    | none => segment :: rest
    | some next => respellSegment value segment :: respell next rest

theorem canonicalStep?_respellSegment (value next : Json) (segment : String)
    (h : step? value segment = some next) :
    canonicalStep? value (respellSegment value segment) = some next := by
  cases value with
  | object members => exact h
  | array items =>
      rcases Option.bind_eq_some_iff.mp h with ⟨i, hi, hitem⟩
      unfold respellSegment
      rw [hi, Option.map_some, Option.getD_some, canonicalStep?_array]
      exact hitem
  | _ => exact absurd h (by simp only [step?, stepBy?, reduceCtorEq, not_false_eq_true])

theorem respellSegment_eq_self (value next : Json) (segment : String)
    (h : canonicalStep? value segment = some next) : respellSegment value segment = segment := by
  cases value with
  | array items =>
      rcases Option.bind_eq_some_iff.mp h with ⟨i, hi, _⟩
      unfold respellSegment
      rw [index?_of_canonicalIndex? segment i hi, Option.map_some, Option.getD_some]
      exact (eq_toString_of_canonicalIndex? segment i hi).symm
  | _ => rfl

/-- Going down by segments is looking them up in the other spelling. -/
theorem foldlM_respell (path : List String) :
    ∀ value, (respell value path).foldlM canonicalStep? value = path.foldlM step? value := by
  induction path with
  | nil => exact fun value => rfl
  | cons segment rest ih =>
      intro value
      unfold respell
      rcases hstep : step? value segment with _ | next
      · -- What the lenient reading does not find, the strict one does not find either.
        have hnone : canonicalStep? value segment = none := by
          refine Option.eq_none_iff_forall_ne_some.mpr fun next hnext => ?_
          rw [step?_of_canonicalStep? value segment next hnext] at hstep
          exact absurd hstep (Option.some_ne_none next)
        simp only [List.foldlM_cons, hnone, hstep]
        rfl
      · simp only [List.foldlM_cons, canonicalStep?_respellSegment value next segment hstep, hstep]
        exact ih next

/-- Segments that a lookup finds are spelled as it reads them. -/
theorem respell_eq_self (path : List String) :
    ∀ value last, path.foldlM canonicalStep? value = some last → respell value path = path := by
  induction path with
  | nil => exact fun _ _ _ => rfl
  | cons segment rest ih =>
      intro value last h
      rw [List.foldlM_cons] at h
      rcases Option.bind_eq_some_iff.mp h with ⟨next, hnext, hrest⟩
      unfold respell
      rw [step?_of_canonicalStep? value segment next hnext]
      simp only [respellSegment_eq_self value next segment hnext, ih next last hrest]

end Pointer

/-- The base of a pointer some segments further is the one along them. -/
theorem baseAt_foldl_push (root value : Json) (document : Uri) (pointer : String)
    (path : List String) (h : Pointer.get? root pointer = some value) :
    baseAt root document (path.foldl Pointer.push pointer)
      = baseAlong value (baseAt root document pointer) path := by
  unfold baseAt
  rw [Pointer.segments_foldl_push]
  exact baseAlong_append _ path value root _ (Pointer.foldlM_of_get? root value pointer h)

namespace Registry

variable (r : Registry)

/-- There is a node below exactly where the document has a value at the respelled
    pointer, and it has that value, the pointer as it was given and the base of
    that pointer. The document has a value at the pointer as it was given exactly if
    respelling does not change it and there is one. -/
theorem child?_eq_some_iff (n : Node) (hn : r.Obtained n) (path : List String) :
    ∃ root, r.document? n.document = some root
      ∧ (∀ m, n.child? path = some m ↔
          ∃ value,
            Pointer.get? root ((Pointer.respell n.value path).foldl Pointer.push n.pointer)
              = some value
            ∧ m = ⟨value, n.document, path.foldl Pointer.push n.pointer,
                baseAt root n.document (path.foldl Pointer.push n.pointer), none⟩)
      ∧ ∀ value,
          Pointer.get? root (path.foldl Pointer.push n.pointer) = some value ↔
            Pointer.respell n.value path = path
              ∧ Pointer.get? root ((Pointer.respell n.value path).foldl Pointer.push n.pointer)
                = some value := by
  obtain ⟨root, hroot, hget, hbase⟩ := r.exists_root_of_has n (r.has_of_obtained n hn)
  have hlookup : ∀ segments : List String,
      Pointer.get? root (segments.foldl Pointer.push n.pointer)
        = segments.foldlM Pointer.canonicalStep? n.value := by
    intro segments
    rw [Pointer.get?_foldl_push, hget, Option.bind_some]
  refine ⟨root, hroot, fun m => ?_, fun value => ?_⟩
  · rw [Node.child?_eq_map, hlookup, Pointer.foldlM_respell, Option.map_eq_some_iff, hbase,
      baseAt_foldl_push root n.value n.document n.pointer path hget]
    simp only [eq_comm]
  · rw [hlookup, hlookup]
    constructor
    · -- What is found at a path as it stands is reached by canonical segments only.
      intro hvalue
      have hself := Pointer.respell_eq_self path n.value value hvalue
      exact ⟨hself, hself.symm ▸ hvalue⟩
    · rintro ⟨hself, hvalue⟩
      rwa [hself] at hvalue

/-- The address of a document. -/
def shelfAddress : Uri := ⟨"http", some (.ofHost "shelf"), .segments ["a"], none, none⟩

/-- The address that a schema inside the document gives itself. -/
def bookAddress : Uri := ⟨"http", some (.ofHost "shelf"), .segments ["book"], none, none⟩

/-- That schema, with something under a key that has to be escaped. -/
def bookSchema : Json := .object [("$id", .string "http://shelf/book"), ("a/b", .object [])]

/-- The document, with the schema as the only one of a list. -/
def shelfDocument : Json := .object [("allOf", .array [bookSchema])]

/-- The registry of the document. -/
def shelf : Registry := empty.after (.json "http://shelf/a" shelfDocument)

/-- The whole document. -/
def shelfNode : Node := ⟨shelfDocument, shelfAddress, "", shelfAddress, none⟩

theorem obtained_shelfNode : shelf.Obtained shelfNode :=
  .find "http://shelf/a" shelfNode (by decide +kernel)

/-- Inside the schema there is a node also below a place with a leading zero. -/
theorem child?_eq_some_iff_shelf :
    shelf.Obtained shelfNode
      ∧ shelf.document? shelfNode.document = some shelfDocument
      ∧ Pointer.respell shelfNode.value ["allOf", "00", "a/b"] = ["allOf", "0", "a/b"]
      ∧ Pointer.get? shelfDocument "/allOf/0/a~1b" = some (.object [])
      ∧ shelfNode.child? ["allOf", "00", "a/b"]
        = some ⟨.object [], shelfAddress, "/allOf/00/a~1b", bookAddress, none⟩
      ∧ Pointer.get? shelfDocument "/allOf/00/a~1b" = none := by
  have hdocument : shelf.document? shelfNode.document = some shelfDocument := by decide +kernel
  have hrespell : Pointer.respell shelfNode.value ["allOf", "00", "a/b"] = ["allOf", "0", "a/b"] := by
    decide +kernel
  have hvalue : Pointer.get? shelfDocument "/allOf/0/a~1b" = some (.object []) := by decide +kernel
  have hpointer : ["allOf", "0", "a/b"].foldl Pointer.push shelfNode.pointer = "/allOf/0/a~1b" := by
    decide +kernel
  have hgiven : ["allOf", "00", "a/b"].foldl Pointer.push shelfNode.pointer = "/allOf/00/a~1b" := by
    decide +kernel
  obtain ⟨root, hroot, hchild, hget⟩ :=
    shelf.child?_eq_some_iff shelfNode obtained_shelfNode ["allOf", "00", "a/b"]
  obtain rfl : shelfDocument = root := Option.some.inj (hdocument.symm.trans hroot)
  rw [hrespell, hpointer, hgiven] at hchild hget
  refine ⟨obtained_shelfNode, hdocument, hrespell, hvalue, ?_, ?_⟩
  · exact (hchild _).mpr ⟨.object [], hvalue, by decide +kernel⟩
  · refine Option.eq_none_iff_forall_ne_some.mpr fun value hfound => ?_
    exact absurd ((hget value).mp hfound).1 (by decide)

/-- With a plus sign the schema itself is below the document, but nothing is at its
    pointer, and its scope leads nowhere. -/
theorem child?_plus :
    shelf.Built ∧ shelf.Obtained shelfNode
      ∧ shelf.document? shelfNode.document = some shelfDocument
      ∧ ∃ m, shelfNode.child? ["allOf", "+0"] = some m ∧ m.value = bookSchema
        ∧ Pointer.get? shelfDocument (["allOf", "+0"].foldl Pointer.push shelfNode.pointer) = none
        ∧ shelf.find? m.scope = none :=
  ⟨empty.built_after .empty _, obtained_shelfNode, by decide +kernel,
    ⟨bookSchema, shelfAddress, "/allOf/+0", bookAddress, none⟩, by decide +kernel, rfl,
    by decide +kernel, by decide +kernel⟩

end Registry

end OpenApi
