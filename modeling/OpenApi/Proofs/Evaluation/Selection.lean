import OpenApi.Proofs.Evaluation.Conjunction

/-!
# The Choice under a Discriminator

Which branch of `oneOf` gives the result if a discriminator stands beside it. The
branches are tried in their order. One that accepts and leads to the selected
address ends the search; of the others the first result is remembered, and the
violations are collected. So the result is the first of the selected branches
that accepts, in want of one the first of all that accept, and there is none
exactly if all branches reject, each of them with a cause.

What a branch leads to is known by its scope, where references were followed, but
the selected address is taken as it is written. So the selected schema has to
stand where the discriminator says. If there is only a reference to it, no branch
counts as selected, not even one with the same reference.

## Main definitions

* `Node.valueOf?`, `Node.violationOf?`: The two sides of a verdict.
* `Node.LeadsTo`: Where a branch leads.
* `Node.FirstAccepted`: The result of the first of certain branches that accepts.

## Theorems

* `chooseBranch_eq`: What is known at the end of the search, as an equation.
* `evaluateKeyword_oneOf_selected`: Which results `oneOf` has under a discriminator.
* `evaluateKeyword_oneOf_alias`: A reference in the selected place.
-/

namespace OpenApi

namespace Node

section Search

variable (evaluate : Evaluation) (path : String) (x : Json)

/-- The result of a branch that accepts. -/
def valueOf? (m : Node) : Option Json := (evaluate m path x).toOption

/-- The violation of a branch that rejects. -/
def violationOf? (m : Node) : Option Violation :=
  match evaluate m path x with
  | .error (.violation w) => some w
  | _ => none

/-- A branch leads to the schema with a scope. -/
def LeadsTo (r : Registry) (scope : String) (m : Node) : Prop :=
  ∃ target, r.follow m = .ok target ∧ target.scope = scope

instance (r : Registry) (scope : String) (m : Node) : Decidable (LeadsTo r scope m) :=
  match h : r.follow m with
  | .ok target => decidable_of_iff (target.scope = scope)
      ⟨fun hscope => ⟨target, h, hscope⟩,
        fun ⟨_, htarget, hscope⟩ => Except.ok.inj (h.symm.trans htarget) ▸ hscope⟩
  | .error _ => .isFalse fun ⟨_, htarget, _⟩ => nomatch h.symm.trans htarget

theorem leadsTo_iff (r : Registry) (scope : String) (m target : Node)
    (htarget : r.follow m = .ok target) : LeadsTo r scope m ↔ target.scope = scope := by
  unfold LeadsTo
  rw [htarget]
  constructor
  · rintro ⟨t, ht, hscope⟩
    rw [Except.ok.inj ht]
    exact hscope
  · exact fun hscope => ⟨target, rfl, hscope⟩

/-- The first of certain branches to accept has a result. -/
def FirstAccepted (certain : Node → Prop) (branches : List Node) (y : Json) : Prop :=
  ∃ before m after, branches = before ++ m :: after ∧ certain m ∧ evaluate m path x = .ok y
    ∧ ∀ other ∈ before, certain other → ∀ y', evaluate other path x ≠ .ok y'

variable {evaluate path x} in
theorem valueOf?_eq_some_iff (m : Node) (y : Json) :
    valueOf? evaluate path x m = some y ↔ evaluate m path x = .ok y := by
  unfold valueOf?
  exact ⟨eq_ok_of_toOption _ y, fun h => h ▸ rfl⟩

variable {evaluate path x} in
/-- The two sides of the verdict of a branch that accepts. -/
theorem sides_of_accepts (m : Node) (y : Json) (h : evaluate m path x = .ok y) :
    valueOf? evaluate path x m = some y ∧ violationOf? evaluate path x m = none := by
  unfold violationOf?
  rw [h]
  exact ⟨(valueOf?_eq_some_iff m y).mpr h, rfl⟩

variable {evaluate path x} in
/-- The two sides of the verdict of a branch that rejects. -/
theorem sides_of_rejects (m : Node) (w : Violation)
    (h : evaluate m path x = .error (.violation w)) :
    valueOf? evaluate path x m = none ∧ violationOf? evaluate path x m = some w := by
  unfold valueOf? violationOf?
  rw [h]
  exact ⟨rfl, rfl⟩

theorem firstAccepted_iff (certain : Node → Prop) [DecidablePred certain] (branches : List Node)
    (y : Json) :
    FirstAccepted evaluate path x certain branches y
      ↔ (branches.findSome? fun m => if certain m then valueOf? evaluate path x m else none)
        = some y := by
  rw [List.findSome?_eq_some_iff]
  refine exists_congr fun before => exists_congr fun m => exists_congr fun after => ?_
  refine and_congr_right fun _ => ?_
  rw [← and_assoc]
  refine and_congr ?_ (forall₂_congr fun other _ => ?_)
  · rw [Option.ite_none_right_eq_some, valueOf?_eq_some_iff]
  · rw [← Option.eq_none_iff_forall_ne_some.trans (forall_congr' fun y' =>
      not_congr (valueOf?_eq_some_iff other y')), ite_eq_right_iff]

variable (r : Registry) (scope : String)

/-- The search ends with the first selected branch that accepts, and otherwise
    knows the first result and all violations. -/
theorem chooseBranch_eq (branches : List Node) :
    ∀ known : Choice, (∀ m ∈ branches, ∃ target, r.follow m = .ok target) →
      (∀ m ∈ branches, Decided (evaluate m path x)) →
      chooseBranch r evaluate scope path x branches known
        = match branches.findSome? fun m =>
            if LeadsTo r scope m then valueOf? evaluate path x m else none with
          | some y => .ok (.ok y)
          | none => .ok (.error
            ⟨known.first?.or (branches.findSome? (valueOf? evaluate path x)),
              known.causes ++ branches.filterMap (violationOf? evaluate path x)⟩) := by
  induction branches with
  | nil =>
      intro known _ _
      simp only [chooseBranch, List.findSome?_nil, List.filterMap_nil, Option.or_none,
        List.append_nil]
  | cons m rest ih =>
      intro known hfollow hdecided
      have hrest := fun known' => ih known' (fun m' hm' => hfollow m' (List.mem_cons_of_mem m hm'))
        fun m' hm' => hdecided m' (List.mem_cons_of_mem m hm')
      obtain ⟨target, htarget⟩ := hfollow m List.mem_cons_self
      have hleads := leadsTo_iff r scope m target htarget
      unfold chooseBranch
      rw [htarget, List.findSome?_cons, List.findSome?_cons, List.filterMap_cons]
      rcases hdecided m List.mem_cons_self with ⟨y, hy⟩ | ⟨w, hw⟩
      · obtain ⟨hvalue, hviolation⟩ := sides_of_accepts m y hy
        rw [hy, hvalue, hviolation]
        change (if target.scope = scope then _ else _) = _
        by_cases hscope : target.scope = scope
        · rw [if_pos hscope, if_pos (hleads.mpr hscope)]
        · -- The result is remembered if it is the first.
          rw [if_neg hscope, if_neg fun h => hscope (hleads.mp h), hrest]
          cases known.first? with
          | none => rfl
          | some first => rfl
      · -- A branch that rejects is a cause, wherever it leads.
        obtain ⟨hvalue, hviolation⟩ := sides_of_rejects m w hw
        rw [hw, hvalue, hviolation, ite_self]
        refine (hrest _).trans ?_
        rw [List.append_assoc]
        rfl

/-- Branches that all give verdicts and have no result all reject. -/
theorem forall₂_violations (branches : List Node)
    (hdecided : ∀ m ∈ branches, Decided (evaluate m path x))
    (hnone : branches.findSome? (valueOf? evaluate path x) = none) :
    List.Forall₂ (fun m w => evaluate m path x = .error (.violation w)) branches
      (branches.filterMap (violationOf? evaluate path x)) := by
  induction branches with
  | nil => exact .nil
  | cons m rest ih =>
      rw [List.findSome?_eq_none_iff, List.forall_mem_cons] at hnone
      have hrest := ih (fun m' hm' => hdecided m' (List.mem_cons_of_mem m hm'))
        (List.findSome?_eq_none_iff.mpr hnone.2)
      rcases hdecided m List.mem_cons_self with ⟨y, hy⟩ | ⟨w, hw⟩
      · rw [(valueOf?_eq_some_iff m y).mpr hy] at hnone
        exact nomatch hnone.1
      · rw [List.filterMap_cons, (sides_of_rejects m w hw).2]
        exact .cons hw hrest

theorem findSome?_eq_none_of_forall₂ (branches : List Node) (causes : List Violation)
    (h : List.Forall₂ (fun m w => evaluate m path x = .error (.violation w)) branches causes) :
    branches.findSome? (valueOf? evaluate path x) = none
      ∧ branches.filterMap (violationOf? evaluate path x) = causes := by
  induction h with
  | nil => exact ⟨rfl, rfl⟩
  | cons hw _ ih =>
      obtain ⟨hvalue, hviolation⟩ := sides_of_rejects _ _ hw
      rw [List.findSome?_cons, List.filterMap_cons, hvalue, hviolation]
      exact ⟨ih.1, congrArg _ ih.2⟩

variable (n : Node)

/-- The result of `oneOf` under a discriminator, as an equation. -/
theorem applySelectedOneOf_eq (uri : Uri) (huri : n.selected path x = .ok uri)
    (hfollow : ∀ m ∈ n.branches "oneOf", ∃ target, r.follow m = .ok target)
    (hdecided : ∀ m ∈ n.branches "oneOf", Decided (evaluate m path x)) :
    n.applySelectedOneOf r evaluate path x
      = match ((n.branches "oneOf").findSome? fun m =>
            if LeadsTo r uri.text m then valueOf? evaluate path x m else none).or
          ((n.branches "oneOf").findSome? (valueOf? evaluate path x)) with
        | some y => .ok y
        | none => .error (.ofCauses path n.scope .oneOf
            ((n.branches "oneOf").filterMap (violationOf? evaluate path x))) := by
  have hsearch := chooseBranch_eq evaluate path x r uri.text (n.branches "oneOf") ⟨none, []⟩
    hfollow hdecided
  unfold applySelectedOneOf
  rw [huri]
  change (chooseBranch r evaluate uri.text path x (n.branches "oneOf") ⟨none, []⟩ >>= _) = _
  rw [hsearch]
  cases ((n.branches "oneOf").findSome? fun m =>
    if LeadsTo r uri.text m then valueOf? evaluate path x m else none) with
  | some y => rfl
  | none =>
      cases (n.branches "oneOf").findSome? (valueOf? evaluate path x) with
      | some y => rfl
      | none => rfl

end Search

end Node

namespace Validator

variable (v : Validator)

theorem not_decided_of_schema {α : Type} (e : SchemaError) :
    ¬ Decided (.error (.schema e) : Except Failure α) := by
  simp only [Decided, reduceCtorEq, Except.error.injEq, exists_false, or_self, not_false_eq_true]

/-- What gives a verdict leads to a schema. -/
theorem exists_follow_of_decided (depth : Nat) (n : Node) (path : String) (x : Json)
    (h : Decided (v.evaluateIn depth n path x)) : ∃ target, v.registry.follow n = .ok target := by
  cases depth with
  | zero => exact absurd rfl (ne_depth_of_decided _ h)
  | succ depth =>
      rcases hderef : v.registry.deref n with e | target
      · have hfailed : v.evaluateIn (depth + 1) n path x = .error (.schema e) := by
          unfold evaluateIn evaluateWith Registry.follow
          rw [hderef]
          rfl
        rw [hfailed] at h
        exact absurd h (not_decided_of_schema e)
      · exact ⟨target, (v.registry.follow_eq_ok_iff n target).mpr hderef⟩

/-- Under a discriminator `oneOf` takes the first result of the branches that lead
    to the selected address, or else the first result of all. It fails exactly if
    all branches reject, and each of them is a cause then. The selected schema is
    what is selected if it stands at that address itself. -/
theorem evaluateKeyword_oneOf_selected (hdialect : v.dialect = .openApi) (depth : Nat) (n : Node)
    (hdiscriminator : n.has "discriminator" = true) (path : String) (x : Json) (uri : Uri)
    (huri : n.selected path x = .ok uri)
    (hdecided : ∀ m ∈ n.branches "oneOf", Decided (v.evaluateIn depth m path x)) :
    (∀ y, v.evaluateKeyword (v.evaluateIn depth) .oneOf n path x = .ok y
      ↔ Node.FirstAccepted (v.evaluateIn depth) path x (Node.LeadsTo v.registry uri.text)
          (n.branches "oneOf") y
        ∨ (¬ ∃ y', Node.FirstAccepted (v.evaluateIn depth) path x
            (Node.LeadsTo v.registry uri.text) (n.branches "oneOf") y')
          ∧ Node.FirstAccepted (v.evaluateIn depth) path x (fun _ => True) (n.branches "oneOf") y)
    ∧ ∀ e, v.evaluateKeyword (v.evaluateIn depth) .oneOf n path x = .error e
      ↔ ∃ causes, e = .ofCauses path n.scope .oneOf causes
        ∧ List.Forall₂ (fun m w => v.evaluateIn depth m path x = .error (.violation w))
            (n.branches "oneOf") causes := by
  have hkeyword : v.evaluateKeyword (v.evaluateIn depth) .oneOf n path x
      = n.applySelectedOneOf v.registry (v.evaluateIn depth) path x := by
    unfold evaluateKeyword
    rw [hdialect]
    exact if_pos hdiscriminator
  rw [hkeyword, n.applySelectedOneOf_eq (v.evaluateIn depth) path x v.registry uri huri
    (fun m hm => v.exists_follow_of_decided depth m path x (hdecided m hm)) hdecided]
  simp only [Node.firstAccepted_iff, if_true]
  -- Who does not accept at all does not accept as a selected branch either.
  have hnone : (n.branches "oneOf").findSome? (Node.valueOf? (v.evaluateIn depth) path x) = none →
      ((n.branches "oneOf").findSome? fun m => if Node.LeadsTo v.registry uri.text m
        then Node.valueOf? (v.evaluateIn depth) path x m else none) = none := by
    rw [List.findSome?_eq_none_iff, List.findSome?_eq_none_iff]
    exact fun h m hm => by rw [h m hm, ite_self]
  have hcauses := fun causes => Node.findSome?_eq_none_of_forall₂ (v.evaluateIn depth) path x
    (n.branches "oneOf") causes
  rcases hfirst : (n.branches "oneOf").findSome? (Node.valueOf? (v.evaluateIn depth) path x)
    with _ | first
  · rw [hnone hfirst]
    have hall := Node.forall₂_violations (v.evaluateIn depth) path x _ hdecided hfirst
    refine ⟨fun y => ?_, fun e => ⟨fun h => ⟨_, (Except.error.inj h).symm, hall⟩, ?_⟩⟩
    · constructor
      · exact fun h => nomatch h
      · rintro (h | ⟨_, h⟩)
        · exact nomatch h
        · exact nomatch h
    · rintro ⟨causes, rfl, h⟩
      rw [(hcauses causes h).2]
      rfl
  · have haccepted : ∀ e, ¬ ∃ causes, e = Failure.ofCauses path n.scope .oneOf causes
        ∧ List.Forall₂ (fun m w => v.evaluateIn depth m path x = .error (.violation w))
            (n.branches "oneOf") causes := by
      rintro e ⟨causes, _, h⟩
      rw [(hcauses causes h).1] at hfirst
      exact nomatch hfirst
    rcases (n.branches "oneOf").findSome? fun m => if Node.LeadsTo v.registry uri.text m
      then Node.valueOf? (v.evaluateIn depth) path x m else none with _ | selected
    · refine ⟨fun y => ?_, fun e => iff_of_false (fun h => nomatch h) (haccepted e)⟩
      constructor
      · exact fun h => Or.inr ⟨fun ⟨_, h'⟩ => (nomatch h'), congrArg some (Except.ok.inj h)⟩
      · rintro (h | ⟨_, h⟩)
        · exact nomatch h
        · exact congrArg Except.ok (Option.some.inj h)
    · refine ⟨fun y => ?_, fun e => iff_of_false (fun h => nomatch h) (haccepted e)⟩
      constructor
      · exact fun h => Or.inl (congrArg some (Except.ok.inj h))
      · rintro (h | ⟨h, _⟩)
        · exact congrArg Except.ok (Option.some.inj h)
        · exact absurd ⟨selected, rfl⟩ h

/-- The address of the document with the schemas of guests. -/
def hotelAddress : Uri := ⟨"http", some (.ofHost "hotel"), .segments ["guests"], none, none⟩

/-- The schema of a hound, which has an age. -/
def houndSchema : Json :=
  .object [("type", .string "object"),
    ("properties", .object [("age", .object [("default", .ofInt 1)])])]

/-- The schema of a dog: whatever a hound is. -/
def dogSchema : Json := .object [("$ref", .string "\x23/components/schemas/Hound")]

/-- The schema of a guest: any object or a dog, as it says itself. -/
def guestSchema : Json :=
  .object [("discriminator", .object [("propertyName", .string "kind")]),
    ("oneOf", .array [.object [("$ref", .string "\x23/components/schemas/Loose")],
      .object [("$ref", .string "\x23/components/schemas/Dog")]])]

/-- The document with these schemas. -/
def hotelDocument : Json :=
  .object [("components", .object [("schemas", .object [
    ("Loose", .object [("type", .string "object")]), ("Hound", houndSchema), ("Dog", dogSchema),
    ("Guest", guestSchema)])])]

/-- The evaluation of guests. -/
def hotel : Validator := ⟨⟨[(hotelAddress, hotelDocument)], [], []⟩, .openApi, false⟩

/-- The place of a schema of guests. -/
def hotelPlace (name : String) : String := "/components/schemas/" ++ name

/-- A schema of guests at its place. -/
def hotelNode (name : String) (schema : Json) : Node :=
  ⟨schema, hotelAddress, hotelPlace name, hotelAddress, none⟩

/-- A guest that says it is a dog. -/
def hotelDog : Json := .object [("kind", .string "Dog")]

/-- The same guest with the age that hounds have. -/
def agedDog : Json := .object [("kind", .string "Dog"), ("age", .ofInt 1)]

/-- A guest that says it is a hound, without and with an age. -/
def hotelHound (age : Ordered Json) : Json := .object (("kind", .string "Hound") :: age)

/-- A hound is selected where it stands, so the branch that leads there gives the
    result, although another one accepts before. -/
theorem evaluateKeyword_oneOf_hound :
    hotel.evaluateKeyword (hotel.evaluateIn 2) .oneOf (hotelNode "Guest" guestSchema) ""
      (hotelHound []) = .ok (hotelHound [("age", .ofInt 1)]) := by
  have hchoice := (evaluateKeyword_oneOf_selected hotel rfl 2 (hotelNode "Guest" guestSchema) rfl ""
    (hotelHound []) (hotelAddress.withFragment (hotelPlace "Hound")) (by decide +kernel)
    (by decide +kernel)).1
  refine (hchoice _).mpr (Or.inl ?_)
  rw [Node.firstAccepted_iff]
  decide +kernel

/-- The selected schema is what one branch leads to, and that branch accepts; but
    there is only a reference to it where the discriminator says, and the result is
    that of the other branch. -/
theorem evaluateKeyword_oneOf_alias :
    (hotelNode "Guest" guestSchema).selected "" hotelDog
        = .ok (hotelAddress.withFragment (hotelPlace "Dog"))
      ∧ hotel.registry.node? (hotelAddress.withFragment (hotelPlace "Dog"))
        = some (hotelNode "Dog" dogSchema)
      ∧ hotel.registry.follow (hotelNode "Dog" dogSchema) = .ok (hotelNode "Hound" houndSchema)
      ∧ (∃ m ∈ (hotelNode "Guest" guestSchema).branches "oneOf",
          Node.LeadsTo hotel.registry (hotelNode "Hound" houndSchema).scope m)
      ∧ (∀ m ∈ (hotelNode "Guest" guestSchema).branches "oneOf",
          Decided (hotel.evaluateIn 2 m "" hotelDog)
            ∧ (Node.LeadsTo hotel.registry (hotelNode "Hound" houndSchema).scope m →
              hotel.evaluateIn 2 m "" hotelDog = .ok agedDog))
      ∧ hotel.evaluateKeyword (hotel.evaluateIn 2) .oneOf (hotelNode "Guest" guestSchema) ""
        hotelDog = .ok hotelDog := by
  refine ⟨?_, ?_, ?_, ?_, ?_, ?_⟩
  · decide +kernel
  · decide +kernel
  · decide +kernel
  · decide +kernel
  · decide +kernel
  · decide +kernel

end Validator

end OpenApi
