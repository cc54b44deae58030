import OpenApi.Proofs.Ordered

/-!
# Parts of Values

A JSON value and the values inside it, at any depth. Conditions on whole
documents and whole instances are conditions on all their parts: that no object
repeats a key, or that no object has a member under a certain key.

An object is read as a map, so its keys are distinct. The type of values does
not say so; `WellFormed` does, for every object inside a value. The readers of
JSON and YAML texts insert the members of an object one after the other, which
is where it comes from.

## Main definitions

* `Json.parts`: The value and all values inside it.
* `Json.keys`: The keys of an object.
* `Json.WellFormed`: No object inside the value repeats a key.
* `Json.Lacks`: No object inside the value has a certain key.
* `Json.height`: How deep arrays and objects are nested.

## Theorems

* `Json.induct`: Induction on the parts of a value.
* `mem_parts_trans`: Parts of parts are parts.
* `mem_parts_of_get?`: Members of an object are parts.
* `wellFormed_array_iff`, `wellFormed_object_iff`: Distinct keys, level by level.
-/

namespace OpenApi

namespace Json

/-- Induction from the items of an array and the members of an object to the
    whole. -/
theorem induct (motive : Json → Prop) (null : motive .null) (bool : ∀ b, motive (.bool b))
    (number : ∀ n, motive (.number n)) (string : ∀ s, motive (.string s))
    (array : ∀ items, (∀ x ∈ items, motive x) → motive (.array items))
    (object : ∀ members, (∀ entry ∈ members, motive entry.2) → motive (.object members)) :
    ∀ x, motive x
  | .null => null
  | .bool b => bool b
  | .number n => number n
  | .string s => string s
  | .array items => array items fun x _ => induct motive null bool number string array object x
  | .object members => object members fun entry _ =>
      induct motive null bool number string array object entry.2
termination_by x => sizeOf x
decreasing_by
  · have := List.sizeOf_lt_of_mem ‹_ ∈ items›
    simp only [Json.array.sizeOf_spec]
    omega
  · have := List.sizeOf_lt_of_mem ‹_ ∈ members›
    rcases entry with ⟨key, value⟩
    simp only [Json.object.sizeOf_spec, Prod.mk.sizeOf_spec] at this ⊢
    omega

mutual

/-- The value and all values inside it. -/
def parts : Json → List Json
  | .array items => .array items :: itemParts items
  | .object members => .object members :: memberParts members
  | x => [x]

/-- The parts of the items of an array. -/
def itemParts : List Json → List Json
  | [] => []
  | x :: rest => parts x ++ itemParts rest

/-- The parts of the members of an object. -/
def memberParts : List (String × Json) → List Json
  | [] => []
  | (_, x) :: rest => parts x ++ memberParts rest

end

/-- The keys of an object; other values have none. -/
def keys : Json → List String
  | .object members => Ordered.keys members
  | _ => []

/-- No object inside the value has two members under one key. -/
def WellFormed (x : Json) : Prop := ∀ y ∈ x.parts, y.keys.Nodup

/-- No object inside the value has a member under the key. -/
def Lacks (x : Json) (key : String) : Prop := ∀ y ∈ x.parts, key ∉ y.keys

instance (x : Json) : Decidable x.WellFormed :=
  inferInstanceAs (Decidable (∀ y ∈ x.parts, y.keys.Nodup))

instance (x : Json) (key : String) : Decidable (x.Lacks key) :=
  inferInstanceAs (Decidable (∀ y ∈ x.parts, key ∉ y.keys))

mutual

/-- How deep arrays and objects are nested inside the value. -/
def height : Json → Nat
  | .array items => itemsHeight items + 1
  | .object members => membersHeight members + 1
  | _ => 0

/-- The height of the highest item. -/
def itemsHeight : List Json → Nat
  | [] => 0
  | x :: rest => max (height x) (itemsHeight rest)

/-- The height of the highest member. -/
def membersHeight : List (String × Json) → Nat
  | [] => 0
  | (_, x) :: rest => max (height x) (membersHeight rest)

end

theorem mem_itemParts (items : List Json) (y : Json) :
    y ∈ itemParts items ↔ ∃ x ∈ items, y ∈ x.parts := by
  induction items with
  | nil => simp only [itemParts, List.not_mem_nil, false_and, exists_false]
  | cons x rest ih => simp only [itemParts, List.mem_append, ih, List.mem_cons, exists_eq_or_imp]

theorem mem_memberParts (members : List (String × Json)) (y : Json) :
    y ∈ memberParts members ↔ ∃ entry ∈ members, y ∈ entry.2.parts := by
  induction members with
  | nil => simp only [memberParts, List.not_mem_nil, false_and, exists_false]
  | cons entry rest ih =>
      simp only [memberParts, List.mem_append, ih, List.mem_cons, exists_eq_or_imp]

theorem mem_parts_array (items : List Json) (y : Json) :
    y ∈ (array items).parts ↔ y = .array items ∨ ∃ x ∈ items, y ∈ x.parts := by
  rw [parts, List.mem_cons, mem_itemParts]

theorem mem_parts_object (members : List (String × Json)) (y : Json) :
    y ∈ (object members).parts ↔ y = .object members ∨ ∃ entry ∈ members, y ∈ entry.2.parts := by
  rw [parts, List.mem_cons, mem_memberParts]

theorem mem_parts_self (x : Json) : x ∈ x.parts := by
  cases x with
  | array items => exact (mem_parts_array items _).mpr (Or.inl rfl)
  | object members => exact (mem_parts_object members _).mpr (Or.inl rfl)
  | _ => exact List.mem_singleton_self _

theorem mem_parts_item (items : List Json) (x : Json) (h : x ∈ items) :
    x ∈ (array items).parts :=
  (mem_parts_array items x).mpr (Or.inr ⟨x, h, mem_parts_self x⟩)

theorem mem_parts_member (members : List (String × Json)) (entry : String × Json)
    (h : entry ∈ members) : entry.2 ∈ (object members).parts :=
  (mem_parts_object members entry.2).mpr (Or.inr ⟨entry, h, mem_parts_self entry.2⟩)

theorem mem_parts_trans (x y z : Json) (hy : y ∈ x.parts) (hz : z ∈ y.parts) : z ∈ x.parts := by
  induction x using induct with
  | array items ih =>
      rcases (mem_parts_array items y).mp hy with rfl | ⟨w, hw, hyw⟩
      · exact hz
      · exact (mem_parts_array items z).mpr (Or.inr ⟨w, hw, ih w hw hyw⟩)
  | object members ih =>
      rcases (mem_parts_object members y).mp hy with rfl | ⟨entry, hentry, hye⟩
      · exact hz
      · exact (mem_parts_object members z).mpr (Or.inr ⟨entry, hentry, ih entry hentry hye⟩)
  | _ =>
      rw [List.mem_singleton.mp hy] at hz
      exact hz

theorem mem_parts_of_get? (x : Json) (key : String) (y : Json) (h : x.get? key = some y) :
    y ∈ x.parts := by
  cases x with
  | object members =>
      exact mem_parts_member members (key, y) (Ordered.mem_of_get? members key y h)
  | _ => exact absurd h (by simp only [get?, reduceCtorEq, not_false_eq_true])

theorem wellFormed_of_mem_parts (x y : Json) (hx : x.WellFormed) (hy : y ∈ x.parts) :
    y.WellFormed :=
  fun z hz => hx z (mem_parts_trans x y z hy hz)

theorem wellFormed_array_iff (items : List Json) :
    (array items).WellFormed ↔ ∀ x ∈ items, x.WellFormed := by
  constructor
  · exact fun h x hx => wellFormed_of_mem_parts _ x h (mem_parts_item items x hx)
  · intro h y hy
    rcases (mem_parts_array items y).mp hy with rfl | ⟨x, hx, hyx⟩
    · exact List.nodup_nil
    · exact h x hx y hyx

theorem wellFormed_object_iff (members : Ordered Json) :
    (object members).WellFormed
      ↔ (Ordered.keys members).Nodup ∧ ∀ entry ∈ members, entry.2.WellFormed := by
  constructor
  · intro h
    exact ⟨h _ (mem_parts_self _), fun entry hentry =>
      wellFormed_of_mem_parts _ entry.2 h (mem_parts_member members entry hentry)⟩
  · rintro ⟨hnodup, h⟩ y hy
    rcases (mem_parts_object members y).mp hy with rfl | ⟨entry, hentry, hyx⟩
    · exact hnodup
    · exact h entry hentry y hyx

theorem height_item_lt (items : List Json) (x : Json) (h : x ∈ items) :
    x.height < (array items).height := by
  rw [height]
  induction items with
  | nil => exact absurd h List.not_mem_nil
  | cons y rest ih =>
      rw [itemsHeight]
      rcases List.mem_cons.mp h with rfl | hmem
      · omega
      · have := ih hmem
        omega

theorem height_member_lt (members : List (String × Json)) (entry : String × Json)
    (h : entry ∈ members) : entry.2.height < (object members).height := by
  rw [height]
  induction members with
  | nil => exact absurd h List.not_mem_nil
  | cons first rest ih =>
      rw [membersHeight]
      rcases List.mem_cons.mp h with rfl | hmem
      · omega
      · have := ih hmem
        omega

theorem height_le_of_mem_parts (x y : Json) (h : y ∈ x.parts) : y.height ≤ x.height := by
  induction x using induct with
  | array items ih =>
      rcases (mem_parts_array items y).mp h with rfl | ⟨z, hz, hy⟩
      · exact Nat.le_refl _
      · exact Nat.le_trans (ih z hz hy) (Nat.le_of_lt (height_item_lt items z hz))
  | object members ih =>
      rcases (mem_parts_object members y).mp h with rfl | ⟨entry, hentry, hy⟩
      · exact Nat.le_refl _
      · exact Nat.le_trans (ih entry hentry hy) (Nat.le_of_lt (height_member_lt members entry hentry))
  | _ =>
      obtain rfl := List.mem_singleton.mp h
      exact Nat.le_refl _

end Json

end OpenApi
