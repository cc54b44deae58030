import OpenApi.Parameter.Decoded
import OpenApi.Proofs.Ordered
import OpenApi.Proofs.Text.Split

/-!
# Laying Out and Decoding

The other direction of decoding: the text that a list of items or of members is
laid out as, style by style. What is decoded from such a text is what was laid
out, provided that the text shows where one part ends and the next one begins,
so that no part holds the delimiter.

All styles but the one of deep objects join their parts by a delimiter, behind
a leader that may have the name in it. They differ in what a part is: the items
of an array may each stand behind the name, and the members of an object may be
joined to their keys by equals signs or be followed by their values in turn.
What stands behind an equals sign is read up to its end only if it holds no line
feed.

An empty value behind the equals sign of its own part counts as missing, as in
`;c=`. So an array or object of such parts comes back with its empty texts
missing, and in all other layouts the empty texts come back as they are. Of the
members with one key the last one counts, in the place of the first one.

## Main definitions

* `Serialization.layOut`: The text of some parts.
* `Serialization.arrayText`, `Serialization.objectText`: The text of a value.
* `Serialization.FitsItems`, `Serialization.FitsMembers`: The value can be told
  from its text.

## Theorems

* `parts?_layOut`: The parts come back.
* `array?_layOut`, `object?_layOut`: The items and the members come back.
* `decode_layOut`: Decoding undoes laying out.
-/

namespace OpenApi

namespace Serialization

section Assignments

/-- What stands behind the first equals sign is the value, if it is one line. -/
theorem readAssignment?_equals (key value : List Char) (hne : key ≠ []) (hkey : '=' ∉ key) :
    readAssignment? (key ++ '=' :: value)
      = if '\n' ∈ value then none else some (key, some value) := by
  have hplain : ∀ c ∈ key, (c != '=') = true := by
    intro c hc
    rw [bne_iff_ne]
    rintro rfl
    exact hkey hc
  obtain ⟨htake, hdrop⟩ := Text.span_append_cons (· != '=') '=' rfl key hplain value
  have hempty : key.isEmpty = false := List.isEmpty_eq_false_iff.mpr hne
  unfold readAssignment?
  simp only [htake, hdrop, hempty, List.contains_iff_mem, Bool.false_eq_true, if_false]

theorem readAssignment?_append (key value : List Char) (hne : key ≠ []) (hkey : '=' ∉ key)
    (hvalue : '\n' ∉ value) :
    readAssignment? (key ++ '=' :: value) = some (key, some value) := by
  rw [readAssignment?_equals key value hne hkey, if_neg hvalue]

theorem valueAfterName?_equals (name value : List Char) (hne : name ≠ []) (hname : '=' ∉ name) :
    valueAfterName? (name ++ '=' :: value) = if '\n' ∈ value then none else some value := by
  unfold valueAfterName?
  rw [readAssignment?_equals name value hne hname]
  split
  · rfl
  · rfl

theorem valueAfterName?_append (name value : List Char) (hne : name ≠ []) (hname : '=' ∉ name)
    (hvalue : '\n' ∉ value) : valueAfterName? (name ++ '=' :: value) = some value := by
  rw [valueAfterName?_equals name value hne hname, if_neg hvalue]

theorem present?_of_ne_nil (cs : List Char) (hne : cs ≠ []) : present? (some cs) = some cs := by
  unfold present?
  rw [Option.bind_some, List.isEmpty_eq_false_iff.mpr hne, if_neg Bool.false_ne_true]

/-- A value behind an equals sign as it comes back: empty, it is missing. -/
def orMissing (text : String) : Option String := if text = "" then none else some text

theorem present?_toList (text : String) :
    (present? (some text.toList)).map String.ofList = orMissing text := by
  unfold orMissing
  by_cases htext : text = ""
  · rw [if_pos htext, htext]
    rfl
  · have hne : text.toList ≠ [] := fun h => htext (String.toList_eq_nil_iff.mp h)
    rw [if_neg htext, present?_of_ne_nil text.toList hne, Option.map_some, String.ofList_toList]

end Assignments

variable (s : Serialization)

/-- What stands between the parts of an array or object. -/
def delimiter : Char :=
  match s.style, s.explode with
  | .matrix, true => ';'
  | .label, _ => '.'
  | .form, true => '&'
  | .spaceDelimited, _ => ' '
  | .pipeDelimited, _ => '|'
  | _, _ => ','

/-- Whether the name stands once in front of all parts. -/
def namesList : Bool := !s.explode && (s.style == .matrix || s.style == .form)

/-- What stands in front of all parts. -/
def leader (name : List Char) : List Char :=
  match s.style, s.explode with
  | .matrix, true => [';']
  | .matrix, false => ';' :: name ++ ['=']
  | .label, _ => ['.']
  | .form, false => name ++ ['=']
  | _, _ => []

/-- The text of the parts of an array or object. -/
def layOut (name : List Char) (parts : List (List Char)) : List Char :=
  s.leader name ++ [s.delimiter].intercalate parts

/-- The part that an item of an array is laid out as. -/
def itemPart (name item : List Char) : List Char :=
  if s.namesItems then name ++ '=' :: item else item

/-- The parts that a member of an object is laid out as. -/
def memberParts (key value : List Char) : List (List Char) :=
  if s.joinsMembers then [key ++ '=' :: value] else [key, value]

/-- The text of an array. -/
def arrayText (name : String) (items : List String) : String :=
  String.ofList (s.layOut name.toList (items.map fun item => s.itemPart name.toList item.toList))

/-- The text of an object. -/
def objectText (name : String) (members : List (String × String)) : String :=
  String.ofList (s.layOut name.toList
    (members.flatMap fun member => s.memberParts member.1.toList member.2.toList))

/-- An item as it comes back. -/
def returnedItem (item : String) : Option String :=
  if s.namesItems then orMissing item else some item

/-- The value of a member as it comes back. -/
def returnedValue (value : String) : Option String :=
  if s.joinsMembers then orMissing value else some value

/-- The items of an array can be told from its text. -/
structure FitsItems (name : String) (items : List String) : Prop where
  /-- There are items. -/
  nonempty : items ≠ []
  /-- There is more to the text, or to what follows the name, than one empty item. -/
  filled : s.style = .label ∨ s.namesItems = true ∨ items ≠ [""]
  /-- The items do not hold what stands between them. -/
  apart : ∀ item ∈ items, s.delimiter ∉ item.toList
  /-- A name ends at the equals sign, and what follows that is one line. -/
  named : s.namesItems = true ∨ s.namesList = true →
    name ≠ "" ∧ '=' ∉ name.toList ∧ ∀ item ∈ items, '\n' ∉ item.toList
  /-- A name inside of parts does not hold what stands between them. -/
  inside : s.namesItems = true → s.delimiter ∉ name.toList

/-- The members of an object can be told from its text. -/
structure FitsMembers (name : String) (members : List (String × String)) : Prop where
  /-- There are members. -/
  nonempty : members ≠ []
  /-- The keys are not empty. -/
  keys : ∀ member ∈ members, member.1 ≠ ""
  /-- The keys and values do not hold what stands between them. -/
  apart : ∀ member ∈ members,
    s.delimiter ∉ member.1.toList ∧ s.delimiter ∉ member.2.toList
  /-- A name ends at the equals sign, and what follows that is one line. -/
  named : s.namesList = true → name ≠ "" ∧ '=' ∉ name.toList ∧
    ∀ member ∈ members, '\n' ∉ member.1.toList ∧ '\n' ∉ member.2.toList
  /-- A key ends at the equals sign, and what follows that is one line. -/
  joined : s.joinsMembers = true →
    ∀ member ∈ members, '=' ∉ member.1.toList ∧ '\n' ∉ member.2.toList

section Parts

theorem delimiter_ne_line : s.delimiter ≠ '\n' := by
  unfold delimiter
  split <;> decide

theorem delimiter_ne_equals : s.delimiter ≠ '=' := by
  unfold delimiter
  split <;> decide

/-- The parts of a text come back, if they hold no delimiter and the name in
    front of them, if there is one, can be told from them. -/
theorem parts?_layOut (hstyle : s.style ≠ .deepObject) (name : List Char)
    (parts : List (List Char)) (hne : parts ≠ []) (hapart : ∀ part ∈ parts, s.delimiter ∉ part)
    (hname : s.namesList = true →
      name ≠ [] ∧ '=' ∉ name ∧ parts ≠ [[]] ∧ ∀ part ∈ parts, '\n' ∉ part) :
    s.parts? (s.layOut name parts) = some parts := by
  have hsplit : Text.splitBy (· == s.delimiter) ([s.delimiter].intercalate parts) = parts := by
    refine Text.splitBy_intercalate (· == s.delimiter) s.delimiter (beq_self_eq_true _) parts hne ?_
    intro part hpart c hc
    rw [beq_eq_false_iff_ne]
    rintro rfl
    exact hapart part hpart hc
  have hbehind : s.namesList = true →
      (present? (valueAfterName? (name ++ ['='] ++ [s.delimiter].intercalate parts))).map
        (Text.splitBy (· == s.delimiter)) = some parts := by
    intro hlist
    obtain ⟨hnonempty, hequals, hfilled, hlines⟩ := hname hlist
    have hline : '\n' ∉ [s.delimiter].intercalate parts := by
      intro hmem
      rcases Text.mem_intercalate _ parts _ hmem with hc | ⟨part, hpart, hc⟩
      · exact s.delimiter_ne_line hc.symm
      · exact hlines part hpart hc
    rw [List.append_assoc, List.singleton_append,
      valueAfterName?_append name _ hnonempty hequals hline,
      present?_of_ne_nil _ (Text.intercalate_ne_nil _ parts hne hfilled), Option.map_some, hsplit]
  -- A leading delimiter makes an empty part, which is dropped.
  have hleading : (Text.splitBy (· == s.delimiter)
      (s.delimiter :: [s.delimiter].intercalate parts)).drop 1 = parts := by
    have happend := Text.splitBy_append (· == s.delimiter) s.delimiter (beq_self_eq_true _) []
      ([s.delimiter].intercalate parts)
    rw [List.nil_append] at happend
    rw [happend, hsplit]
    rfl
  rcases s with ⟨own, style, explode⟩
  cases style with
  | matrix =>
      cases explode with
      | true => exact congrArg some hleading
      | false => exact hbehind rfl
  | label => exact congrArg some hleading
  | form =>
      cases explode with
      | true => exact congrArg some hsplit
      | false => exact hbehind rfl
  | simple => exact congrArg some hsplit
  | spaceDelimited => exact congrArg some hsplit
  | pipeDelimited => exact congrArg some hsplit
  | deepObject => exact absurd rfl hstyle

end Parts

/-- The name stands once in front of all parts only where nothing is exploded. -/
theorem not_exploded_of_namesList (hlist : s.namesList = true) :
    s.namesItems = false ∧ s.joinsMembers = false := by
  unfold namesList at hlist
  rw [Bool.and_eq_true, Bool.not_eq_true'] at hlist
  unfold namesItems joinsMembers
  rw [hlist.1, Bool.false_and, Bool.false_and, Bool.false_and]
  exact ⟨rfl, rfl⟩

section Items

variable {s} {name : String} {items : List String} (h : s.FitsItems name items)

include h

/-- Outside of labels the parts of an array are not just one that is empty. -/
theorem FitsItems.parts_ne (hlabel : s.style ≠ .label) :
    (items.map fun item => s.itemPart name.toList item.toList) ≠ [[]] := by
  intro hparts
  rcases items with _ | ⟨item, rest⟩
  · exact absurd hparts (List.cons_ne_nil _ _).symm
  · rw [List.map_cons, List.cons.injEq, List.map_eq_nil_iff] at hparts
    obtain ⟨hpart, rfl⟩ := hparts
    unfold itemPart at hpart
    rcases h.filled with hstyle | hnames | hitems
    · exact hlabel hstyle
    · rw [if_pos hnames] at hpart
      exact List.append_ne_nil_of_right_ne_nil _ (List.cons_ne_nil _ _) hpart
    · split at hpart
      · exact List.append_ne_nil_of_right_ne_nil _ (List.cons_ne_nil _ _) hpart
      · exact hitems (by rw [String.toList_eq_nil_iff.mp hpart])

theorem FitsItems.apart_part (part : List Char)
    (hpart : part ∈ items.map fun item => s.itemPart name.toList item.toList) :
    s.delimiter ∉ part := by
  obtain ⟨item, hitem, rfl⟩ := List.mem_map.mp hpart
  unfold itemPart
  by_cases hnames : s.namesItems = true
  · rw [if_pos hnames]
    intro hmem
    rcases List.mem_append.mp hmem with hname | hvalue
    · exact h.inside hnames hname
    · rcases List.mem_cons.mp hvalue with hequals | hvalue
      · exact s.delimiter_ne_equals hequals
      · exact h.apart item hitem hvalue
  · rw [if_neg hnames]
    exact h.apart item hitem

/-- The items of an array come back in order. -/
theorem array?_layOut (hstyle : s.style ≠ .deepObject) :
    s.array? (s.arrayText name items).toList = some (items.map s.returnedItem) := by
  have hparts : s.parts? (s.arrayText name items).toList
      = some (items.map fun item => s.itemPart name.toList item.toList) := by
    unfold arrayText
    rw [String.toList_ofList]
    refine s.parts?_layOut hstyle _ _ ?_ h.apart_part (fun hlist => ?_)
    · exact fun hnil => h.nonempty (List.map_eq_nil_iff.mp hnil)
    · obtain ⟨hname, hequals, hlines⟩ := h.named (Or.inr hlist)
      refine ⟨fun hnil => hname (String.toList_eq_nil_iff.mp hnil), hequals, ?_, ?_⟩
      · refine h.parts_ne fun hlabel => ?_
        unfold namesList at hlist
        rw [hlabel, Bool.and_eq_true] at hlist
        exact absurd hlist.2 (by decide)
      · intro part hpart
        obtain ⟨item, hitem, rfl⟩ := List.mem_map.mp hpart
        unfold itemPart
        rw [(s.not_exploded_of_namesList hlist).1, if_neg Bool.false_ne_true]
        exact hlines item hitem
  unfold array?
  rw [hparts, Option.map_some, List.map_map]
  -- Behind a name an item is what follows the equals sign, and otherwise the whole part.
  refine congrArg some (List.map_congr_left fun item hitem => ?_)
  rw [Function.comp_apply]
  unfold itemPart returnedItem
  by_cases hnames : s.namesItems = true
  · obtain ⟨hname, hequals, hlines⟩ := h.named (Or.inl hnames)
    have hvalue := valueAfterName?_append name.toList item.toList
      (fun hnil => hname (String.toList_eq_nil_iff.mp hnil)) hequals (hlines item hitem)
    rw [if_pos hnames, if_pos hnames, if_pos hnames, hvalue, present?_toList]
  · rw [if_neg hnames, if_neg hnames, if_neg hnames, Option.map_some, String.ofList_toList]

end Items

section Members

variable {s} {name : String} {members : List (String × String)} (h : s.FitsMembers name members)

/-- The members of a list of keys and values in turn. -/
theorem pairUp_flatMap (members : List (String × String))
    (hkeys : ∀ member ∈ members, member.1 ≠ "") :
    pairUp (members.flatMap fun member => [member.1.toList, member.2.toList])
      = members.map fun member => (member.1, some member.2) := by
  induction members with
  | nil => rfl
  | cons member rest ih =>
      -- Pairing stops at an empty key, so no key may be empty.
      have hkey : member.1.toList.isEmpty = false :=
        List.isEmpty_eq_false_iff.mpr fun hnil =>
          hkeys member List.mem_cons_self (String.toList_eq_nil_iff.mp hnil)
      have hrest := ih fun m hm => hkeys m (List.mem_cons_of_mem member hm)
      rw [List.flatMap_cons, List.cons_append, List.cons_append, List.nil_append, pairUp, hkey,
        if_neg Bool.false_ne_true, hrest, String.ofList_toList, String.ofList_toList,
        List.map_cons]

/-- The members of a list of assignments. -/
theorem filterMap_readAssignment? (members : List (String × String))
    (hkeys : ∀ member ∈ members, member.1 ≠ "")
    (hjoined : ∀ member ∈ members, '=' ∉ member.1.toList ∧ '\n' ∉ member.2.toList) :
    (members.map fun member => member.1.toList ++ '=' :: member.2.toList).filterMap readAssignment?
      = members.map fun member => (member.1.toList, some member.2.toList) := by
  rw [List.filterMap_map, ← List.filterMap_eq_map]
  refine List.filterMap_congr fun member hmember => ?_
  obtain ⟨hkey, hvalue⟩ := hjoined member hmember
  exact readAssignment?_append member.1.toList member.2.toList
    (fun hnil => hkeys member hmember (String.toList_eq_nil_iff.mp hnil)) hkey hvalue

include h

theorem FitsMembers.parts_ne :
    (members.flatMap fun member => s.memberParts member.1.toList member.2.toList) ≠ []
      ∧ (members.flatMap fun member => s.memberParts member.1.toList member.2.toList) ≠ [[]] := by
  rcases members with _ | ⟨member, rest⟩
  · exact absurd rfl h.nonempty
  · have hkey : member.1.toList ≠ [] := fun hnil =>
      h.keys member List.mem_cons_self (String.toList_eq_nil_iff.mp hnil)
    rw [List.flatMap_cons]
    unfold memberParts
    by_cases hjoins : s.joinsMembers = true
    · rw [if_pos hjoins, List.singleton_append]
      refine ⟨List.cons_ne_nil _ _, fun hc => ?_⟩
      exact List.append_ne_nil_of_right_ne_nil _ (List.cons_ne_nil _ _) (List.cons.inj hc).1
    · rw [if_neg hjoins]
      exact ⟨List.cons_ne_nil _ _, fun hc => hkey (List.cons.inj hc).1⟩

theorem FitsMembers.apart_part (part : List Char)
    (hpart : part ∈ members.flatMap fun member =>
      s.memberParts member.1.toList member.2.toList) : s.delimiter ∉ part := by
  obtain ⟨member, hmember, hpart⟩ := List.mem_flatMap.mp hpart
  obtain ⟨hkey, hvalue⟩ := h.apart member hmember
  unfold memberParts at hpart
  split at hpart
  · rw [List.mem_singleton.mp hpart]
    intro hmem
    rcases List.mem_append.mp hmem with hmem | hmem
    · exact hkey hmem
    · rcases List.mem_cons.mp hmem with hequals | hmem
      · exact s.delimiter_ne_equals hequals
      · exact hvalue hmem
  · rcases List.mem_cons.mp hpart with rfl | hpart
    · exact hkey
    · rw [List.mem_singleton.mp hpart]
      exact hvalue

/-- The members of an object come back, inserted one after the other. -/
theorem object?_layOut (hstyle : s.style ≠ .deepObject) :
    s.object? (s.objectText name members).toList
      = some (Ordered.ofEntries
          (members.map fun member => (member.1, s.returnedValue member.2))) := by
  obtain ⟨hne, hfilled⟩ := h.parts_ne
  have hparts : s.parts? (s.objectText name members).toList
      = some (members.flatMap fun member => s.memberParts member.1.toList member.2.toList) := by
    unfold objectText
    rw [String.toList_ofList]
    refine s.parts?_layOut hstyle _ _ hne h.apart_part (fun hlist => ?_)
    obtain ⟨hname, hequals, hlines⟩ := h.named hlist
    refine ⟨fun hnil => hname (String.toList_eq_nil_iff.mp hnil), hequals, hfilled, ?_⟩
    intro part hpart
    obtain ⟨member, hmember, hpart⟩ := List.mem_flatMap.mp hpart
    unfold memberParts at hpart
    rw [(s.not_exploded_of_namesList hlist).2, if_neg Bool.false_ne_true] at hpart
    rcases List.mem_cons.mp hpart with rfl | hpart
    · exact (hlines member hmember).1
    · rw [List.mem_singleton.mp hpart]
      exact (hlines member hmember).2
  unfold object?
  rw [if_neg hstyle, hparts, Option.map_some]
  refine congrArg some ?_
  unfold memberParts returnedValue
  -- Assignments are read one by one, keys and values in turn by pairs.
  by_cases hjoins : s.joinsMembers = true
  · simp only [if_pos hjoins]
    rw [← List.map_eq_flatMap]
    unfold membersOfAssignments
    rw [filterMap_readAssignment? members h.keys (h.joined hjoins), List.map_map]
    refine congrArg Ordered.ofEntries (List.map_congr_left fun member _ => ?_)
    rw [Function.comp_apply]
    dsimp only
    rw [present?_toList, String.ofList_toList]
  · simp only [if_neg hjoins]
    rw [pairUp_flatMap members h.keys]

end Members

section Decoding

variable {s} {name : String}

/-- A text that is not empty is read as what it is meant for. -/
theorem decode_of_ne_nil (hstyle : s.style ≠ .deepObject) (text : String)
    (hne : text.toList ≠ []) :
    s.decode text .array = .ok ((s.array? text.toList).map .array)
      ∧ s.decode text .object = .ok ((s.object? text.toList).map .object) := by
  have hsupports : s.style.supports .array = true ∧ s.style.supports .object = true := by
    cases hs : s.style with
    | deepObject => exact absurd hs hstyle
    | _ => decide
  have hempty : text.toList.isEmpty = false := List.isEmpty_eq_false_iff.mpr hne
  unfold decode
  simp only [hsupports.1, hsupports.2, hempty, if_true, Bool.false_eq_true, if_false, and_self]

theorem layOut_ne_nil (parts : List (List Char)) (hne : parts ≠ [])
    (hfilled : s.style = .label ∨ parts ≠ [[]]) : s.layOut name.toList parts ≠ [] := by
  unfold layOut
  rcases hfilled with hlabel | hfilled
  · refine List.append_ne_nil_of_left_ne_nil ?_ _
    unfold leader
    rw [hlabel]
    exact List.cons_ne_nil _ _
  · exact List.append_ne_nil_of_right_ne_nil _ (Text.intercalate_ne_nil _ parts hne hfilled)

theorem FitsItems.arrayText_ne (items : List String) (h : s.FitsItems name items) :
    (s.arrayText name items).toList ≠ [] := by
  unfold arrayText
  rw [String.toList_ofList]
  refine layOut_ne_nil _ (fun hnil => h.nonempty (List.map_eq_nil_iff.mp hnil)) ?_
  by_cases hlabel : s.style = .label
  · exact Or.inl hlabel
  · exact Or.inr (h.parts_ne hlabel)

theorem FitsMembers.objectText_ne (members : List (String × String))
    (h : s.FitsMembers name members) : (s.objectText name members).toList ≠ [] := by
  unfold objectText
  rw [String.toList_ofList]
  exact layOut_ne_nil _ h.parts_ne.1 (Or.inr h.parts_ne.2)

end Decoding

/-- What an array or object is laid out as is decoded to its items in order, and
    to its members, of which the last one with a key counts in the place of the
    first one. Texts that are empty behind an equals sign of their own are
    missing, and nothing else is lost. -/
theorem decode_layOut (hstyle : s.style ≠ .deepObject) (name : String) :
    (∀ items, s.FitsItems name items →
        s.decode (s.arrayText name items) .array
          = .ok (some (.array (items.map s.returnedItem))))
      ∧ ∀ members, s.FitsMembers name members → ∃ entries,
          s.decode (s.objectText name members) .object = .ok (some (.object entries))
            ∧ Ordered.keys entries = (members.map Prod.fst).eraseDups
            ∧ ∀ key, Ordered.get? entries key
                = (members.reverse.lookup key).map s.returnedValue := by
  constructor
  · intro items h
    rw [(decode_of_ne_nil hstyle _ (h.arrayText_ne items)).1, array?_layOut h hstyle,
      Option.map_some]
  · intro members h
    refine ⟨Ordered.ofEntries (members.map fun member => (member.1, s.returnedValue member.2)),
      ?_, ?_, fun key => ?_⟩
    · rw [(decode_of_ne_nil hstyle _ (h.objectText_ne members)).2, object?_layOut h hstyle,
        Option.map_some]
    · rw [Ordered.keys_ofEntries, List.map_map]
      rfl
    · rw [Ordered.get?_ofEntries, ← List.map_reverse, Ordered.lookup_map_values]

/-- Colours in a path, by matrix style without names at the items. -/
def colors : Serialization := ⟨"color", .matrix, false⟩

/-- The same exploded. -/
def namedColors : Serialization := ⟨"color", .matrix, true⟩

/-- Three colours, and an object with a repeated key and an empty value. -/
theorem decode_layOut_colors :
    colors.decode ";color=blue,black,brown" .array
        = .ok (some (.array [some "blue", some "black", some "brown"]))
      ∧ ∃ entries, namedColors.decode ";R=1;G=;R=2" .object = .ok (some (.object entries))
        ∧ Ordered.keys entries = ["R", "G"] ∧ Ordered.get? entries "R" = some (some "2")
        ∧ Ordered.get? entries "G" = some none := by
  have hitems : colors.FitsItems "color" ["blue", "black", "brown"] := by
    constructor <;> decide
  have hmembers : namedColors.FitsMembers "color" [("R", "1"), ("G", ""), ("R", "2")] := by
    constructor <;> decide
  have harray := (decode_layOut colors (by decide) "color").1 _ hitems
  obtain ⟨entries, hobject, hkeys, hget⟩ :=
    (decode_layOut namedColors (by decide) "color").2 _ hmembers
  exact ⟨harray, entries, hobject, hkeys, hget "R", hget "G"⟩

/-- An empty item behind a name of its own does not come back, and neither does
    one of two lines, which does not fit. -/
theorem decode_namedColors :
    namedColors.FitsItems "color" [""] ∧ namedColors.arrayText "color" [""] = ";color="
      ∧ namedColors.decode ";color=" .array = .ok (some (.array [none]))
      ∧ namedColors.decode ";color=" .array ≠ .ok (some (.array [some ""]))
      ∧ namedColors.arrayText "color" ["a\nb"] = ";color=a\nb"
      ∧ namedColors.decode ";color=a\nb" .array = .ok (some (.array [none])) := by
  have hitems : namedColors.FitsItems "color" [""] := by
    constructor <;> decide
  have hmissing : namedColors.decode ";color=" .array = .ok (some (.array [none])) := rfl
  refine ⟨hitems, rfl, hmissing, fun hpresent => ?_, rfl, rfl⟩
  exact nomatch hmissing.symm.trans hpresent

end Serialization

end OpenApi
