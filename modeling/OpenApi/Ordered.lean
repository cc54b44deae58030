/-!
# Insertion-Ordered Entries

A finite map from text to values that remembers the order of its entries. A
list of pairs is enough: the maps here come from documents and requests, and
the order is part of what is compared.

Inserting under a key that is already present replaces the value and keeps the
place. Erasing moves the last entry into the gap, so the entries behind the
erased one are not shifted; this shows in the order of what is left, and
`erase` is written to say so.

No definition here needs the keys to be distinct. Lookups take the first entry
under a key, and entries built by `insert` alone have distinct keys.

## Main definitions

* `Ordered`: Entries in order.
* `Ordered.insert`: Replaces in place, or appends.
* `Ordered.erase`: Removes an entry and moves the last one into its place.
* `Ordered.ofEntries`: Inserts entries one after the other.
-/

namespace OpenApi

/-- Entries under text keys, in order. -/
abbrev Ordered (α : Type) := List (String × α)

namespace Ordered

variable {α : Type}

/-- The value of the first entry under `key`. -/
def get? (entries : Ordered α) (key : String) : Option α :=
  entries.lookup key

/-- Whether there is an entry under `key`. -/
def contains (entries : Ordered α) (key : String) : Bool :=
  (get? entries key).isSome

/-- The keys in order. -/
def keys (entries : Ordered α) : List String :=
  entries.map Prod.fst

/-- Gives `key` the value `value`: in place when there is an entry, else at the end. -/
def insert : Ordered α → String → α → Ordered α
  | [], key, value => [(key, value)]
  | (k, v) :: rest, key, value =>
    if k = key then (key, value) :: rest else (k, v) :: insert rest key value

/-- The entries without the one under `key`. The last entry takes its place. -/
def erase : Ordered α → String → Ordered α
  | [], _ => []
  | (k, v) :: rest, key =>
    if k = key then
      match rest.getLast? with
      | none => []
      | some last => last :: rest.dropLast
    else (k, v) :: erase rest key

/-- Inserts pairs in order: a repeated key keeps its first place and its last value. -/
def ofEntries (pairs : List (String × α)) : Ordered α :=
  pairs.foldl (fun entries pair => insert entries pair.1 pair.2) []

end Ordered

end OpenApi
