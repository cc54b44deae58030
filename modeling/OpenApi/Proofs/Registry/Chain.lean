import OpenApi.Proofs.Evaluation.Graph
import OpenApi.Proofs.Json.Identical

/-!
# Chains of References

A reference may lead to a node that is a reference again. How far a chain goes is
a question about the references alone, and `referredAfter?` answers it: the node
after a number of hops, if every hop before it leads somewhere. Following the
chain is a loop that looks at one node in each round and stops at the first one
without a reference, at the first reference that leads nowhere, or when the
rounds are used up.

The bound counts the nodes that are looked at, and the first of them is the node
the chain starts from. So the last hop that is made leads to a node that nobody
looks at: a chain that ends after fewer hops than `maxHops` is followed to its
end, and one with exactly `maxHops` hops is reported as a cycle, although it has
an end.

## Main definitions

* `Node.referredAfter?`: The node after a number of hops.

## Theorems

* `derefWithin_of_referredAfter?`: Rounds of the loop are hops of the chain.
* `isSome_of_repetition`: A chain that comes back to a node never ends.
* `end_cases`: A chain is long, or it ends, or it breaks off.
* `deref_chain`: Where following a chain leads, in all four cases.
* `deref_relay_full`: A chain with an end that is taken for a cycle.
-/

namespace OpenApi

/-- The node that a chain of references has led to after a number of hops. -/
def Node.referredAfter? (r : Registry) (n : Node) : Nat → Option Node
  | 0 => some n
  | hops + 1 => (referredAfter? r n hops).bind (Node.referred? r)

namespace Registry

variable (r : Registry) (n : Node)

section Hops

/-- Where the next hop leads does not depend on exclusions. -/
theorem referred?_of_bare (m m' : Node) (h : m.bare = m'.bare) :
    m.referred? r = m'.referred? r := by
  have hreferred : ∀ k : Node, k.referred? r = k.bare.referred? r := fun k => rfl
  rw [hreferred m, hreferred m', h]

/-- A chain that has made some hops has made all the hops before. -/
theorem isSome_of_le (i j : Nat) (hij : i ≤ j) (h : (n.referredAfter? r j).isSome) :
    (n.referredAfter? r i).isSome := by
  induction j with
  | zero =>
      obtain rfl : i = 0 := by omega
      exact h
  | succ j ih =>
      by_cases hi : i = j + 1
      · rw [hi]
        exact h
      · refine ih (by omega) ?_
        rcases hj : n.referredAfter? r j with _ | m
        · rw [Node.referredAfter?, hj] at h
          exact absurd h Bool.false_ne_true
        · rfl

/-- From two visits to one node the chain goes on alike. -/
theorem bare_of_repetition (i j : Nat)
    (h : (n.referredAfter? r i).map Node.bare = (n.referredAfter? r j).map Node.bare) (d : Nat) :
    (n.referredAfter? r (i + d)).map Node.bare = (n.referredAfter? r (j + d)).map Node.bare := by
  induction d with
  | zero => exact h
  | succ d ih =>
      rw [← Nat.add_assoc, ← Nat.add_assoc, Node.referredAfter?, Node.referredAfter?]
      rcases hi : n.referredAfter? r (i + d) with _ | m
      · rw [hi, Option.map_none] at ih
        rw [Option.map_eq_none_iff.mp ih.symm]
      · rw [hi, Option.map_some] at ih
        rcases Option.map_eq_some_iff.mp ih.symm with ⟨m', hm', hbare⟩
        rw [hm', Option.bind_some, Option.bind_some, referred?_of_bare r m m' hbare.symm]

/-- A chain that comes back to a node has as many hops as one likes: those behind
    the second visit are those behind the first one again. -/
theorem isSome_of_repetition (i j : Nat) (hij : i < j) (m m' : Node)
    (hm : n.referredAfter? r i = some m) (hm' : n.referredAfter? r j = some m')
    (hbare : m'.bare = m.bare) (hops : Nat) : (n.referredAfter? r hops).isSome := by
  induction hops using Nat.strongRecOn with
  | ind hops ih =>
      by_cases hle : hops ≤ j
      · refine isSome_of_le r n hops j hle ?_
        rw [hm']
        rfl
      · -- The same number of hops behind the first visit is a smaller number in all.
        have hvisits : (n.referredAfter? r i).map Node.bare = (n.referredAfter? r j).map Node.bare := by
          rw [hm, hm', Option.map_some, Option.map_some, hbare]
        have hlater := bare_of_repetition r n i j hvisits (hops - j)
        rw [show j + (hops - j) = hops by omega] at hlater
        have hearlier := ih (i + (hops - j)) (by omega)
        rw [← Option.isSome_map (f := Node.bare), hlater, Option.isSome_map] at hearlier
        exact hearlier

/-- A chain has a given number of hops, or it stops before. -/
theorem isSome_or_exists_stop (hops : Nat) :
    (n.referredAfter? r hops).isSome
      ∨ ∃ k < hops, ∃ m, n.referredAfter? r k = some m ∧ m.referred? r = none := by
  induction hops with
  | zero => exact Or.inl rfl
  | succ hops ih =>
      rcases ih with hlong | ⟨k, hk, hstop⟩
      · rcases Option.isSome_iff_exists.mp hlong with ⟨m, hm⟩
        rcases hnext : m.referred? r with _ | next
        · exact Or.inr ⟨hops, by omega, m, hm, hnext⟩
        · refine Or.inl ?_
          rw [Node.referredAfter?, hm, Option.bind_some, hnext]
          rfl
      · exact Or.inr ⟨k, by omega, hstop⟩

end Hops

section Rounds

theorem derefWithin_of_referred? (rounds : Nat) (m : Node) (h : n.referred? r = some m) :
    r.derefWithin (rounds + 1) n = r.derefWithin rounds { m with exclusion := n.exclusion } := by
  unfold Node.referred? at h
  split at h
  · rename_i text htext
    rw [derefWithin, htext]
    dsimp only
    rw [h]
  · exact absurd h (by simp only [reduceCtorEq, not_false_eq_true])

/-- A round of the loop makes one hop, and the exclusion of the first node goes
    along. -/
theorem derefWithin_of_referredAfter? (k : Nat) :
    ∀ (rounds : Nat) (m : Node), n.referredAfter? r k = some m →
      r.derefWithin (k + rounds) n = r.derefWithin rounds { m with exclusion := n.exclusion } := by
  induction k with
  | zero =>
      intro rounds m h
      rw [← Option.some.inj h, Nat.zero_add]
  | succ k ih =>
      intro rounds m h
      rcases Option.bind_eq_some_iff.mp h with ⟨last, hlast, hm⟩
      have hhop : ({ last with exclusion := n.exclusion } : Node).referred? r = some m := hm
      rw [show k + 1 + rounds = k + (rounds + 1) by omega, ih (rounds + 1) last hlast,
        derefWithin_of_referred? r _ rounds m hhop]

/-- The round that looks at a node decides what becomes of the chain there. -/
theorem deref_of_referredAfter? (k : Nat) (hk : k < maxHops) (m : Node)
    (h : n.referredAfter? r k = some m) :
    ∃ rounds, r.deref n
      = r.derefWithin (rounds + 1) { m with exclusion := n.exclusion } := by
  refine ⟨maxHops - k - 1, ?_⟩
  have hrounds := derefWithin_of_referredAfter? r n k (maxHops - k - 1 + 1) m h
  rw [show k + (maxHops - k - 1 + 1) = maxHops by omega] at hrounds
  exact hrounds

theorem deref_of_end (k : Nat) (hk : k < maxHops) (m : Node) (h : n.referredAfter? r k = some m)
    (hend : m.get? "$ref" = none) : r.deref n = .ok { m with exclusion := n.exclusion } := by
  obtain ⟨rounds, hrounds⟩ := deref_of_referredAfter? r n k hk m h
  have hget : ({ m with exclusion := n.exclusion } : Node).get? "$ref" = none := hend
  rw [hrounds, derefWithin, hget]

theorem deref_of_unresolved (k : Nat) (hk : k < maxHops) (m : Node)
    (h : n.referredAfter? r k = some m) (text : String)
    (htext : m.get? "$ref" = some (.string text)) (hlost : r.resolve? text m.base = none) :
    r.deref n = .error ⟨m.scope, .reference, some text⟩ := by
  obtain ⟨rounds, hrounds⟩ := deref_of_referredAfter? r n k hk m h
  have hget : ({ m with exclusion := n.exclusion } : Node).get? "$ref" = some (.string text) := htext
  rw [hrounds, derefWithin, hget]
  dsimp only
  rw [hlost]
  rfl

theorem deref_of_not_string (k : Nat) (hk : k < maxHops) (m : Node)
    (h : n.referredAfter? r k = some m) (value : Json) (hvalue : m.get? "$ref" = some value)
    (hstring : value.string? = none) : r.deref n = .error ⟨m.scope, .reference, none⟩ := by
  obtain ⟨rounds, hrounds⟩ := deref_of_referredAfter? r n k hk m h
  have hget : ({ m with exclusion := n.exclusion } : Node).get? "$ref" = some value := hvalue
  rw [hrounds, derefWithin, hget]
  cases value with
  | string text => exact absurd hstring (Option.some_ne_none text)
  | _ => rfl

/-- When the rounds are used up, the node after the last hop is not looked at. -/
theorem deref_of_long (m : Node) (h : n.referredAfter? r maxHops = some m) :
    r.deref n = .error ⟨m.scope, .reference, some "reference cycle"⟩ := by
  have hrounds := derefWithin_of_referredAfter? r n maxHops 0 m h
  rw [Nat.add_zero] at hrounds
  exact hrounds

end Rounds

/-- A chain uses up the rounds, or it ends before at a node without a reference, or
    it breaks off before at a reference that leads nowhere or is no text. -/
theorem end_cases :
    (∃ m, n.referredAfter? r maxHops = some m)
      ∨ ∃ k < maxHops, ∃ m, n.referredAfter? r k = some m
        ∧ (m.get? "$ref" = none
          ∨ (∃ text, m.get? "$ref" = some (.string text) ∧ r.resolve? text m.base = none)
          ∨ ∃ value, m.get? "$ref" = some value ∧ value.string? = none) := by
  rcases isSome_or_exists_stop r n maxHops with hlong | ⟨k, hk, m, hm, hstop⟩
  · exact Or.inl (Option.isSome_iff_exists.mp hlong)
  · refine Or.inr ⟨k, hk, m, hm, ?_⟩
    unfold Node.referred? at hstop
    rcases hget : m.get? "$ref" with _ | value
    · exact Or.inl rfl
    · rw [hget] at hstop
      cases value with
      | string text => exact Or.inr (Or.inl ⟨text, rfl, hstop⟩)
      | _ => exact Or.inr (Or.inr ⟨_, rfl, rfl⟩)

/-- Following a chain succeeds exactly if the chain ends after fewer hops than the
    bound, and then gives its end with the exclusion of the start. A chain with as
    many hops as the bound, such as one that comes back to a node, is reported as a
    cycle where the hops are used up. A chain that breaks off before is reported
    where it breaks off. -/
theorem deref_chain :
    (∀ t, r.deref n = .ok t ↔
        ∃ k < maxHops, ∃ m, n.referredAfter? r k = some m ∧ m.get? "$ref" = none
          ∧ t = { m with exclusion := n.exclusion })
      ∧ (∀ m, n.referredAfter? r maxHops = some m →
          r.deref n = .error ⟨m.scope, .reference, some "reference cycle"⟩)
      ∧ (∀ i j m m', i < j → n.referredAfter? r i = some m → n.referredAfter? r j = some m' →
          m'.bare = m.bare → ∃ last, n.referredAfter? r maxHops = some last
            ∧ r.deref n = .error ⟨last.scope, .reference, some "reference cycle"⟩)
      ∧ (∀ k m text, k < maxHops → n.referredAfter? r k = some m →
          m.get? "$ref" = some (.string text) → r.resolve? text m.base = none →
            r.deref n = .error ⟨m.scope, .reference, some text⟩)
      ∧ ∀ k m value, k < maxHops → n.referredAfter? r k = some m →
          m.get? "$ref" = some value → value.string? = none →
            r.deref n = .error ⟨m.scope, .reference, none⟩ := by
  refine ⟨fun t => ⟨fun ht => ?_, ?_⟩, r.deref_of_long n, ?_, ?_, ?_⟩
  · -- All other cases are errors.
    rcases r.end_cases n with ⟨m, hm⟩ | ⟨k, hk, m, hm, hend | ⟨text, htext, hlost⟩ | ⟨value, hvalue, hstring⟩⟩
    · rw [r.deref_of_long n m hm] at ht
      exact absurd ht (by simp only [reduceCtorEq, not_false_eq_true])
    · rw [r.deref_of_end n k hk m hm hend] at ht
      exact ⟨k, hk, m, hm, hend, (Except.ok.inj ht).symm⟩
    · rw [r.deref_of_unresolved n k hk m hm text htext hlost] at ht
      exact absurd ht (by simp only [reduceCtorEq, not_false_eq_true])
    · rw [r.deref_of_not_string n k hk m hm value hvalue hstring] at ht
      exact absurd ht (by simp only [reduceCtorEq, not_false_eq_true])
  · rintro ⟨k, hk, m, hm, hend, rfl⟩
    exact r.deref_of_end n k hk m hm hend
  · intro i j m m' hij hm hm' hbare
    rcases Option.isSome_iff_exists.mp
      (r.isSome_of_repetition n i j hij m m' hm hm' hbare maxHops) with ⟨last, hlast⟩
    exact ⟨last, hlast, r.deref_of_long n last hlast⟩
  · exact fun k m text hk hm htext hlost => r.deref_of_unresolved n k hk m hm text htext hlost
  · exact fun k m value hk hm hvalue hstring => r.deref_of_not_string n k hk m hm value hvalue hstring

/-- The address of a document with a long chain of references. -/
def relayAddress : Uri := ⟨"http", some (.ofHost "relay"), .segments ["a"], none, none⟩

/-- A schema that is a reference to another one in its document. -/
def pointing (name : String) : Json := .object [("$ref", .string ("\x23/" ++ name))]

/-- A chain of stations with 32 hops from the first one to the goal, a station
    that refers to itself, one that refers to nothing, and one whose reference is
    no text. -/
def relayDocument : Json :=
  .object (((List.range 32).map fun i => ("s" ++ toString i, pointing ("s" ++ toString (i + 1))))
    ++ [("s32", .object [("type", .string "string")]), ("loop", pointing "loop"),
      ("lost", pointing "nowhere"), ("odd", .object [("$ref", .bool true)])])

/-- The registry of that document. -/
def relay : Registry := ⟨[(relayAddress, relayDocument)], [], []⟩

/-- A member of the document, with an exclusion. -/
def station (name : String) (value : Json) : Node :=
  ⟨value, relayAddress, "/" ++ name, relayAddress, some "http://relay/b"⟩

/-- The goal of the chain. -/
def goal : Node := station "s32" (.object [("type", .string "string")])

theorem referredAfter?_first :
    (station "s0" (pointing "s1")).referredAfter? relay maxHops = some goal.bare := by
  decide +kernel

/-- The second station has 31 hops in front of it, and the goal is found with the
    exclusion of the station. The first station has 32 and is taken to be in a
    cycle, as the station that refers to itself. The other two break off at once. -/
theorem deref_chain_relay :
    (station "s1" (pointing "s2")).referredAfter? relay 31 = some goal.bare
      ∧ relay.deref (station "s1" (pointing "s2")) = .ok goal
      ∧ relay.deref (station "s0" (pointing "s1"))
        = .error ⟨goal.scope, .reference, some "reference cycle"⟩
      ∧ relay.deref (station "loop" (pointing "loop"))
        = .error ⟨(station "loop" .null).scope, .reference, some "reference cycle"⟩
      ∧ relay.deref (station "lost" (pointing "nowhere"))
        = .error ⟨(station "lost" .null).scope, .reference, some "\x23/nowhere"⟩
      ∧ relay.deref (station "odd" (.object [("$ref", .bool true)]))
        = .error ⟨(station "odd" .null).scope, .reference, none⟩ := by
  have hnear : (station "s1" (pointing "s2")).referredAfter? relay 31 = some goal.bare := by
    decide +kernel
  have hloop : (station "loop" (pointing "loop")).referredAfter? relay 1
      = some (station "loop" (pointing "loop")).bare := by
    decide +kernel
  refine ⟨hnear, ?_, ?_, ?_, ?_, ?_⟩
  · exact ((deref_chain relay _).1 goal).mpr ⟨31, by decide, goal.bare, hnear, rfl, rfl⟩
  · exact (deref_chain relay _).2.1 goal.bare referredAfter?_first
  · obtain ⟨last, hlast, herror⟩ := (deref_chain relay _).2.2.1 0 1 _ _ (by decide) rfl hloop rfl
    have hsame : (station "loop" (pointing "loop")).referredAfter? relay maxHops
        = some (station "loop" (pointing "loop")).bare := by
      decide +kernel
    rw [herror, Option.some.inj (hlast.symm.trans hsame)]
    rfl
  · exact (deref_chain relay _).2.2.2.1 0 (station "lost" (pointing "nowhere")) "\x23/nowhere"
      (by decide) rfl rfl (by decide +kernel)
  · exact (deref_chain relay _).2.2.2.2 0 (station "odd" (.object [("$ref", .bool true)]))
      (.bool true) (by decide) rfl rfl rfl

/-- The chain from the first station ends after 32 hops at a node without a
    reference, and nevertheless it is reported as a cycle. -/
theorem deref_relay_full :
    (station "s0" (pointing "s1")).referredAfter? relay maxHops = some goal.bare
      ∧ goal.bare.get? "$ref" = none
      ∧ relay.deref (station "s0" (pointing "s1")) ≠ .ok goal := by
  refine ⟨referredAfter?_first, rfl, ?_⟩
  rw [relay.deref_of_long _ goal.bare referredAfter?_first]
  simp only [ne_eq, reduceCtorEq, not_false_eq_true]

end Registry

end OpenApi
