import Mathlib.Data.Nat.Basic
import OpenApi.Text.CaseFold

/-!
# Folding Twice

What a character folds to does not fold any further. The property is data, so
this is checked on the data, run by run: whatever a run moves is beyond the reach
of every other run, mostly since it is before or behind all of that run.

## Main definitions

* `CaseFold.Run.target`: Where a run moves a code point.
* `CaseFold.Run.apart`: A run does not move what another one has moved.

## Theorems

* `fold_cases`: A code point is moved by a run or stays.
* `fold_fold`: Folding twice is folding once.
-/

namespace OpenApi

namespace CaseFold

namespace Run

/-- Where a run moves a code point. -/
def target (r : Run) (n : Nat) : Nat := ((n : Int) + r.distance).toNat

/-- The code points of a run. -/
def members (r : Run) : List Nat :=
  (List.range ((r.last - r.first) / r.stride + 1)).map fun i => r.first + i * r.stride

/-- Whether no code point that `r` has moved belongs to `s`. -/
def apart (r s : Run) : Bool :=
  Nat.blt (r.target r.last) s.first || Nat.blt s.last (r.target r.first)
    || r.members.all fun n => !s.holds (r.target n)

variable (r s : Run) (n : Nat) (hn : r.holds n = true)

include hn

theorem bounds_of_holds : r.first ≤ n ∧ n ≤ r.last ∧ (n - r.first) % r.stride = 0 := by
  unfold holds at hn
  rw [Bool.and_eq_true, Bool.and_eq_true, decide_eq_true_eq, decide_eq_true_eq, beq_iff_eq] at hn
  exact ⟨hn.1.1, hn.1.2, hn.2⟩

theorem mem_members : n ∈ r.members := by
  rcases r.bounds_of_holds n hn with ⟨hfirst, hlast, hstride⟩
  have hdiv := Nat.div_add_mod (n - r.first) r.stride
  refine List.mem_map.mpr ⟨(n - r.first) / r.stride, List.mem_range.mpr (Nat.lt_succ_of_le
    (Nat.div_le_div_right (Nat.sub_le_sub_right hlast _))), ?_⟩
  rw [hstride, Nat.add_zero, Nat.mul_comm] at hdiv
  rw [hdiv, Nat.add_sub_cancel' hfirst]

theorem target_bounds : r.target r.first ≤ r.target n ∧ r.target n ≤ r.target r.last := by
  rcases r.bounds_of_holds n hn with ⟨hfirst, hlast, _⟩
  unfold target
  omega

theorem not_holds_of_apart (h : r.apart s = true) : s.holds (r.target n) = false := by
  have hbounds := r.target_bounds n hn
  unfold apart at h
  rw [Bool.or_eq_true, Bool.or_eq_true, Nat.blt_eq, Nat.blt_eq, List.all_eq_true] at h
  rw [Bool.eq_false_iff]
  intro hs
  have hreach := s.bounds_of_holds _ hs
  rcases h with (hbefore | hbehind) | hmembers
  · omega
  · omega
  · have hnot := hmembers n (r.mem_members n hn)
    rw [hs] at hnot
    exact absurd hnot Bool.false_ne_true

end Run

theorem apart_runs : (runs.all fun r => runs.all fun s => r.apart s) = true := by decide +kernel

/-- A code point is moved by a run, or it belongs to none and stays. -/
theorem fold_cases (n : Nat) :
    (∃ r ∈ runs, r.holds n = true ∧ fold n = r.target n)
      ∨ ((∀ r ∈ runs, r.holds n = false) ∧ fold n = n) := by
  rcases hfind : runs.find? fun r => r.holds n with _ | r
  · refine Or.inr ⟨fun r hr => ?_, ?_⟩
    · exact Bool.eq_false_iff.mpr (List.find?_eq_none.mp hfind r hr)
    · unfold fold
      rw [hfind]
  · have hholds : r.holds n = true := List.find?_some (p := fun r : Run => r.holds n) hfind
    refine Or.inl ⟨r, List.mem_of_find?_eq_some hfind, hholds, ?_⟩
    unfold fold
    rw [hfind]
    rfl

theorem fold_fold (n : Nat) : fold (fold n) = fold n := by
  rcases fold_cases n with ⟨r, hr, hholds, hfold⟩ | ⟨_, hfold⟩
  · rw [hfold]
    rcases fold_cases (r.target n) with ⟨s, hs, hsholds, _⟩ | ⟨_, hstays⟩
    · have hapart := List.all_eq_true.mp (List.all_eq_true.mp apart_runs r hr) s hs
      rw [r.not_holds_of_apart s n hholds hapart] at hsholds
      exact absurd hsholds Bool.false_ne_true
    · exact hstays
  · rw [hfold, hfold]

end CaseFold

end OpenApi
