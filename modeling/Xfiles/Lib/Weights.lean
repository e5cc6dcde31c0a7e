import Mathlib.Algebra.BigOperators.Ring.List
import Mathlib.Algebra.Order.BigOperators.Group.List
import Mathlib.Algebra.Order.Field.Basic

/-!
# Weights over a list

Items with weights, and the two operations that a sampler applies to them
before it draws: division by the sum, and a factor for each item.

* `normalize` divides by the sum if it is positive.  `share` is what it does to
  one weight, and keeps zeros, signs and the order of the weights.
* `Normal` says that the weights are not negative, and that they sum to one as
  soon as one is positive.  `normal_normalize` needs the first half only.
* `scale` multiplies the weight of each item by a factor.
* `weighted` gives each item the weight that a function has for it.

An item may occur several times.
-/

namespace Weights

variable {α K : Type*}

/-- Items with the weights that a function gives them. -/
def weighted (weight : α → K) (items : List α) : List (α × K) :=
  items.map fun c => (c, weight c)

theorem mem_weighted {weight : α → K} {items : List α} {c : α} {w : K} :
    (c, w) ∈ weighted weight items ↔ c ∈ items ∧ weight c = w := by
  unfold weighted
  constructor
  · intro h
    obtain ⟨c', hmem, heq⟩ := List.mem_map.mp h
    obtain ⟨rfl, rfl⟩ := Prod.mk.inj heq
    exact ⟨hmem, rfl⟩
  · rintro ⟨hmem, rfl⟩
    exact List.mem_map_of_mem hmem

variable [Field K]

def total (l : List (α × K)) : K := (l.map Prod.snd).sum

@[simp] theorem total_cons (e : α × K) (l : List (α × K)) : total (e :: l) = e.2 + total l :=
  List.sum_cons

def scale (factor : α → K) (l : List (α × K)) : List (α × K) :=
  l.map fun e => (e.1, e.2 * factor e.1)

theorem scale_of_one {factor : α → K} (h : ∀ a, factor a = 1) (l : List (α × K)) :
    scale factor l = l := by
  rw [scale, List.map_congr_left fun e _ => congrArg (e.1, ·) (by rw [h, mul_one])]
  exact List.map_id _

theorem scale_mul (factor : α → K) (l : List (α × K)) (k : K) :
    scale factor (l.map fun e => (e.1, e.2 * k)) =
      (scale factor l).map fun e => (e.1, e.2 * k) := by
  rw [scale, scale, List.map_map, List.map_map]
  exact List.map_congr_left fun e _ => Prod.ext rfl (mul_right_comm _ _ _)

section

variable [LinearOrder K]

/-- A weight after the division. -/
def share (l : List (α × K)) (weight : K) : K :=
  if 0 < total l then weight / total l else weight

def normalize (l : List (α × K)) : List (α × K) :=
  l.map fun e => (e.1, share l e.2)

structure Normal (l : List (α × K)) : Prop where
  nonneg : ∀ e ∈ l, 0 ≤ e.2
  total : (∃ e ∈ l, 0 < e.2) → total l = 1

theorem total_normalize {l : List (α × K)} (hpos : 0 < total l) : total (normalize l) = 1 := by
  have hweights : (normalize l).map Prod.snd = (l.map Prod.snd).map (· * (total l)⁻¹) := by
    rw [normalize, List.map_map, List.map_map]
    refine List.map_congr_left fun e _ => ?_
    show share l e.2 = e.2 * (total l)⁻¹
    rw [share, if_pos hpos, div_eq_mul_inv]
  rw [total, hweights, List.sum_map_mul_right, List.map_id']
  exact mul_inv_cancel₀ hpos.ne'

/-- The division by the sum is done once. -/
theorem normalize_normalize (l : List (α × K)) : normalize (normalize l) = normalize l := by
  by_cases hpos : 0 < total l
  · have hone : ∀ weight : K, share (normalize l) weight = weight := by
      intro weight
      rw [share, total_normalize hpos, div_one, ite_self]
    rw [normalize, List.map_congr_left fun e _ => congrArg (e.1, ·) (hone e.2)]
    exact List.map_id _
  · have hsame : normalize l = l := by
      rw [normalize, List.map_congr_left fun e _ => congrArg (e.1, ·) (if_neg hpos)]
      exact List.map_id _
    rw [hsame, hsame]

theorem share_eq_zero_iff (l : List (α × K)) (weight : K) : share l weight = 0 ↔ weight = 0 := by
  unfold share
  split
  · rename_i hpos
    rw [div_eq_zero_iff, or_iff_left hpos.ne']
  · rfl

/-- Factors and the division in one. -/
theorem normalize_scale (factor : α → K) (l : List (α × K)) :
    normalize (scale factor l) =
      l.map fun e => (e.1, share (scale factor l) (e.2 * factor e.1)) := by
  rw [normalize]
  conv_lhs => rw [scale, List.map_map]
  rfl

end

/-! ## Weights that are not negative -/

variable [LinearOrder K] [IsStrictOrderedRing K] {l : List (α × K)}

theorem total_pos (hnonneg : ∀ e ∈ l, 0 ≤ e.2) (hpos : ∃ e ∈ l, 0 < e.2) : 0 < total l := by
  obtain ⟨e, he, hweight⟩ := hpos
  refine lt_of_lt_of_le hweight (List.single_le_sum ?_ _ (List.mem_map_of_mem he))
  intro weight hmem
  obtain ⟨e', he', rfl⟩ := List.mem_map.mp hmem
  exact hnonneg e' he'

theorem exists_pos (hpos : 0 < total l) : ∃ e ∈ l, 0 < e.2 := by
  have hzero : (l.map fun _ => (0 : K)).sum = 0 := by
    simp
  exact List.exists_lt_of_sum_lt _ _ (hzero.trans_lt hpos)

theorem share_nonneg {weight : K} (h : 0 ≤ weight) : 0 ≤ share l weight := by
  unfold share
  split
  · rename_i hpos
    exact div_nonneg h hpos.le
  · exact h

theorem share_pos_iff (l : List (α × K)) (weight : K) : 0 < share l weight ↔ 0 < weight := by
  unfold share
  split
  · rename_i hpos
    exact div_pos_iff_of_pos_right hpos
  · rfl

/-- The division is one factor for all weights. -/
theorem normalize_eq_mul (l : List (α × K)) :
    ∃ k, 0 < k ∧ normalize l = l.map fun e => (e.1, e.2 * k) := by
  by_cases hpos : 0 < total l
  · refine ⟨(total l)⁻¹, inv_pos.mpr hpos, List.map_congr_left fun e _ => ?_⟩
    rw [share, if_pos hpos, div_eq_mul_inv]
  · refine ⟨1, one_pos, List.map_congr_left fun e _ => ?_⟩
    rw [share, if_neg hpos, mul_one]

theorem share_le_share {weight weight' : K} (h : weight ≤ weight') :
    share l weight ≤ share l weight' := by
  unfold share
  split
  · rename_i hpos
    exact (div_le_div_iff_of_pos_right hpos).mpr h
  · exact h

theorem normal_normalize (hnonneg : ∀ e ∈ l, 0 ≤ e.2) : Normal (normalize l) where
  nonneg e he := by
    obtain ⟨e', he', rfl⟩ := List.mem_map.mp he
    exact share_nonneg (hnonneg e' he')
  total := by
    rintro ⟨e, he, hweight⟩
    obtain ⟨e', he', rfl⟩ := List.mem_map.mp he
    exact total_normalize (total_pos hnonneg ⟨e', he', (share_pos_iff l e'.2).mp hweight⟩)

theorem scale_nonneg {factor : α → K} (hfactor : ∀ a, 0 ≤ factor a)
    (hnonneg : ∀ e ∈ l, 0 ≤ e.2) : ∀ e ∈ scale factor l, 0 ≤ e.2 := by
  intro e he
  obtain ⟨e', he', rfl⟩ := List.mem_map.mp he
  exact mul_nonneg (hnonneg e' he') (hfactor e'.1)

/-- Positive factors leave a positive sum positive. -/
theorem total_scale_pos {factor : α → K} (hfactor : ∀ a, 0 < factor a)
    (hnonneg : ∀ e ∈ l, 0 ≤ e.2) (hpos : 0 < total l) : 0 < total (scale factor l) := by
  obtain ⟨e, he, hweight⟩ := exists_pos hpos
  refine total_pos (scale_nonneg (fun a => (hfactor a).le) hnonneg) ?_
  exact ⟨_, List.mem_map_of_mem he, mul_pos hweight (hfactor e.1)⟩

end Weights
