import Mathlib.Analysis.InnerProductSpace.Basic
import Mathlib.Analysis.Normed.Affine.AddTorsor

/-!
# Squared norms under a homothety

A homothety with factor `s` between zero and one moves every point toward its
center `u`.  The distance to the center shrinks by that factor
(`dist_homothety_center`).  This module is about what happens to the squared
norm of the point, compared with that of the center.

* `excess u s x` is the difference of the two squared norms after the step.
  `excess_eq` splits it into a part that is linear in `s` and a quadratic one.
* `abs_excess_le_iff` says when the step does not move the squared norm away from
  that of the center.
* `sq_norm_homothety` is the squared norm itself, by the point before the step.
-/

namespace Homothety

open AffineMap (homothety homothety_apply)

open scoped RealInnerProductSpace

variable {V : Type*} [NormedAddCommGroup V] [InnerProductSpace ℝ V]

theorem homothety_eq (u : V) (s : ℝ) (x : V) :
    homothety u s x = s • x + (1 - s) • u := by
  rw [homothety_apply, vsub_eq_sub, vadd_eq_add, smul_sub, sub_smul, one_smul]
  abel

/-! ## The excess over the center -/

/-- How far the squared norm is above that of the center, after the step. -/
noncomputable def excess (u : V) (s : ℝ) (x : V) : ℝ := ‖homothety u s x‖ ^ 2 - ‖u‖ ^ 2

/-- Twice the component of the offset along the center. -/
noncomputable def slope (u x : V) : ℝ := 2 * ⟪u, x - u⟫

variable (u x : V) (s : ℝ)

@[simp] theorem excess_one : excess u 1 x = ‖x‖ ^ 2 - ‖u‖ ^ 2 := by
  rw [excess, AffineMap.homothety_one, AffineMap.id_apply]

theorem excess_eq : excess u s x = s * slope u x + s ^ 2 * ‖x - u‖ ^ 2 := by
  have hsplit : homothety u s x = u + s • (x - u) := by
    rw [homothety_apply, vsub_eq_sub, vadd_eq_add, add_comm]
  rw [excess, hsplit, norm_add_sq_real, real_inner_smul_right, norm_smul, mul_pow,
    Real.norm_eq_abs, sq_abs, slope]
  ring

/-- The excess before and after the step. -/
theorem excess_one_eq : excess u 1 x = slope u x + ‖x - u‖ ^ 2 := by
  rw [excess_eq, one_mul, one_pow, one_mul]

variable {u x s}

/-- Above the center the squared norm can only end up too far below. -/
theorem abs_excess_le_iff_of_nonneg (hs : s ∈ Set.Icc (0 : ℝ) 1) (hx : 0 ≤ excess u 1 x) :
    |excess u s x| ≤ |excess u 1 x| ↔
      0 ≤ (1 + s) * slope u x + (1 + s ^ 2) * ‖x - u‖ ^ 2 := by
  rw [abs_of_nonneg hx, abs_le]
  rw [excess_one_eq] at hx ⊢
  rw [excess_eq]
  have hspread : 0 ≤ ‖x - u‖ ^ 2 := sq_nonneg _
  -- the step never raises the squared norm here
  have hup : s * slope u x + s ^ 2 * ‖x - u‖ ^ 2 ≤ slope u x + ‖x - u‖ ^ 2 := by
    have hgain : 0 ≤ (1 - s) * (slope u x + (1 + s) * ‖x - u‖ ^ 2) :=
      mul_nonneg (sub_nonneg.mpr hs.2) (by linarith [mul_nonneg hs.1 hspread])
    linarith
  constructor
  · rintro ⟨hlow, -⟩
    linarith
  · intro h
    exact ⟨by linarith, hup⟩

/-- Below the center it can only end up lower still. -/
theorem abs_excess_le_iff_of_neg (hs : s ∈ Set.Icc (0 : ℝ) 1) (hx : excess u 1 x < 0) :
    |excess u s x| ≤ |excess u 1 x| ↔ s = 1 ∨ slope u x + (1 + s) * ‖x - u‖ ^ 2 ≤ 0 := by
  rw [abs_of_neg hx, abs_le, neg_neg]
  rw [excess_one_eq] at hx ⊢
  rw [excess_eq]
  have hspread : 0 ≤ ‖x - u‖ ^ 2 := sq_nonneg _
  have hdown : s * slope u x + s ^ 2 * ‖x - u‖ ^ 2 ≤ -(slope u x + ‖x - u‖ ^ 2) := by
    have hloss : (1 + s) * (slope u x + ‖x - u‖ ^ 2) ≤ 0 :=
      mul_nonpos_of_nonneg_of_nonpos (by linarith [hs.1]) hx.le
    have hsquare : 0 ≤ s * (1 - s) * ‖x - u‖ ^ 2 :=
      mul_nonneg (mul_nonneg hs.1 (sub_nonneg.mpr hs.2)) hspread
    linarith
  have hfactor : slope u x + ‖x - u‖ ^ 2 ≤ s * slope u x + s ^ 2 * ‖x - u‖ ^ 2 ↔
      (1 - s) * (slope u x + (1 + s) * ‖x - u‖ ^ 2) ≤ 0 := by
    constructor <;> intro h <;> linarith
  rw [hfactor]
  constructor
  · rintro ⟨h, -⟩
    rcases hs.2.eq_or_lt with hone | hlt
    · exact .inl hone
    · exact .inr (nonpos_of_mul_nonpos_right h (sub_pos.mpr hlt))
  · rintro (rfl | h)
    · exact ⟨by simp, hdown⟩
    · exact ⟨mul_nonpos_of_nonneg_of_nonpos (sub_nonneg.mpr hs.2) h, hdown⟩

/-- When the step does not move the squared norm away from that of the center. -/
theorem abs_excess_le_iff (hs : s ∈ Set.Icc (0 : ℝ) 1) :
    |excess u s x| ≤ |excess u 1 x| ↔
      (0 ≤ excess u 1 x ∧ 0 ≤ (1 + s) * slope u x + (1 + s ^ 2) * ‖x - u‖ ^ 2) ∨
      (excess u 1 x < 0 ∧ (s = 1 ∨ slope u x + (1 + s) * ‖x - u‖ ^ 2 ≤ 0)) := by
  rcases le_or_gt 0 (excess u 1 x) with habove | hbelow
  · rw [abs_excess_le_iff_of_nonneg hs habove]
    simp only [habove, not_lt.mpr habove, true_and, false_and, or_false]
  · rw [abs_excess_le_iff_of_neg hs hbelow]
    simp only [hbelow, not_le.mpr hbelow, true_and, false_and, false_or]

/-- A point that lies no less far along the center than the center itself. -/
theorem abs_excess_le_of_slope_nonneg (hs : s ∈ Set.Icc (0 : ℝ) 1) (hx : 0 ≤ slope u x) :
    |excess u s x| ≤ |excess u 1 x| := by
  have hspread : 0 ≤ ‖x - u‖ ^ 2 := sq_nonneg _
  have habove : 0 ≤ excess u 1 x := by
    rw [excess_one_eq]
    exact add_nonneg hx hspread
  rw [abs_excess_le_iff_of_nonneg hs habove]
  exact add_nonneg (mul_nonneg (by linarith [hs.1]) hx)
    (mul_nonneg (add_nonneg zero_le_one (sq_nonneg s)) hspread)

/-! ## The squared norm -/

/-- The squared norm after the step, in terms of the point before it. -/
theorem sq_norm_homothety (u : V) (s : ℝ) (x : V) :
    ‖homothety u s x‖ ^ 2 =
      (1 - s) ^ 2 * ‖u‖ ^ 2 + 2 * (1 - s) * s * ⟪u, x⟫ + s ^ 2 * ‖x‖ ^ 2 := by
  rw [homothety_eq, add_comm, norm_add_sq_real, real_inner_smul_left, real_inner_smul_right,
    norm_smul, norm_smul, mul_pow, mul_pow, Real.norm_eq_abs, Real.norm_eq_abs, sq_abs, sq_abs]
  ring

end Homothety
