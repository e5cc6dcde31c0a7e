import Mathlib.Algebra.Order.Floor.Ring
import Mathlib.Algebra.Order.Round
import Mathlib.Data.Int.Log
import Mathlib.Data.Rat.Floor
import Mathlib.Tactic.Positivity
import Mathlib.Tactic.Linarith
import Mathlib.Tactic.FieldSimp
import Mathlib.Tactic.Ring

/-!
# Rounding to binary floating point

The rounding of a rational number that is not negative to `p` binary digits: to the nearest
such number, and to the one with the even mantissa if there are two.  The exponent is not
bounded, so this is a binary format as long as its exponents suffice.

* `nearestEven` rounds to an integer.
* `ulp` is the distance of the numbers with `p` digits around a number, and `rounded` the
  nearest of them.
* `rounded_mono` says that the rounding is monotone, and `rounded_of_representable` that it
  keeps what has `p` digits.
* `rounded_add_of_lt_one` is the addition of less than 1 to a number so large that it gets
  lost.
-/

namespace Rounding

/-! ## The nearest integer -/

/-- The nearest integer, and the even one of two. -/
def nearestEven (x : ℚ) : ℤ :=
  if x - ⌊x⌋ < 1 / 2 then ⌊x⌋
  else if 1 / 2 < x - ⌊x⌋ then ⌊x⌋ + 1
  else if ⌊x⌋ % 2 = 0 then ⌊x⌋ else ⌊x⌋ + 1

theorem nearestEven_eq (x : ℚ) : nearestEven x = ⌊x⌋ ∨ nearestEven x = ⌊x⌋ + 1 := by
  unfold nearestEven
  split
  · exact .inl rfl
  · split
    · exact .inr rfl
    · split
      · exact .inl rfl
      · exact .inr rfl

theorem le_nearestEven {x : ℚ} {n : ℤ} (h : (n : ℚ) ≤ x) : n ≤ nearestEven x := by
  have hfloor : n ≤ ⌊x⌋ := Int.le_floor.mpr h
  rcases nearestEven_eq x with heq | heq
  · omega
  · omega

@[simp] theorem nearestEven_intCast (n : ℤ) : nearestEven n = n := by
  have hfract : (n : ℚ) - ⌊(n : ℚ)⌋ < 1 / 2 := by
    rw [Int.floor_intCast, sub_self]
    norm_num
  rw [nearestEven, if_pos hfract, Int.floor_intCast]

theorem nearestEven_of_near {x : ℚ} {n : ℤ} (hle : (n : ℚ) ≤ x) (hlt : x < n + 1 / 2) :
    nearestEven x = n := by
  have hfloor : ⌊x⌋ = n := Int.floor_eq_iff.mpr ⟨hle, by linarith⟩
  have hfract : x - ⌊x⌋ < 1 / 2 := by
    rw [hfloor]
    linarith
  rw [nearestEven, if_pos hfract, hfloor]

theorem nearestEven_mono {x y : ℚ} (h : x ≤ y) : nearestEven x ≤ nearestEven y := by
  rcases (Int.floor_mono h).lt_or_eq with hlt | heq
  · have hbelow : nearestEven x ≤ ⌊x⌋ + 1 := by
      rcases nearestEven_eq x with hx | hx
      · omega
      · omega
    have habove : ⌊y⌋ ≤ nearestEven y := le_nearestEven (Int.floor_le y)
    omega
  · -- between the same two integers the larger number is the first to be rounded up
    unfold nearestEven
    rw [← heq]
    split
    · split
      · exact le_rfl
      · split
        · omega
        · split
          · exact le_rfl
          · omega
    · rename_i hx
      have hy : ¬ y - ⌊x⌋ < 1 / 2 := by linarith
      rw [if_neg hy]
      split
      · rename_i hup
        rw [if_pos (by linarith)]
      · split
        · split
          · omega
          · exact le_rfl
        · split
          · exact le_rfl
          · exact le_rfl

theorem nearestEven_le {x : ℚ} {n : ℤ} (h : x ≤ n) : nearestEven x ≤ n :=
  (nearestEven_mono h).trans (nearestEven_intCast n).le

/-! ## Numbers with `p` digits -/

variable {p : ℕ} {x y : ℚ}

/-- The distance of the numbers with `p` digits around `x`. -/
def ulp (p : ℕ) (x : ℚ) : ℚ :=
  2 ^ (Int.log 2 x + 1 - p)

/-- The nearest number with `p` digits. -/
def rounded (p : ℕ) (x : ℚ) : ℚ :=
  nearestEven (x / ulp p x) * ulp p x

/-- A number with `p` digits. -/
def Representable (p : ℕ) (x : ℚ) : Prop :=
  ∃ (m : ℕ) (e : ℤ), m ≤ 2 ^ p ∧ x = m * 2 ^ e

theorem ulp_pos (p : ℕ) (x : ℚ) : 0 < ulp p x := zpow_pos two_pos _

theorem two_pow_mul_ulp (p : ℕ) (x : ℚ) : 2 ^ p * ulp p x = 2 ^ (Int.log 2 x + 1) := by
  rw [ulp, ← zpow_natCast, ← zpow_add₀ two_ne_zero]
  congr 1
  omega

theorem two_pow_pred_mul_ulp (hp : 0 < p) (x : ℚ) : 2 ^ (p - 1) * ulp p x = 2 ^ Int.log 2 x := by
  rw [ulp, ← zpow_natCast, ← zpow_add₀ two_ne_zero]
  congr 1
  omega

@[simp] theorem rounded_zero (p : ℕ) : rounded p 0 = 0 := by
  have hzero : nearestEven 0 = 0 := nearestEven_intCast 0
  rw [rounded, zero_div, hzero, Int.cast_zero, zero_mul]

theorem lt_two_zpow (x : ℚ) : x < 2 ^ (Int.log 2 x + 1) :=
  Int.lt_zpow_succ_log_self one_lt_two x

theorem two_zpow_le (hx : 0 < x) : 2 ^ Int.log 2 x ≤ x :=
  Int.zpow_log_le_self one_lt_two hx

/-- A number is rounded to at most the power of 2 above it. -/
theorem rounded_le (p : ℕ) (x : ℚ) : rounded p x ≤ 2 ^ (Int.log 2 x + 1) := by
  have hquotient : x / ulp p x ≤ ((2 ^ p : ℤ) : ℚ) := by
    rw [div_le_iff₀ (ulp_pos p x)]
    push_cast
    rw [two_pow_mul_ulp]
    exact (lt_two_zpow x).le
  have hnearest : (nearestEven (x / ulp p x) : ℚ) ≤ ((2 ^ p : ℤ) : ℚ) :=
    Int.cast_le.mpr (nearestEven_le hquotient)
  calc rounded p x ≤ ((2 ^ p : ℤ) : ℚ) * ulp p x :=
        mul_le_mul_of_nonneg_right hnearest (ulp_pos p x).le
    _ = 2 ^ (Int.log 2 x + 1) := by
        push_cast
        exact two_pow_mul_ulp p x

/-- And to no less than the one below it. -/
theorem le_rounded (hp : 0 < p) (hx : 0 < x) : 2 ^ Int.log 2 x ≤ rounded p x := by
  have hquotient : ((2 ^ (p - 1) : ℤ) : ℚ) ≤ x / ulp p x := by
    rw [le_div_iff₀ (ulp_pos p x)]
    push_cast
    rw [two_pow_pred_mul_ulp hp]
    exact two_zpow_le hx
  have hnearest : ((2 ^ (p - 1) : ℤ) : ℚ) ≤ (nearestEven (x / ulp p x) : ℚ) :=
    Int.cast_le.mpr (le_nearestEven hquotient)
  calc (2 : ℚ) ^ Int.log 2 x = ((2 ^ (p - 1) : ℤ) : ℚ) * ulp p x := by
        push_cast
        exact (two_pow_pred_mul_ulp hp x).symm
    _ ≤ rounded p x := mul_le_mul_of_nonneg_right hnearest (ulp_pos p x).le

theorem rounded_nonneg (p : ℕ) (hx : 0 ≤ x) : 0 ≤ rounded p x := by
  have hquotient : ((0 : ℤ) : ℚ) ≤ x / ulp p x := by
    rw [Int.cast_zero]
    exact div_nonneg hx (ulp_pos p x).le
  exact mul_nonneg (Int.cast_nonneg (le_nearestEven hquotient)) (ulp_pos p x).le

/-- The rounding is monotone: within a power of 2 it is the one to integers, and the powers of
2 themselves are kept. -/
theorem rounded_mono (hp : 0 < p) (hx : 0 ≤ x) (h : x ≤ y) : rounded p x ≤ rounded p y := by
  rcases hx.eq_or_lt with rfl | hpos
  · rw [rounded_zero]
    exact rounded_nonneg p h
  · rcases (Int.log_mono_right hpos h).lt_or_eq with hlt | heq
    · calc rounded p x ≤ 2 ^ (Int.log 2 x + 1) := rounded_le p x
        _ ≤ 2 ^ Int.log 2 y := zpow_le_zpow_right₀ one_le_two hlt
        _ ≤ rounded p y := le_rounded hp (hpos.trans_le h)
    · have hulp : ulp p x = ulp p y := by rw [ulp, ulp, heq]
      rw [rounded, rounded, ← hulp]
      refine mul_le_mul_of_nonneg_right ?_ (ulp_pos p x).le
      exact Int.cast_le.mpr (nearestEven_mono (div_le_div_of_nonneg_right h (ulp_pos p x).le))

theorem representable_rounded (p : ℕ) (hx : 0 ≤ x) : Representable p (rounded p x) := by
  have hquotient : ((0 : ℤ) : ℚ) ≤ x / ulp p x := by
    rw [Int.cast_zero]
    exact div_nonneg hx (ulp_pos p x).le
  have hnonneg : 0 ≤ nearestEven (x / ulp p x) := le_nearestEven hquotient
  refine ⟨(nearestEven (x / ulp p x)).toNat, Int.log 2 x + 1 - p, ?_, ?_⟩
  · have hle : nearestEven (x / ulp p x) ≤ (2 ^ p : ℤ) := by
      refine nearestEven_le ?_
      rw [div_le_iff₀ (ulp_pos p x)]
      push_cast
      rw [two_pow_mul_ulp]
      exact (lt_two_zpow x).le
    zify
    rwa [Int.toNat_of_nonneg hnonneg]
  · rw [← Int.cast_natCast, Int.toNat_of_nonneg hnonneg]
    rfl

/-- The logarithm of a number by its digits. -/
theorem log_mul_zpow {m : ℕ} (hm : 0 < m) (e : ℤ) :
    Int.log 2 ((m : ℚ) * 2 ^ e) = Nat.log 2 m + e := by
  have hpow : (0 : ℚ) < 2 ^ e := zpow_pos two_pos e
  have hpos : (0 : ℚ) < m * 2 ^ e := mul_pos (Nat.cast_pos.mpr hm) hpow
  have hbelow : Nat.log 2 m + e ≤ Int.log 2 ((m : ℚ) * 2 ^ e) := by
    rw [← Int.zpow_le_iff_le_log one_lt_two hpos]
    push_cast
    rw [zpow_add₀ two_ne_zero, zpow_natCast]
    refine mul_le_mul_of_nonneg_right ?_ hpow.le
    exact_mod_cast Nat.pow_log_le_self 2 hm.ne'
  have habove : Int.log 2 ((m : ℚ) * 2 ^ e) < Nat.log 2 m + e + 1 := by
    rw [← Int.lt_zpow_iff_log_lt one_lt_two hpos]
    push_cast
    rw [add_right_comm, zpow_add₀ two_ne_zero]
    refine mul_lt_mul_of_pos_right ?_ hpow
    exact_mod_cast Nat.lt_pow_succ_log_self one_lt_two m
  omega

/-- A number with `p` digits is a multiple of the distance around it. -/
theorem Representable.eq_mul_ulp (hp : 0 < p) (h : Representable p x) :
    ∃ n : ℕ, x = n * ulp p x := by
  obtain ⟨m, e, hm, rfl⟩ := h
  rcases Nat.eq_zero_or_pos m with rfl | hpos
  · exact ⟨0, by simp⟩
  · rw [ulp, log_mul_zpow hpos]
    rcases hm.eq_or_lt with rfl | hlt
    · refine ⟨2 ^ (p - 1), ?_⟩
      rw [Nat.log_pow one_lt_two]
      push_cast
      rw [← zpow_natCast, ← zpow_natCast, ← zpow_add₀ two_ne_zero, ← zpow_add₀ two_ne_zero]
      congr 1
      omega
    · have hlog : Nat.log 2 m < p := Nat.log_lt_of_lt_pow hpos.ne' hlt
      refine ⟨m * 2 ^ (p - 1 - Nat.log 2 m), ?_⟩
      push_cast
      rw [mul_assoc, ← zpow_natCast, ← zpow_add₀ two_ne_zero]
      congr 2
      omega

theorem rounded_of_representable (hp : 0 < p) (h : Representable p x) : rounded p x = x := by
  obtain ⟨n, hn⟩ := h.eq_mul_ulp hp
  have hquotient : x / ulp p x = ((n : ℤ) : ℚ) := by
    rw [div_eq_iff (ulp_pos p x).ne', Int.cast_natCast]
    exact hn
  rw [rounded, hquotient, nearestEven_intCast, Int.cast_natCast]
  exact hn.symm

theorem representable_natCast {n : ℕ} (h : n ≤ 2 ^ p) : Representable p n :=
  ⟨n, 0, h, by rw [zpow_zero, mul_one]⟩

theorem rounded_natCast (hp : 0 < p) {n : ℕ} (h : n ≤ 2 ^ p) : rounded p n = n :=
  rounded_of_representable hp (representable_natCast h)

theorem rounded_rounded (hp : 0 < p) (hx : 0 ≤ x) : rounded p (rounded p x) = rounded p x :=
  rounded_of_representable hp (representable_rounded p hx)

/-! ## Large numbers -/

/-- From `2 ^ p` on there are only integers with `p` digits, and they are even. -/
theorem Representable.two_dvd (hp : 0 < p) (h : Representable p x) (hlarge : 2 ^ p ≤ x) :
    ∃ n : ℕ, x = n ∧ 2 ≤ ulp p x := by
  obtain ⟨n, hn⟩ := h.eq_mul_ulp hp
  have hpos : 0 < x := lt_of_lt_of_le (by positivity) hlarge
  have hlog : (p : ℤ) ≤ Int.log 2 x := by
    rw [← Int.zpow_le_iff_le_log one_lt_two hpos]
    push_cast
    rwa [zpow_natCast]
  obtain ⟨k, hk⟩ := Int.le.dest hlog
  have hulp : ulp p x = ((2 ^ (k + 1) : ℕ) : ℚ) := by
    rw [ulp, ← hk]
    push_cast
    rw [← zpow_natCast]
    congr 1
    push_cast
    omega
  refine ⟨n * 2 ^ (k + 1), ?_, ?_⟩
  · rw [Nat.cast_mul, ← hulp]
    exact hn
  · rw [hulp]
    have hpow : 2 ^ 1 ≤ 2 ^ (k + 1) := Nat.pow_le_pow_right (by decide) (by omega)
    exact_mod_cast hpow

/-- What is less than 1 is lost beside such a number. -/
theorem rounded_add_of_lt_one (hp : 0 < p) (hx : Representable p x) (hlarge : 2 ^ p ≤ x)
    (hy : 0 ≤ y) (hlt : y < 1) : rounded p (x + y) = x := by
  obtain ⟨n, hn, htwo⟩ := hx.two_dvd hp hlarge
  obtain ⟨m, hm⟩ := hx.eq_mul_ulp hp
  have hone : 1 ≤ x := le_trans (one_le_pow₀ one_le_two) hlarge
  have hfloor : ⌊x + y⌋₊ = ⌊x⌋₊ := by
    rw [hn, Nat.floor_natCast, Nat.floor_eq_iff (by positivity)]
    constructor
    · linarith
    · linarith
  have hlog : Int.log 2 (x + y) = Int.log 2 x := by
    rw [Int.log_of_one_le_right _ hone, Int.log_of_one_le_right _ (by linarith), hfloor]
  have hulp : ulp p (x + y) = ulp p x := by rw [ulp, ulp, hlog]
  have hpos := ulp_pos p x
  have hquotient : (x + y) / ulp p x = m + y / ulp p x := by
    rw [add_div, div_eq_iff hpos.ne' |>.mpr hm]
  have hpart : y / ulp p x < 1 / 2 := by
    rw [div_lt_iff₀ hpos]
    linarith
  have hnearest : nearestEven (m + y / ulp p x) = m := by
    refine nearestEven_of_near ?_ ?_
    · push_cast
      linarith [div_nonneg hy hpos.le]
    · push_cast
      linarith
  rw [rounded, hulp, hquotient, hnearest, Int.cast_natCast]
  exact hm.symm

end Rounding
