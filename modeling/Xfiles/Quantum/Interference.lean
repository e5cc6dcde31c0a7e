import Mathlib
import Xfiles.Lib.Homothety
import Xfiles.Quantum.Bounds

/-!
# Decoherence and interference

What decoherence does to probabilities.

Decoherence is a homothety with center `1 / sqrt n` (`toComplex_decohere_eq`),
so that it brings every amplitude closer to the uniform one.  Probabilities are
squared norms, and these need not follow: an amplitude with a negative real part
passes zero on its way (`probability_overshoots`).

* `decoherence_toward_uniform` says exactly when the probability of an endpoint
  does not move away from `1 / n`.
* `probability_update` is the probability that an update leaves.  The reward
  enters through the average, and through the phase that the observation
  rotates.
* `update_monotone_iff` says exactly when the better of two rewards leaves no
  smaller a probability.  `better_reward_hurts` is a state where it does.
-/

namespace Xfiles.Quantum

open AffineMap (homothety)

open scoped RealInnerProductSpace

/-! ## Decoherence as a homothety -/

theorem toComplex_decohere_eq (uniformMag rate : ℝ) (entry : EndpointState ℝ) :
    (entry.decohere uniformMag rate).amplitude.toComplex =
      homothety (uniformMag : ℂ) (1 - rate) entry.amplitude.toComplex := by
  rw [toComplex_decohere, Homothety.homothety_eq, sub_sub_cancel]

theorem inner_ofReal (u : ℝ) (z : ℂ) : ⟪(u : ℂ), z⟫ = u * z.re := by
  rw [Complex.inner, Complex.conj_ofReal, Complex.re_mul_ofReal, mul_comm]

theorem slope_ofReal (u : ℝ) (z : ℂ) : Homothety.slope (u : ℂ) z = 2 * u * (z.re - u) := by
  rw [Homothety.slope, inner_ofReal, Complex.sub_re, Complex.ofReal_re, mul_assoc]

theorem sq_norm_sub_ofReal (u : ℝ) (z : ℂ) :
    ‖z - (u : ℂ)‖ ^ 2 = (z.re - u) ^ 2 + z.im ^ 2 := by
  rw [Complex.sq_norm, Complex.normSq_apply, Complex.sub_re, Complex.sub_im, Complex.ofReal_re,
    Complex.ofReal_im, sub_zero]
  ring

/-- The square of the uniform magnitude is the uniform probability. -/
theorem sq_norm_uniform (count : Nat) :
    ‖((1 / Real.sqrt count : ℝ) : ℂ)‖ ^ 2 = 1 / count := by
  rw [Complex.norm_real, Real.norm_eq_abs, sq_abs, div_pow, one_pow,
    Real.sq_sqrt (Nat.cast_nonneg count)]

/-! ## Probabilities under decoherence -/

theorem stateOf_applyDecoherence {conv : ConversationState ℝ} {endpointId : String}
    {entry : EndpointState ℝ} (h : conv.endpointStates.lookup endpointId = some entry)
    (rate : ℝ) :
    (conv.applyDecoherence rate).stateOf endpointId =
      entry.decohere (1 / Real.sqrt conv.endpointStates.entries.length) rate := by
  rw [ConversationState.stateOf, ConversationState.applyDecoherence, lookup_mapStates, h]
  rfl

/-- How far the probability of a decohered endpoint is above `1 / n`. -/
theorem probability_decohere_sub (count : Nat) (rate : ℝ) (entry : EndpointState ℝ) :
    (entry.decohere (1 / Real.sqrt count) rate).amplitude.probability - 1 / count =
      Homothety.excess ((1 / Real.sqrt count : ℝ) : ℂ) (1 - rate)
        entry.amplitude.toComplex := by
  rw [probability_eq, toComplex_decohere_eq, Homothety.excess, sq_norm_uniform]

theorem probability_sub (count : Nat) (a : Amplitude ℝ) :
    a.probability - 1 / count =
      Homothety.excess ((1 / Real.sqrt count : ℝ) : ℂ) 1 a.toComplex := by
  rw [probability_eq, Homothety.excess_one, sq_norm_uniform]

/-- Decoherence multiplies the distance of each amplitude to the uniform one by
`1 - rate`.  The probability does not move away from `1 / n` in exactly two
cases: it was no lower, and ends no further below than it was above, or it was
lower, and does not fall.  They include every amplitude that is at least uniform
along the real axis, and the rates zero and one. -/
theorem decoherence_toward_uniform (conv : ConversationState ℝ) (rate : unitInterval)
    {endpointId : String} {entry : EndpointState ℝ}
    (h : conv.endpointStates.lookup endpointId = some entry) :
    let n : ℝ := conv.endpointStates.entries.length
    let u := 1 / Real.sqrt n
    let before := entry.amplitude
    let after := ((conv.applyDecoherence rate.1).stateOf endpointId).amplitude
    let slope := 2 * u * (before.real - u)
    let spread := (before.real - u) ^ 2 + before.imag ^ 2
    dist after.toComplex u = (1 - rate.1) * dist before.toComplex u ∧
    before.probability - 1 / n = slope + spread ∧
    after.probability - 1 / n = (1 - rate.1) * slope + (1 - rate.1) ^ 2 * spread ∧
    (|after.probability - 1 / n| ≤ |before.probability - 1 / n| ↔
      (0 ≤ slope + spread ∧ 0 ≤ (2 - rate.1) * slope + (1 + (1 - rate.1) ^ 2) * spread) ∨
      (slope + spread < 0 ∧ (rate.1 = 0 ∨ slope + (2 - rate.1) * spread ≤ 0))) ∧
    (u ≤ before.real ∨ rate.1 = 0 ∨ rate.1 = 1 →
      |after.probability - 1 / n| ≤ |before.probability - 1 / n|) := by
  intro n u before after slope spread
  have hmem : 1 - rate.1 ∈ Set.Icc (0 : ℝ) 1 :=
    ⟨sub_nonneg.mpr rate.2.2, sub_le_self 1 rate.2.1⟩
  have hafter : after = (entry.decohere u rate.1).amplitude :=
    congrArg EndpointState.amplitude (stateOf_applyDecoherence h rate.1)
  have hslope : Homothety.slope (u : ℂ) before.toComplex = slope := slope_ofReal u _
  have hspread : ‖before.toComplex - (u : ℂ)‖ ^ 2 = spread := sq_norm_sub_ofReal u _
  have hbefore : before.probability - 1 / n = Homothety.excess (u : ℂ) 1 before.toComplex :=
    probability_sub _ before
  have hstep : after.probability - 1 / n =
      Homothety.excess (u : ℂ) (1 - rate.1) before.toComplex := by
    rw [hafter]
    exact probability_decohere_sub _ rate.1 entry
  have hvalue : before.probability - 1 / n = slope + spread := by
    rw [hbefore, Homothety.excess_one_eq, hslope, hspread]
  have hrate : 1 - rate.1 = 1 ↔ rate.1 = 0 := sub_eq_self
  refine ⟨?_, hvalue, ?_, ?_, ?_⟩
  · rw [hafter, toComplex_decohere_eq, dist_homothety_center, Real.norm_of_nonneg hmem.1,
      dist_comm]
  · rw [hstep, Homothety.excess_eq, hslope, hspread]
  · have htwo : 1 + (1 - rate.1) = 2 - rate.1 := by ring
    rw [hstep, hbefore, Homothety.abs_excess_le_iff hmem, ← hbefore, hvalue, hslope, hspread,
      hrate, htwo]
  · rw [hstep, hbefore]
    rintro (hreal | hzero | hone)
    · refine Homothety.abs_excess_le_of_slope_nonneg hmem ?_
      rw [hslope]
      exact mul_nonneg (by positivity) (sub_nonneg.mpr hreal)
    · rw [hrate.mpr hzero]
    · rw [hone, sub_self, Homothety.excess_eq]
      simp

noncomputable def halfRate : unitInterval := ⟨0.5, by norm_num, by norm_num⟩

/-- An amplitude of the opposite sign gets closer to the uniform one too. -/
theorem decoherence_toward_uniform_opposite :
    let conv : ConversationState ℝ := (ConversationState.new 0).put "a" ⟨⟨-1, 0⟩, 0, 0⟩
    let u : ℝ := 1 / Real.sqrt conv.endpointStates.entries.length
    dist ((conv.applyDecoherence halfRate.1).stateOf "a").amplitude.toComplex u =
      (1 - 0.5) * dist (Amplitude.toComplex ⟨-1, 0⟩) (u : ℂ) := by
  intro conv u
  have hlookup : conv.endpointStates.lookup "a" = some ⟨⟨-1, 0⟩, 0, 0⟩ :=
    AList.lookup_insert ∅
  exact (decoherence_toward_uniform conv halfRate hlookup).1

/-- An amplitude of the opposite sign passes zero on its way to the uniform one,
which is then further from its probability. -/
theorem probability_overshoots :
    let conv : ConversationState ℝ := (ConversationState.new 0).put "a" ⟨⟨-1, 0⟩, 0, 0⟩
    let before := (conv.stateOf "a").amplitude.probability
    let after := ((conv.applyDecoherence halfRate.1).stateOf "a").amplitude.probability
    let n : ℝ := conv.endpointStates.entries.length
    (∀ e ∈ conv.endpointStates.entries, e.2.amplitude.probability ≤ 1) ∧ n = 1 ∧
      ¬ |after - 1 / n| ≤ |before - 1 / n| := by
  intro conv before after n
  have hn : n = 1 := Nat.cast_one
  have hbefore : before = 1 := by
    show (-1 : ℝ) * -1 + 0 * 0 = 1
    norm_num
  have hafter : after = 0 := by
    have hstate : (conv.applyDecoherence halfRate.1).stateOf "a" =
        (⟨⟨-1, 0⟩, 0, 0⟩ : EndpointState ℝ).decohere (1 / Real.sqrt n) 0.5 :=
      stateOf_applyDecoherence (AList.lookup_insert ∅) 0.5
    show ((conv.applyDecoherence halfRate.1).stateOf "a").amplitude.probability = 0
    rw [hstate, hn, Real.sqrt_one]
    show (-1 * (1 - 0.5) + 1 / 1 * 0.5 : ℝ) * (-1 * (1 - 0.5) + 1 / 1 * 0.5) +
      0 * (1 - 0.5) * (0 * (1 - 0.5)) = 0
    norm_num
  refine ⟨fun e he => ?_, hn, ?_⟩
  · rw [List.mem_singleton.mp he]
    exact hbefore.le
  · rw [hbefore, hafter, hn]
    norm_num

/-! ## The reward in an update -/

/-- The number of endpoints once this one is there. -/
noncomputable def ConversationState.countWith (conv : ConversationState ℝ)
    (endpointId : String) : Nat :=
  (conv.getOrInsert endpointId).2.endpointStates.entries.length

theorem length_put {F : Type*} (conv : ConversationState F) (endpointId : String)
    (state other : EndpointState F) :
    (conv.put endpointId state).endpointStates.entries.length =
      (conv.put endpointId other).endpointStates.entries.length := by
  rw [ConversationState.put, ConversationState.put, AList.entries_insert, AList.entries_insert]
  rfl

theorem stateOf_update_self (conv : ConversationState ℝ) (endpointId : String)
    (reward rate : ℝ) (now : Int) :
    (conv.update endpointId reward rate now).stateOf endpointId =
      ((conv.stateOf endpointId).observed reward).decohere
        (1 / Real.sqrt (conv.countWith endpointId)) rate := by
  let entry := (conv.stateOf endpointId).observed reward
  let touched := { conv.put endpointId entry with lastActive := now }
  have hlookup : touched.endpointStates.lookup endpointId = some entry :=
    (conv.lookup_put endpointId endpointId entry).trans (if_pos rfl)
  rw [ConversationState.countWith, ConversationState.getOrInsert,
    length_put conv endpointId _ entry]
  exact stateOf_applyDecoherence hlookup rate

namespace EndpointState

/-- The average reward with one more reward. -/
noncomputable def averageWith (state : EndpointState ℝ) (reward : ℝ) : ℝ :=
  (state.totalReward + reward) / (state.pulls + 1)

/-- The phase that the reward rotates to. -/
noncomputable def phaseWith (state : EndpointState ℝ) (reward : ℝ) : ℝ :=
  state.amplitude.phase + (reward - 0.5) * Real.pi * 0.1

variable {state : EndpointState ℝ} {reward : ℝ}

theorem averageWith_mem (htotal : state.totalReward ∈ Set.Icc 0 (state.pulls : ℝ))
    (hreward : reward ∈ unitInterval) : state.averageWith reward ∈ unitInterval := by
  have hpulls : (0 : ℝ) < state.pulls + 1 := by positivity
  exact ⟨div_nonneg (add_nonneg htotal.1 hreward.1) hpulls.le,
    (div_le_one hpulls).mpr (add_le_add htotal.2 hreward.2)⟩

theorem averageWith_mono (state : EndpointState ℝ) {r₁ r₂ : ℝ} (hle : r₁ ≤ r₂) :
    state.averageWith r₁ ≤ state.averageWith r₂ := by
  unfold averageWith
  gcongr

/-- The magnitude needs no clamping when the average is one of rewards. -/
theorem amplitude_observed (h : state.averageWith reward ∈ unitInterval) :
    (state.observed reward).amplitude =
      ⟨Real.sqrt (state.averageWith reward) * Real.cos (state.phaseWith reward),
        Real.sqrt (state.averageWith reward) * Real.sin (state.phaseWith reward)⟩ := by
  have hmag : clamp01 (Real.sqrt (state.averageWith reward)) =
      Real.sqrt (state.averageWith reward) := by
    show (if Real.sqrt (state.averageWith reward) < 0 then 0 else
      if 1 < Real.sqrt (state.averageWith reward) then 1 else _) = _
    rw [if_neg (not_lt.mpr (Real.sqrt_nonneg _)),
      if_neg (not_lt.mpr (Real.sqrt_le_one.mpr h.2))]
  have haverage : (state.totalReward + reward) / ((state.pulls + 1 : Nat) : ℝ) =
      state.averageWith reward := by
    rw [averageWith, Nat.cast_add, Nat.cast_one]
  rw [← hmag, ← haverage]
  rfl

theorem probability_observed_eq (h : state.averageWith reward ∈ unitInterval) :
    (state.observed reward).amplitude.probability = state.averageWith reward := by
  rw [amplitude_observed h]
  have hunit := Real.cos_sq_add_sin_sq (state.phaseWith reward)
  have hsquare := Real.sq_sqrt h.1
  show _ * _ * (_ * _) + _ * _ * (_ * _) = _
  linear_combination Real.sqrt (state.averageWith reward) ^ 2 * hunit + hsquare

end EndpointState

open EndpointState

section

variable (conv : ConversationState ℝ) (endpointId : String) (rate : unitInterval) (now : Int)

/-- The probability that an update leaves its endpoint with. -/
noncomputable def ConversationState.probabilityAfter (reward : ℝ) : ℝ :=
  ((conv.update endpointId reward rate.1 now).stateOf endpointId).amplitude.probability

theorem probabilityAfter_eq (reward : ℝ) :
    conv.probabilityAfter endpointId rate now reward =
      ‖homothety ((1 / Real.sqrt (conv.countWith endpointId) : ℝ) : ℂ) (1 - rate.1)
        ((conv.stateOf endpointId).observed reward).amplitude.toComplex‖ ^ 2 := by
  rw [ConversationState.probabilityAfter, stateOf_update_self, probability_eq,
    toComplex_decohere_eq]

/-- The component of an observed amplitude along the real axis, where it
interferes with the uniform amplitude. -/
noncomputable def EndpointState.along (state : EndpointState ℝ) (reward : ℝ) : ℝ :=
  Real.sqrt (state.averageWith reward) * Real.cos (state.phaseWith reward)

/-- The probability after an update is the square of the sum of two amplitudes:
the squares of both, and the interference. -/
theorem probability_update {reward : ℝ}
    (h : (conv.stateOf endpointId).averageWith reward ∈ unitInterval) :
    conv.probabilityAfter endpointId rate now reward =
      rate.1 ^ 2 / conv.countWith endpointId +
        2 * rate.1 * (1 - rate.1) / Real.sqrt (conv.countWith endpointId) *
          (conv.stateOf endpointId).along reward +
        (1 - rate.1) ^ 2 * (conv.stateOf endpointId).averageWith reward := by
  rw [probabilityAfter_eq, Homothety.sq_norm_homothety, sq_norm_uniform, inner_ofReal,
    ← probability_eq, probability_observed_eq h, amplitude_observed h, along,
    Amplitude.toComplex]
  ring

theorem probabilityAfter_le_iff {r₁ r₂ : ℝ}
    (h₁ : (conv.stateOf endpointId).averageWith r₁ ∈ unitInterval)
    (h₂ : (conv.stateOf endpointId).averageWith r₂ ∈ unitInterval) :
    conv.probabilityAfter endpointId rate now r₁ ≤ conv.probabilityAfter endpointId rate now r₂ ↔
      2 * rate.1 * (1 - rate.1) / Real.sqrt (conv.countWith endpointId) *
          ((conv.stateOf endpointId).along r₁ - (conv.stateOf endpointId).along r₂) ≤
        (1 - rate.1) ^ 2 * ((r₂ - r₁) / ((conv.stateOf endpointId).pulls + 1)) := by
  have hgain : (conv.stateOf endpointId).averageWith r₂ - (conv.stateOf endpointId).averageWith r₁ =
      (r₂ - r₁) / ((conv.stateOf endpointId).pulls + 1) := by
    unfold averageWith
    ring
  rw [probability_update conv endpointId rate now h₁,
    probability_update conv endpointId rate now h₂, ← hgain]
  constructor
  · intro h
    linarith
  · intro h
    linarith

/-- A rotation that ends on the right half plane and no further from the real
axis takes nothing from the interference. -/
theorem along_le_along (state : EndpointState ℝ) {r₁ r₂ : ℝ} (hle : r₁ ≤ r₂)
    (hcos : Real.cos (state.phaseWith r₁) ≤ Real.cos (state.phaseWith r₂))
    (hpos : 0 ≤ Real.cos (state.phaseWith r₂)) : state.along r₁ ≤ state.along r₂ := by
  have hsqrt := Real.sqrt_le_sqrt (averageWith_mono state hle)
  calc state.along r₁
      ≤ Real.sqrt (state.averageWith r₁) * Real.cos (state.phaseWith r₂) :=
        mul_le_mul_of_nonneg_left hcos (Real.sqrt_nonneg _)
    _ ≤ state.along r₂ := mul_le_mul_of_nonneg_right hsqrt hpos

/-- The better of two rewards leaves at least the probability of the other one
exactly when what it adds to the average outweighs what the rotation takes from
the interference.  This includes every rate of zero or one, and every rotation
that ends on the right half plane and no further from the real axis. -/
theorem update_monotone_iff
    (htotal : (conv.stateOf endpointId).totalReward ∈
      Set.Icc 0 ((conv.stateOf endpointId).pulls : ℝ))
    {r₁ r₂ : ℝ} (hlow : 0 ≤ r₁) (hle : r₁ ≤ r₂) (hhigh : r₂ ≤ 1) :
    let state := conv.stateOf endpointId
    let n : ℝ := conv.countWith endpointId
    let after := conv.probabilityAfter endpointId rate now
    (state.observed r₁).amplitude.probability ≤ (state.observed r₂).amplitude.probability ∧
    (after r₁ ≤ after r₂ ↔
      2 * rate.1 * (1 - rate.1) / Real.sqrt n * (state.along r₁ - state.along r₂) ≤
        (1 - rate.1) ^ 2 * ((r₂ - r₁) / (state.pulls + 1))) ∧
    (rate.1 = 0 ∨ rate.1 = 1 ∨
        Real.cos (state.phaseWith r₁) ≤ Real.cos (state.phaseWith r₂) ∧
          0 ≤ Real.cos (state.phaseWith r₂) →
      after r₁ ≤ after r₂) := by
  intro state n after
  have h₁ : state.averageWith r₁ ∈ unitInterval :=
    averageWith_mem htotal ⟨hlow, hle.trans hhigh⟩
  have h₂ : state.averageWith r₂ ∈ unitInterval :=
    averageWith_mem htotal ⟨hlow.trans hle, hhigh⟩
  have hiff := probabilityAfter_le_iff conv endpointId rate now h₁ h₂
  refine ⟨?_, hiff, ?_⟩
  · rw [probability_observed_eq h₁, probability_observed_eq h₂]
    exact averageWith_mono state hle
  · have hright : 0 ≤ (1 - rate.1) ^ 2 * ((r₂ - r₁) / (state.pulls + 1)) :=
      mul_nonneg (sq_nonneg _) (div_nonneg (sub_nonneg.mpr hle) (by positivity))
    intro hcase
    refine hiff.mpr (le_trans ?_ hright)
    rcases hcase with hzero | hone | ⟨hcos, hpos⟩
    · rw [hzero]
      simp
    · rw [hone]
      simp
    · have hfactor : 0 ≤ 2 * rate.1 * (1 - rate.1) / Real.sqrt n :=
        div_nonneg (mul_nonneg (mul_nonneg zero_le_two rate.2.1) (sub_nonneg.mpr rate.2.2))
          (Real.sqrt_nonneg _)
      exact mul_nonpos_of_nonneg_of_nonpos hfactor
        (sub_nonpos.mpr (along_le_along state hle hcos hpos))

end

/-- An endpoint that was pulled three times, beside another one, gains from a better reward. -/
theorem update_monotone_iff_pulled :
    let conv : ConversationState ℝ :=
      ((ConversationState.new 0).put "b" ⟨⟨0, 1⟩, 1, 1⟩).put "a" ⟨⟨1, 0⟩, 3, 2⟩
    ((conv.stateOf "a").observed 0).amplitude.probability ≤
        ((conv.stateOf "a").observed 1).amplitude.probability ∧
      conv.probabilityAfter "a" halfRate 0 0 ≤ conv.probabilityAfter "a" halfRate 0 1 := by
  intro conv
  have hphase : (conv.stateOf "a").amplitude.phase = (0 : ℝ) := Complex.arg_one
  have hcos : ∀ reward : ℝ, Real.cos ((conv.stateOf "a").phaseWith reward) =
      Real.cos ((reward - 0.5) * Real.pi * 0.1) := by
    intro reward
    rw [phaseWith, hphase, zero_add]
  have htotal : (conv.stateOf "a").totalReward ∈
      Set.Icc 0 ((conv.stateOf "a").pulls : ℝ) := by
    show (2 : ℝ) ∈ Set.Icc 0 ((3 : Nat) : ℝ)
    norm_num
  obtain ⟨hobserved, -, hafter⟩ :=
    update_monotone_iff conv "a" halfRate 0 htotal (le_refl 0) zero_le_one (le_refl 1)
  refine ⟨hobserved, hafter (.inr (.inr ⟨?_, ?_⟩))⟩
  · rw [hcos, hcos, ← Real.cos_neg]
    exact le_of_eq (congrArg Real.cos (by ring))
  · rw [hcos]
    have hpi := Real.pi_pos
    exact Real.cos_nonneg_of_neg_pi_div_two_le_of_le (by linarith) (by linarith)

/-- With the phase a quarter turn ahead, a perfect tenth reward leaves less than
a middling one: the rotation takes more than the average gains. -/
theorem better_reward_hurts :
    let conv : ConversationState ℝ := (ConversationState.new 0).put "a" ⟨⟨0, 1⟩, 9, 9⟩
    (∀ e ∈ conv.endpointStates.entries, e.2.amplitude.probability ≤ 1 ∧
        e.2.totalReward ∈ Set.Icc 0 (e.2.pulls : ℝ)) ∧
      conv.probabilityAfter "a" halfRate 0 1 < conv.probabilityAfter "a" halfRate 0 0.5 := by
  intro conv
  have hstate : conv.stateOf "a" = ⟨⟨0, 1⟩, 9, 9⟩ := rfl
  have hcount : (conv.countWith "a" : ℝ) = 1 := Nat.cast_one
  have hphase : (conv.stateOf "a").amplitude.phase = Real.pi / 2 := Complex.arg_I
  have hgood : (conv.stateOf "a").averageWith 1 = 1 := by
    rw [hstate, averageWith]
    norm_num
  have hmiddling : (conv.stateOf "a").averageWith 0.5 = 19 / 20 := by
    rw [hstate, averageWith]
    norm_num
  have hturned : (conv.stateOf "a").along 1 ≤ -(1 / 10) := by
    have hpi := Real.pi_pos
    have hangle : (conv.stateOf "a").phaseWith 1 = Real.pi / 20 + Real.pi / 2 := by
      rw [phaseWith, hphase]
      ring
    have hsin : 1 / 10 ≤ Real.sin (Real.pi / 20) := by
      have hjordan : 2 / Real.pi * (Real.pi / 20) ≤ Real.sin (Real.pi / 20) :=
        Real.mul_le_sin (by linarith) (by linarith)
      have hcancel : 2 / Real.pi * (Real.pi / 20) = 1 / 10 := by
        field_simp
        norm_num
      rwa [hcancel] at hjordan
    rw [along, hgood, hangle, Real.cos_add_pi_div_two, Real.sqrt_one, one_mul]
    exact neg_le_neg hsin
  have hstraight : (conv.stateOf "a").along 0.5 = 0 := by
    rw [along, phaseWith, hphase, sub_self, zero_mul, zero_mul, add_zero, Real.cos_pi_div_two,
      mul_zero]
  refine ⟨fun e he => ?_, ?_⟩
  · rw [List.mem_singleton.mp he]
    refine ⟨?_, by norm_num, by norm_num⟩
    show (0 : ℝ) * 0 + 1 * 1 ≤ 1
    norm_num
  · rw [probability_update conv "a" halfRate 0 (by rw [hgood]; norm_num),
      probability_update conv "a" halfRate 0 (by rw [hmiddling]; norm_num), hgood, hmiddling,
      hstraight, hcount, Real.sqrt_one]
    show (0.5 : ℝ) ^ 2 / 1 + 2 * 0.5 * (1 - 0.5) / 1 * _ + (1 - 0.5) ^ 2 * 1 <
      (0.5 : ℝ) ^ 2 / 1 + 2 * 0.5 * (1 - 0.5) / 1 * 0 + (1 - 0.5) ^ 2 * (19 / 20)
    linarith

end Xfiles.Quantum
