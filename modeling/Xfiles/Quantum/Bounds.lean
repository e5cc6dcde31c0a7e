import Mathlib
import Xfiles.Quantum.Router

/-!
# The bandit state over the reals

The definitions of the quantum state at exact real numbers.  This module proves
that every run of reads and updates keeps each endpoint a sub-probability with
exact counts.

* The instance `Arith ℝ` reads `sqrt`, `cos`, `sin` and `atan2` as the real
  functions.
* An amplitude is a complex number in the closed unit disk
  (`probability_le_one_iff`).  Decoherence is a convex combination
  (`toComplex_decohere`), so that the disk is kept since it is convex.
* `Sound` is the invariant of one endpoint, with the rewards of the updates
  that name it.  `sound_touch` is the step lemma.
* `subprobability` is the result for runs.
-/

namespace Xfiles.Quantum

noncomputable instance : Arith ℝ where
  decidableLT := Real.decidableLT
  sqrt := Real.sqrt
  cos := Real.cos
  sin := Real.sin
  atan2 y x := Complex.arg ⟨x, y⟩
  pi := Real.pi

/-! ## Amplitudes in the unit disk -/

def Amplitude.toComplex (a : Amplitude ℝ) : ℂ := ⟨a.real, a.imag⟩

theorem probability_eq (a : Amplitude ℝ) : a.probability = ‖a.toComplex‖ ^ 2 := by
  rw [Complex.sq_norm, Complex.normSq_apply]
  rfl

theorem probability_nonneg (a : Amplitude ℝ) : 0 ≤ a.probability := by
  rw [probability_eq]
  positivity

theorem probability_le_one_iff (a : Amplitude ℝ) :
    a.probability ≤ 1 ↔ a.toComplex ∈ Metric.closedBall (0 : ℂ) 1 := by
  rw [probability_eq, sq_le_one_iff₀ (norm_nonneg _), mem_closedBall_zero_iff]

theorem clamp01_mem (x : ℝ) : clamp01 x ∈ unitInterval := by
  show (if x < 0 then 0 else if 1 < x then 1 else x) ∈ Set.Icc (0 : ℝ) 1
  split_ifs with hneg hbig
  · exact ⟨le_refl 0, zero_le_one⟩
  · exact ⟨zero_le_one, le_refl 1⟩
  · exact ⟨not_lt.mp hneg, not_lt.mp hbig⟩

/-- The reward of an outcome lies between zero and one. -/
theorem reward_mem (success : Bool) (latencyMs : Nat) :
    (QuantumRouter.reward success latencyMs : ℝ) ∈ unitInterval := by
  show (if success then 1 - min ((latencyMs : ℝ) / 5000.0) 1 * 0.3 else 0) ∈ Set.Icc (0 : ℝ) 1
  split_ifs
  · have hlow : 0 ≤ min ((latencyMs : ℝ) / 5000.0) 1 := le_min (by positivity) zero_le_one
    have hhigh : min ((latencyMs : ℝ) / 5000.0) 1 ≤ 1 := min_le_right _ _
    constructor <;> linarith
  · exact ⟨le_refl 0, zero_le_one⟩

/-- The uniform amplitude lies in the disk. -/
theorem uniform_mem (count : Nat) : (1 / Arith.sqrt (count : ℝ) : ℝ) ∈ unitInterval := by
  show 1 / Real.sqrt count ∈ Set.Icc (0 : ℝ) 1
  refine ⟨by positivity, ?_⟩
  rcases Nat.eq_zero_or_pos count with hzero | hpos
  · rw [hzero, Nat.cast_zero, Real.sqrt_zero, div_zero]
    exact zero_le_one
  · have hone : (1 : ℝ) ≤ Real.sqrt count := Real.one_le_sqrt.mpr (by exact_mod_cast hpos)
    exact (div_le_one (by linarith)).mpr hone

/-- Decoherence is the convex combination with the uniform amplitude. -/
theorem toComplex_decohere (uniformMag rate : ℝ) (entry : EndpointState ℝ) :
    (entry.decohere uniformMag rate).amplitude.toComplex =
      (1 - rate) • entry.amplitude.toComplex + rate • (uniformMag : ℂ) := by
  apply Complex.ext
  · show entry.amplitude.real * (1 - rate) + uniformMag * rate = _
    simp [Amplitude.toComplex]
    ring
  · show entry.amplitude.imag * (1 - rate) = _
    simp [Amplitude.toComplex]
    ring

theorem probability_decohere {uniformMag rate : ℝ} (huniform : uniformMag ∈ unitInterval)
    (hrate : rate ∈ unitInterval) {entry : EndpointState ℝ}
    (h : entry.amplitude.probability ≤ 1) :
    (entry.decohere uniformMag rate).amplitude.probability ≤ 1 := by
  rw [probability_le_one_iff] at h ⊢
  rw [toComplex_decohere]
  have hball : (uniformMag : ℂ) ∈ Metric.closedBall (0 : ℂ) 1 := by
    rw [mem_closedBall_zero_iff, Complex.norm_real, Real.norm_of_nonneg huniform.1]
    exact huniform.2
  exact convex_closedBall 0 1 h hball (sub_nonneg.mpr hrate.2) hrate.1 (sub_add_cancel 1 rate)

/-- An observation puts the amplitude on a circle inside the disk. -/
theorem probability_observed (entry : EndpointState ℝ) (reward : ℝ) :
    (entry.observed reward).amplitude.probability ≤ 1 := by
  obtain ⟨mag, phase, hmag, heq⟩ : ∃ mag phase, mag ∈ unitInterval ∧
      (entry.observed reward).amplitude = ⟨mag * Real.cos phase, mag * Real.sin phase⟩ :=
    ⟨_, _, clamp01_mem _, rfl⟩
  have hcircle : (entry.observed reward).amplitude.probability = mag ^ 2 := by
    rw [heq]
    show mag * Real.cos phase * (mag * Real.cos phase) +
      mag * Real.sin phase * (mag * Real.sin phase) = mag ^ 2
    have hunit := Real.cos_sq_add_sin_sq phase
    linear_combination mag ^ 2 * hunit
  rw [hcircle]
  exact pow_le_one₀ hmag.1 hmag.2

/-! ## The calls of a conversation -/

/-- One read or update of a conversation, with the time of an update. -/
inductive Touch (F : Type*) where
  | getOrInsert (endpointId : String)
  | observe (endpointId : String) (success : Bool) (latencyMs : Nat) (now : Int)
  | feedback (endpointId : String) (qualityScore : F) (now : Int)

section

variable {F : Type*} [Arith F]

/-- The state after a call, with the rewards that `observe` and `feedback`
compute. -/
def ConversationState.touch (rate : F) (conv : ConversationState F) :
    Touch F → ConversationState F
  | .getOrInsert endpointId => (conv.getOrInsert endpointId).2
  | .observe endpointId success latencyMs now =>
    conv.update endpointId (QuantumRouter.reward success latencyMs) rate now
  | .feedback endpointId qualityScore now =>
    conv.update endpointId (clamp01 qualityScore) rate now

/-- The reward of a call for an endpoint, when it is an update that names it. -/
def Touch.rewardFor (endpointId : String) : Touch F → Option F
  | .getOrInsert _ => none
  | .observe named success latencyMs _ =>
    if named = endpointId then some (QuantumRouter.reward success latencyMs) else none
  | .feedback named qualityScore _ =>
    if named = endpointId then some (clamp01 qualityScore) else none

/-- The rewards of the updates that name an endpoint, in order. -/
def rewardsFor (touches : List (Touch F)) (endpointId : String) : List F :=
  touches.filterMap (·.rewardFor endpointId)

/-- The state of a conversation after a list of calls. -/
def ConversationState.touchAll (rate : F) (conv : ConversationState F)
    (touches : List (Touch F)) : ConversationState F :=
  touches.foldl (touch rate) conv

/-- `compute_distribution`: the probabilities, divided by their sum if it is
positive. -/
def ConversationState.computeDistribution (conv : ConversationState F) : List (String × F) :=
  let dist := conv.endpointStates.entries.map fun e => (e.1, e.2.amplitude.probability)
  let total := (dist.map (·.2)).foldl (· + ·) 0
  if 0 < total then dist.map fun entry => (entry.1, entry.2 / total) else dist

end

/-! ## The invariant of an endpoint -/

/-- A sub-probability whose counts are those of a list of rewards. -/
structure Sound (rewards : List ℝ) (state : EndpointState ℝ) : Prop where
  probability : state.amplitude.probability ∈ unitInterval
  pulls : state.pulls = rewards.length
  totalReward : state.totalReward = rewards.sum
  bounded : state.totalReward ∈ Set.Icc 0 (state.pulls : ℝ)

theorem sound_default : Sound [] default where
  probability := by
    show (1 : ℝ) * 1 + 0 * 0 ∈ Set.Icc (0 : ℝ) 1
    norm_num
  pulls := rfl
  totalReward := rfl
  bounded := by
    show (0 : ℝ) ∈ Set.Icc 0 ((0 : Nat) : ℝ)
    norm_num

theorem sound_observed {rewards : List ℝ} {state : EndpointState ℝ} (h : Sound rewards state)
    {reward : ℝ} (hreward : reward ∈ unitInterval) :
    Sound (rewards ++ [reward]) (state.observed reward) where
  probability := ⟨probability_nonneg _, probability_observed state reward⟩
  pulls := by
    show state.pulls + 1 = _
    rw [h.pulls, List.length_append, List.length_singleton]
  totalReward := by
    show state.totalReward + reward = _
    rw [h.totalReward, List.sum_append, List.sum_singleton]
  bounded := by
    show state.totalReward + reward ∈ Set.Icc 0 ((state.pulls + 1 : Nat) : ℝ)
    have hlow := h.bounded.1
    have hhigh := h.bounded.2
    rw [Nat.cast_add, Nat.cast_one]
    exact ⟨add_nonneg hlow hreward.1, add_le_add hhigh hreward.2⟩

theorem sound_decohere {rewards : List ℝ} {state : EndpointState ℝ} (h : Sound rewards state)
    {uniformMag rate : ℝ} (huniform : uniformMag ∈ unitInterval) (hrate : rate ∈ unitInterval) :
    Sound rewards (state.decohere uniformMag rate) where
  probability :=
    ⟨probability_nonneg _, probability_decohere huniform hrate h.probability.2⟩
  pulls := h.pulls
  totalReward := h.totalReward
  bounded := h.bounded

/-- The square root of an update is taken of a value between zero and one. -/
theorem Sound.average_mem {rewards : List ℝ} {state : EndpointState ℝ}
    (h : Sound rewards state) : state.totalReward / state.pulls ∈ unitInterval :=
  ⟨div_nonneg h.bounded.1 (Nat.cast_nonneg _), div_le_one_of_le₀ h.bounded.2 (Nat.cast_nonneg _)⟩

/-- An update observes its endpoint and decoheres every endpoint that is
there. -/
theorem sound_update {rewards : String → List ℝ} {conv : ConversationState ℝ}
    (h : ∀ endpointId, Sound (rewards endpointId) (conv.stateOf endpointId)) {endpointId : String}
    {reward rate : ℝ} (hreward : reward ∈ unitInterval) (hrate : rate ∈ unitInterval) (now : Int)
    (other : String) :
    Sound (rewards other ++ if endpointId = other then [reward] else [])
      ((conv.update endpointId reward rate now).stateOf other) := by
  obtain ⟨count, hlookup⟩ :=
    conv.lookup_update_uniform endpointId other reward rate now
  rw [ConversationState.stateOf, hlookup]
  by_cases heq : endpointId = other
  · rw [if_pos heq, if_pos heq.symm, ← heq]
    exact sound_decohere (sound_observed (h endpointId) hreward) (uniform_mem count) hrate
  · rw [if_neg heq, if_neg (Ne.symm heq), List.append_nil]
    have hother := h other
    rw [ConversationState.stateOf] at hother
    cases hfound : conv.endpointStates.lookup other with
    | none =>
      rw [hfound] at hother
      exact hother
    | some state =>
      rw [hfound] at hother
      exact sound_decohere hother (uniform_mem count) hrate

/-- One call keeps the invariant of every endpoint. -/
theorem sound_touch {rewards : String → List ℝ} {conv : ConversationState ℝ}
    (h : ∀ endpointId, Sound (rewards endpointId) (conv.stateOf endpointId)) {rate : ℝ}
    (hrate : rate ∈ unitInterval) (touch : Touch ℝ) (other : String) :
    Sound (rewards other ++ (touch.rewardFor other).toList)
      ((conv.touch rate touch).stateOf other) := by
  cases touch with
  | getOrInsert endpointId =>
    show Sound (rewards other ++ []) ((conv.getOrInsert endpointId).2.stateOf other)
    rw [ConversationState.stateOf_getOrInsert, List.append_nil]
    exact h other
  | observe endpointId success latencyMs now =>
    have hreward := reward_mem success latencyMs
    have hupdate := @sound_update _ _ h endpointId _ _ hreward hrate now other
    rw [Touch.rewardFor, apply_ite Option.toList]
    exact hupdate
  | feedback endpointId qualityScore now =>
    have hupdate := @sound_update _ _ h endpointId _ _ (clamp01_mem qualityScore) hrate now other
    rw [Touch.rewardFor, apply_ite Option.toList]
    exact hupdate

/-! ## Runs -/

/-- Every run of calls keeps every endpoint sound. -/
theorem sound_touchAll (rate : unitInterval) (touches : List (Touch ℝ)) (now : Int)
    (endpointId : String) :
    Sound (rewardsFor touches endpointId)
      (((ConversationState.new now).touchAll rate.1 touches).stateOf endpointId) := by
  induction touches using List.reverseRecOn generalizing endpointId with
  | nil => exact sound_default
  | append_singleton touches touch ih =>
    rw [rewardsFor, List.filterMap_append, ConversationState.touchAll, List.foldl_append]
    have hstep := sound_touch ih rate.2 touch endpointId
    cases hreward : touch.rewardFor endpointId with
    | none =>
      rw [hreward] at hstep
      rw [List.filterMap_cons_none hreward, List.filterMap_nil]
      exact hstep
    | some reward =>
      rw [hreward] at hstep
      rw [List.filterMap_cons_some hreward, List.filterMap_nil]
      exact hstep

/-- The probabilities of the endpoints, before the division. -/
noncomputable def ConversationState.probabilities (conv : ConversationState ℝ) : List ℝ :=
  conv.endpointStates.entries.map fun e => e.2.amplitude.probability

/-- With a positive sum the distribution is the probabilities divided by it. -/
theorem computeDistribution_of_pos {conv : ConversationState ℝ}
    (h : 0 < conv.probabilities.sum) :
    conv.computeDistribution.map (·.2) =
      conv.probabilities.map (· / conv.probabilities.sum) := by
  let dist := conv.endpointStates.entries.map fun e => (e.1, e.2.amplitude.probability)
  have hsnd : dist.map (·.2) = conv.probabilities := List.map_map
  have htotal : (dist.map (·.2)).foldl (· + ·) 0 = conv.probabilities.sum := by
    rw [hsnd]
    exact List.sum_eq_foldl.symm
  show (if 0 < (dist.map (·.2)).foldl (· + ·) 0 then
    dist.map fun entry => (entry.1, entry.2 / (dist.map (·.2)).foldl (· + ·) 0)
    else dist).map (·.2) = _
  have hdivide : ∀ (entries : List (String × ℝ)) (total : ℝ),
      (entries.map fun entry => (entry.1, entry.2 / total)).map (·.2) =
        (entries.map (·.2)).map (· / total) := by simp
  rw [htotal, if_pos h, hdivide, hsnd]

/-- The distribution sums to one as soon as one probability is positive. -/
theorem sum_computeDistribution (conv : ConversationState ℝ)
    (h : ∃ entry ∈ conv.endpointStates.entries, 0 < entry.2.amplitude.probability) :
    (conv.computeDistribution.map (·.2)).sum = 1 := by
  have hpos : 0 < conv.probabilities.sum := by
    obtain ⟨entry, hentry, hprob⟩ := h
    refine lt_of_lt_of_le hprob (List.single_le_sum ?_ _ (List.mem_map_of_mem hentry))
    intro weight hweight
    obtain ⟨other, -, rfl⟩ := List.mem_map.mp hweight
    exact probability_nonneg _
  simp only [computeDistribution_of_pos hpos, div_eq_mul_inv]
  rw [List.sum_map_mul_right, List.map_id', mul_inv_cancel₀ hpos.ne']

/-- After any run of reads and updates, each endpoint of the conversation is a
sub-probability, its pulls and its total reward are those of the updates that
name it, and the distribution sums to one when some probability is positive. -/
theorem subprobability (rate : unitInterval) (touches : List (Touch ℝ)) (now : Int) :
    (∀ entry ∈ ((ConversationState.new now).touchAll rate.1 touches).endpointStates.entries,
      entry.2.amplitude.probability ∈ unitInterval ∧
      entry.2.pulls = (rewardsFor touches entry.1).length ∧
      entry.2.totalReward = (rewardsFor touches entry.1).sum ∧
      entry.2.totalReward ∈ Set.Icc 0 (entry.2.pulls : ℝ) ∧
      entry.2.totalReward / entry.2.pulls ∈ unitInterval) ∧
    ((∃ entry ∈ ((ConversationState.new now).touchAll rate.1 touches).endpointStates.entries,
        0 < entry.2.amplitude.probability) →
      (((ConversationState.new now).touchAll rate.1 touches).computeDistribution.map (·.2)).sum =
        1) := by
  refine ⟨fun entry hentry => ?_, sum_computeDistribution _⟩
  have hlookup := AList.mem_lookup_iff.mpr hentry
  have hsound := sound_touchAll rate touches now entry.1
  rw [ConversationState.stateOf, Option.mem_def.mp hlookup] at hsound
  exact ⟨hsound.probability, hsound.pulls, hsound.totalReward, hsound.bounded,
    hsound.average_mem⟩

/-- Two endpoints were updated at a rate of a half, and a third one was read. -/
theorem subprobability_observed :
    let rate : unitInterval := ⟨1 / 2, by norm_num, by norm_num⟩
    let conv : ConversationState ℝ := (ConversationState.new 0).touchAll rate.1
      [.observe "a" true 100 1, .feedback "b" 0.5 2, .observe "a" false 20 3, .getOrInsert "c"]
    (∀ entry ∈ conv.endpointStates.entries, entry.2.amplitude.probability ∈ unitInterval ∧
      (entry.1 = "a" → entry.2.pulls = 2)) ∧
    (conv.computeDistribution.map (·.2)).sum = 1 := by
  intro rate conv
  obtain ⟨hentries, hsum⟩ := subprobability rate
    [.observe "a" true 100 1, .feedback "b" 0.5 2, .observe "a" false 20 3, .getOrInsert "c"] 0
  refine ⟨fun entry hentry => ?_, hsum ⟨⟨"c", default⟩, ?_, ?_⟩⟩
  · obtain ⟨hprobability, hpulls, -⟩ := hentries entry hentry
    refine ⟨hprobability, fun hkey => ?_⟩
    rw [hpulls, hkey]
    rfl
  · exact AList.mem_lookup_iff.mp rfl
  · show (0 : ℝ) < 1 * 1 + 0 * 0
    norm_num

end Xfiles.Quantum
