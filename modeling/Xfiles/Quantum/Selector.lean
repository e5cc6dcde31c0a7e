import Mathlib
import Xfiles.Quantum.Generator

/-!
# The selection of an endpoint

What `QuantumRouter::route` selects from and what it changes, over exact reals,
for every state, candidate list and draw.

* `WeightedIndex` is what the sampler of the random generator promises, and
  `weightedIndex_generated` says that the generator keeps it.
* `distribution_unscaled` reads the weights as the prior times the boost, up to
  one factor.  `distribution_eq` says that the weight of a candidate depends on its name
  only, so that a candidate which is listed twice has one weight.
* `normal_distribution` carries the law of weights through the prior, the
  division and the boost.
* `route_sound` puts the results together.
-/

namespace Xfiles.Quantum

/-- `WeightedIndex` refuses weights that are empty, have a negative one or sum
to zero, and samples an index of positive weight from all others. -/
structure WeightedIndex (draws : Draws ℝ) : Prop where
  refuses : ∀ weights : List ℝ, draws.sample weights = none ↔
    weights = [] ∨ (∃ w ∈ weights, w < 0) ∨ weights.sum = 0
  positive : ∀ (weights : List ℝ) (idx : Fin weights.length),
    draws.sample weights = some idx → 0 < weights.get idx

/-- The generator keeps the promise. -/
theorem weightedIndex_generated (toss choice : ℝ) {point : ℝ} (hpoint : point ∈ Set.Ico 0 1) :
    WeightedIndex (.generated toss choice point) where
  refuses weights := by
    show weightedIndex point weights = none ↔ _
    unfold weightedIndex
    split
    · rename_i hrefused
      exact iff_of_true rfl hrefused
    · rename_i haccepted
      have hsome := drawn_isSome hpoint (mt (refused_iff (map_snd_indexed weights)).mp haccepted)
      exact iff_of_false (Option.ne_none_iff_isSome.mpr hsome) haccepted
  positive weights idx h := by
    have hdrawn : weightedIndex point weights = some idx := h
    unfold weightedIndex at hdrawn
    split at hdrawn
    · simp at hdrawn
    · rename_i haccepted
      obtain ⟨hnonneg, -⟩ := Weights.not_refused_iff.mp
        (mt (refused_iff (map_snd_indexed weights)).mp haccepted)
      obtain ⟨w, hmem, hpos⟩ := Weights.itemAt_pos
        (mul_nonneg hpoint.1 (Weights.total_nonneg hnonneg)) hdrawn
      rw [(Weights.mem_weighted.mp hmem).2]
      exact hpos

namespace QuantumRouter

variable (q : QuantumRouter ℝ)

/-! ## The weights -/

theorem prior_nonneg (candidates : List String) (state : EndpointState ℝ) :
    0 ≤ prior candidates state := by
  unfold prior
  split
  · exact div_nonneg zero_le_one (Nat.cast_nonneg _)
  · exact probability_nonneg _

/-- The priors of the candidates. -/
noncomputable def priors (conversationId : Uuid) (candidates : List String) :
    List (String × ℝ) :=
  candidates.map fun c => (c, prior candidates (q.state.stateOf conversationId c))

theorem priors_nonneg (conversationId : Uuid) (candidates : List String) :
    ∀ e ∈ q.priors conversationId candidates, 0 ≤ e.2 := by
  intro e he
  obtain ⟨c, -, rfl⟩ := List.mem_map.mp he
  exact prior_nonneg _ _

/-- The distribution in terms of the priors. -/
theorem distribution_fst (conversationId : Uuid) (candidates : List String) (now : Int) :
    (q.distribution conversationId candidates now).1 =
      q.entanglement.applyEntanglement conversationId (q.lastEndpoint conversationId)
        (Weights.normalize (q.priors conversationId candidates)) 0.2 := by
  have hreads := q.reads_eq conversationId candidates now
  rw [reads] at hreads
  unfold distribution
  dsimp only
  rw [hreads, normalizeWeights_eq, List.map_map]
  rfl

/-- The weight of a candidate depends on its name only. -/
theorem distribution_eq (conversationId : Uuid) (candidates : List String) (now : Int) :
    ∃ weight : String → ℝ, (q.distribution conversationId candidates now).1 =
      candidates.map fun c => (c, weight c) := by
  rw [distribution_fst, Weights.normalize, priors, List.map_map]
  cases q.lastEndpoint conversationId with
  | none => exact ⟨_, rfl⟩
  | some prev =>
    rw [EntanglementTable.applyEntanglement_eq, Weights.normalize_scale, List.map_map]
    exact ⟨_, rfl⟩

/-- The factor of a candidate, by the endpoint of the previous message. -/
noncomputable def factor (conversationId : Uuid) (candidate : String) : ℝ :=
  match q.lastEndpoint conversationId with
  | some prev => q.entanglement.boost conversationId prev 0.2 candidate
  | none => 1

/-- The weight of a candidate before the divisions. -/
noncomputable def unscaled (conversationId : Uuid) (candidates : List String)
    (candidate : String) : ℝ :=
  prior candidates (q.state.stateOf conversationId candidate) * q.factor conversationId candidate

/-- The weights of the candidates before the divisions. -/
noncomputable def weights (conversationId : Uuid) (candidates : List String) :
    List (String × ℝ) :=
  Weights.weighted (q.unscaled conversationId candidates) candidates

/-- The divisions put one factor on all weights. -/
theorem distribution_unscaled (conversationId : Uuid) (candidates : List String) (now : Int) :
    ∃ k, 0 < k ∧ (q.distribution conversationId candidates now).1 =
      (q.weights conversationId candidates).map fun e => (e.1, e.2 * k) := by
  rw [distribution_fst]
  obtain ⟨k, hk, hpriors⟩ := Weights.normalize_eq_mul (q.priors conversationId candidates)
  unfold weights unscaled factor
  rw [hpriors]
  cases q.lastEndpoint conversationId with
  | none =>
    refine ⟨k, hk, ?_⟩
    simp only [mul_one]
    rfl
  | some prev =>
    have hscaled : Weights.scale (q.entanglement.boost conversationId prev 0.2)
        (q.priors conversationId candidates) = Weights.weighted (fun c =>
          prior candidates (q.state.stateOf conversationId c) *
            q.entanglement.boost conversationId prev 0.2 c) candidates := by
      rw [Weights.scale, priors, List.map_map]
      rfl
    rw [EntanglementTable.applyEntanglement_eq, Weights.scale_mul, hscaled]
    obtain ⟨k', hk', hboosted⟩ := Weights.normalize_eq_mul
      ((Weights.weighted (fun c => prior candidates (q.state.stateOf conversationId c) *
        q.entanglement.boost conversationId prev 0.2 c) candidates).map fun e => (e.1, e.2 * k))
    refine ⟨k * k', mul_pos hk hk', ?_⟩
    rw [hboosted, List.map_map]
    exact List.map_congr_left fun e _ => Prod.ext rfl (mul_assoc _ _ _)

/-- The weights are not negative, and they sum to one as soon as one is
positive. -/
theorem normal_distribution (hbounded : q.entanglement.Bounded) (conversationId : Uuid)
    (candidates : List String) (now : Int) :
    Weights.Normal (q.distribution conversationId candidates now).1 := by
  rw [distribution_fst]
  have hnormal := Weights.normal_normalize (q.priors_nonneg conversationId candidates)
  cases q.lastEndpoint conversationId with
  | none => exact hnormal
  | some prev =>
    rw [EntanglementTable.applyEntanglement_eq]
    refine Weights.normal_normalize (Weights.scale_nonneg (fun c => ?_) hnormal.nonneg)
    exact (EntanglementTable.boost_pos hbounded conversationId prev (by norm_num) c).le

theorem sum_eq_one_or_zero {distribution : List (String × ℝ)}
    (h : Weights.Normal distribution) :
    (distribution.map (·.2)).sum = 1 ∨ ∀ e ∈ distribution, e.2 = 0 := by
  by_cases hpos : ∃ e ∈ distribution, 0 < e.2
  · exact .inl (h.total hpos)
  · refine .inr fun e he => le_antisymm (not_lt.mp fun hweight => hpos ⟨e, he, hweight⟩) ?_
    exact h.nonneg e he

/-! ## The draws -/

/-- From a distribution with a positive weight, an exploit draw picks a
candidate of positive weight. -/
theorem exploit_positive {draws : Draws ℝ} (hsampler : WeightedIndex draws)
    {candidates : List String} (hlen : 0 < candidates.length) {distribution : List (String × ℝ)}
    (hnormal : Weights.Normal distribution) (hpos : ∃ e ∈ distribution, 0 < e.2) :
    ∃ e ∈ distribution, exploit draws candidates hlen distribution = e.1 ∧ 0 < e.2 := by
  unfold exploit
  split
  · rename_i idx hidx
    refine ⟨_, List.get_mem distribution (idx.cast (List.length_map _)), rfl, ?_⟩
    have hweight := hsampler.positive _ idx hidx
    simpa using hweight
  · rename_i hnone
    exfalso
    rcases (hsampler.refuses _).mp hnone with hnil | ⟨w, hw, hneg⟩ | hzero
    · obtain ⟨e, he, -⟩ := hpos
      rw [List.map_eq_nil_iff] at hnil
      rw [hnil] at he
      exact List.not_mem_nil he
    · obtain ⟨e, he, rfl⟩ := List.mem_map.mp hw
      exact absurd hneg (not_lt.mpr (hnormal.nonneg e he))
    · have hone : (distribution.map (·.2)).sum = 1 := hnormal.total hpos
      rw [hone] at hzero
      exact one_ne_zero hzero

/-- An exploit draw never picks a candidate of weight zero when some weight is
positive. -/
theorem route_positive (hbounded : q.entanglement.Bounded) {draws : Draws ℝ}
    (hsampler : WeightedIndex draws) {msg : Message} {candidates : List String} {now : Int}
    (htoss : ¬ draws.toss < q.config.explorationRate)
    (hpos : ∃ e ∈ (q.distribution msg.conversationId candidates now).1, 0 < e.2) {d : String}
    (h : (q.route msg candidates now draws).1 = some d) :
    ∀ e ∈ (q.distribution msg.conversationId candidates now).1, e.1 = d → 0 < e.2 := by
  unfold route at h
  split at h
  · rename_i hlen
    have hselected : exploit draws candidates hlen
        (q.distribution msg.conversationId candidates now).1 = d := by
      have hd := Option.some.inj h
      rwa [select, if_neg htoss] at hd
    obtain ⟨e, he, hname, hweight⟩ := exploit_positive hsampler hlen
      (q.normal_distribution hbounded msg.conversationId candidates now) hpos
    -- every occurrence of the name has this weight
    obtain ⟨weight, hweights⟩ := q.distribution_eq msg.conversationId candidates now
    intro e' he' hname'
    rw [hweights] at he he'
    obtain ⟨c, -, rfl⟩ := List.mem_map.mp he
    obtain ⟨c', -, rfl⟩ := List.mem_map.mp he'
    have hsame : c' = c := hname'.trans (hselected.symm.trans hname)
    rw [hsame]
    exact hweight
  · simp at h

/-! ## The call -/

theorem lastEndpoint_route_of_ne (msg : Message) (candidates : List String) (now : Int)
    (draws : Draws ℝ) {conversationId : Uuid} (h : conversationId ≠ msg.conversationId) :
    (q.route msg candidates now draws).2.lastEndpoint conversationId =
      q.lastEndpoint conversationId := by
  unfold route
  split
  · exact Function.update_of_ne h _ _
  · rfl

/-- The selection of `route`, for every table that records have built, and
every state, previous endpoint, candidate list and draw. -/
theorem route_sound {calls : List (TableCall ℝ)} (hcalls : ∀ call ∈ calls, call.Rewarded)
    (htable : q.entanglement = TableCall.applyAll .new calls) (msg : Message)
    (candidates : List String) (now : Int) {draws : Draws ℝ} (hsampler : WeightedIndex draws) :
    let routed := q.route msg candidates now draws
    let distribution := (q.distribution msg.conversationId candidates now).1
    (routed.1.isSome = true ↔ candidates ≠ []) ∧
    (∀ d, routed.1 = some d → d ∈ candidates) ∧
    (∀ e ∈ distribution, 0 ≤ e.2) ∧
    ((distribution.map (·.2)).sum = 1 ∨ ∀ e ∈ distribution, e.2 = 0) ∧
    (¬ draws.toss < q.config.explorationRate → (∃ e ∈ distribution, 0 < e.2) →
      ∀ d, routed.1 = some d → ∀ e ∈ distribution, e.1 = d → 0 < e.2) ∧
    routed.2.entanglement = q.entanglement ∧ routed.2.config = q.config ∧
    ∀ conversationId, conversationId ≠ msg.conversationId →
      routed.2.state.get conversationId = q.state.get conversationId ∧
        routed.2.lastEndpoint conversationId = q.lastEndpoint conversationId := by
  intro routed distribution
  have hbounded : q.entanglement.Bounded := by
    rw [htable]
    exact EntanglementTable.bounded_applyAll hcalls
  have hnormal := q.normal_distribution hbounded msg.conversationId candidates now
  refine ⟨⟨?_, q.route_isSome msg now draws⟩, fun d hd => q.route_mem hd, hnormal.nonneg,
    sum_eq_one_or_zero hnormal, fun htoss hpos d hd => ?_, ?_, ?_, fun conversationId hne => ?_⟩
  · rintro hsome rfl
    simp [routed, route] at hsome
  · exact q.route_positive hbounded hsampler htoss hpos hd
  · simp only [routed, route]
    split <;> rfl
  · simp only [routed, route]
    split <;> rfl
  · exact ⟨q.get_route_of_ne msg candidates now draws hne,
      q.lastEndpoint_route_of_ne msg candidates now draws hne⟩

/-- The router of a conversation that used `a` last, and in which `a` and `b`
have succeeded together. -/
noncomputable def pairedRouter : QuantumRouter ℝ where
  state := .new
  entanglement := TableCall.applyAll .new [.recordPair 2 "a" "b" 1 0]
  config := ⟨0, 0⟩
  lastEndpoint := Function.update (fun _ => none) 2 (some "a")

theorem unscaled_pairedRouter_pos : 0 < pairedRouter.unscaled 2 ["a", "b"] "a" := by
  have hbounded : pairedRouter.entanglement.Bounded :=
    EntanglementTable.bounded_applyAll (by simp [TableCall.Rewarded])
  have hprior : prior ["a", "b"] (pairedRouter.state.stateOf 2 "a") = 1 / 2 := by
    show (if 0 = 0 then 1 / ((2 : Nat) : ℝ) else _) = _
    norm_num
  rw [unscaled, hprior]
  exact mul_pos (by norm_num) (EntanglementTable.boost_pos hbounded 2 "a" (by norm_num) "a")

/-- It draws an endpoint of positive weight, and forgets nothing. -/
theorem route_sound_paired :
    let msg := Message.new "alice" "/ai" "llm_request" 1 2 0
    let routed := pairedRouter.route msg ["a", "b"] 0 (.generated 0.5 0 0.5)
    ∃ d, routed.1 = some d ∧ (d = "a" ∨ d = "b") ∧
      (∀ e ∈ (pairedRouter.distribution 2 ["a", "b"] 0).1, e.1 = d → 0 < e.2) ∧
      routed.2.entanglement = pairedRouter.entanglement ∧
      routed.2.lastEndpoint 3 = none := by
  intro msg routed
  have hpoint : (0.5 : ℝ) ∈ Set.Ico 0 1 := by norm_num
  obtain ⟨hsome, hmem, -, -, hpositive, htable, -, hother⟩ :=
    @route_sound pairedRouter [.recordPair 2 "a" "b" 1 0]
      (by simp [TableCall.Rewarded]) rfl msg ["a", "b"] 0 _ (weightedIndex_generated 0.5 0 hpoint)
  obtain ⟨d, hd⟩ := Option.isSome_iff_exists.mp (hsome.mpr (by simp))
  have htoss : ¬ (0.5 : ℝ) < 0 := by norm_num
  have hpos : ∃ e ∈ (pairedRouter.distribution 2 ["a", "b"] 0).1, 0 < e.2 := by
    obtain ⟨k, hk, hdistribution⟩ := pairedRouter.distribution_unscaled 2 ["a", "b"] 0
    rw [hdistribution]
    exact ⟨_, List.mem_cons_self, mul_pos unscaled_pairedRouter_pos hk⟩
  exact ⟨d, hd, by simpa using hmem d hd, hpositive htoss hpos d hd, htable,
    (hother 3 (by decide)).2⟩

end QuantumRouter

end Xfiles.Quantum
