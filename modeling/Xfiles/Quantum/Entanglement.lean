import Mathlib
import Xfiles.Lib.Weights
import Xfiles.Quantum.Bounds
import Xfiles.Queue.Basic

/-!
# Correlations between endpoints

The writing side of `quantum/entanglement.rs`, and what correlations do to a
distribution, over exact reals.

* `recordPair` is one step of an exponential moving average, and `pruneOld`
  forgets conversations.  `getCorrelation_recordPair` says that a record
  changes one pair of one conversation.
* `Bounded` is the invariant: every correlation lies in `[0, 1)`.
* `applyEntanglement_eq` reads the boost as factors and a division by the sum,
  so that the laws of weights apply.
* `entanglement_laws` puts the results together.
-/

namespace Xfiles.Quantum

open Queue (numSeconds)

variable {F : Type*}

namespace EntanglementTable

/-! ## Writing correlations -/

section

variable [Arith F]

/-- Record that two endpoints were both used successfully in the same
conversation. -/
def recordPair (table : EntanglementTable F) (conversationId : Uuid) (a b : String) (reward : F)
    (now : Int) : EntanglementTable F where
  correlations :=
    let conv := (table.correlations conversationId).getD ⟨fun _ => none, 0⟩
    let key := orderedKey a b
    let entry := (conv.map key).getD 0
    -- exponential moving average of correlation
    Function.update table.correlations conversationId
      (some ⟨Function.update conv.map key (some (entry * 0.9 + reward * 0.1)), now⟩)

end

/-- Forget the conversations that have not been written to for too long. -/
def pruneOld (table : EntanglementTable F) (maxAgeSecs now : Int) : EntanglementTable F where
  correlations conversationId :=
    (table.correlations conversationId).filter fun conv =>
      ¬ maxAgeSecs < numSeconds (now - conv.lastActive)

end EntanglementTable

/-- A call that writes to the table. -/
inductive TableCall (F : Type*) where
  | recordPair (conversationId : Uuid) (a b : String) (reward : F) (now : Int)
  | pruneOld (maxAgeSecs now : Int)

namespace TableCall

variable [Arith F]

def apply (table : EntanglementTable F) : TableCall F → EntanglementTable F
  | .recordPair conversationId a b reward now => table.recordPair conversationId a b reward now
  | .pruneOld maxAgeSecs now => table.pruneOld maxAgeSecs now

def applyAll (table : EntanglementTable F) (calls : List (TableCall F)) : EntanglementTable F :=
  calls.foldl apply table

end TableCall

/-- The call records the pair, in either order. -/
def TableCall.Records (conversationId : Uuid) (a b : String) : TableCall F → Prop
  | .recordPair c a' b' _ _ =>
    c = conversationId ∧ (a' = a ∧ b' = b ∨ a' = b ∧ b' = a)
  | .pruneOld _ _ => False

/-- The reward of a record lies between zero and one. -/
def TableCall.Rewarded : TableCall ℝ → Prop
  | .recordPair _ _ _ reward _ => reward ∈ unitInterval
  | .pruneOld _ _ => True

namespace EntanglementTable

/-! ## Pairs -/

theorem orderedKey_comm (a b : String) : orderedKey a b = orderedKey b a := by
  unfold orderedKey
  rcases lt_trichotomy a b with hlt | rfl | hgt
  · rw [if_pos hlt, if_neg (lt_asymm hlt)]
  · rfl
  · rw [if_neg (lt_asymm hgt), if_pos hgt]

/-- A key tells its pair, but not the order of it. -/
theorem orderedKey_eq_iff {a b a' b' : String} :
    orderedKey a b = orderedKey a' b' ↔ a = a' ∧ b = b' ∨ a = b' ∧ b = a' := by
  constructor
  · unfold orderedKey
    split_ifs <;> intro h <;> grind
  · rintro (⟨rfl, rfl⟩ | ⟨rfl, rfl⟩)
    · rfl
    · exact orderedKey_comm a b

section

variable [Arith F] (table : EntanglementTable F)

theorem getCorrelation_comm (conversationId : Uuid) (a b : String) :
    table.getCorrelation conversationId a b = table.getCorrelation conversationId b a := by
  rw [getCorrelation, orderedKey_comm, getCorrelation]

/-- What a record leaves between two endpoints. -/
theorem getCorrelation_recordPair (c c' : Uuid) (a b a' b' : String) (reward : F) (now : Int) :
    (table.recordPair c a b reward now).getCorrelation c' a' b' =
      if c' = c ∧ orderedKey a' b' = orderedKey a b then
        table.getCorrelation c a b * 0.9 + reward * 0.1
      else table.getCorrelation c' a' b' := by
  unfold getCorrelation recordPair
  dsimp only
  by_cases hc : c' = c
  · subst hc
    rw [Function.update_self]
    by_cases hkey : orderedKey a' b' = orderedKey a b
    · rw [if_pos ⟨rfl, hkey⟩, hkey]
      cases table.correlations c' with
      | none => simp
      | some conv => simp
    · rw [if_neg fun h => hkey h.2]
      cases table.correlations c' with
      | none => simp [Function.update_of_ne hkey]
      | some conv => simp [Function.update_of_ne hkey]
  · rw [if_neg fun h => hc h.1, Function.update_of_ne hc]

/-- Pruning keeps a correlation or forgets it. -/
theorem getCorrelation_pruneOld (maxAgeSecs now : Int) (conversationId : Uuid) (a b : String) :
    (table.pruneOld maxAgeSecs now).getCorrelation conversationId a b =
        table.getCorrelation conversationId a b ∨
      (table.pruneOld maxAgeSecs now).getCorrelation conversationId a b = 0 := by
  unfold getCorrelation pruneOld
  dsimp only
  cases table.correlations conversationId with
  | none => exact .inl rfl
  | some conv =>
    by_cases hold : maxAgeSecs < numSeconds (now - conv.lastActive)
    · exact .inr (by simp [Option.filter, hold])
    · exact .inl (by simp [Option.filter, hold])

theorem getCorrelation_of_none {conversationId : Uuid}
    (h : table.correlations conversationId = none) (a b : String) :
    table.getCorrelation conversationId a b = 0 := by
  rw [getCorrelation, h]
  rfl

end

/-- A pair that is not recorded keeps the correlation 0. -/
theorem getCorrelation_apply_of_zero [Arith F] {table : EntanglementTable F}
    {conversationId : Uuid} {a b : String} (h : table.getCorrelation conversationId a b = 0)
    {call : TableCall F} (hcall : ¬ call.Records conversationId a b) :
    (call.apply table).getCorrelation conversationId a b = 0 := by
  cases call with
  | pruneOld maxAgeSecs now =>
    rcases table.getCorrelation_pruneOld maxAgeSecs now conversationId a b with hkept | hzero
    · exact hkept.trans h
    · exact hzero
  | recordPair c a' b' reward now =>
    show (table.recordPair c a' b' reward now).getCorrelation conversationId a b = 0
    rw [getCorrelation_recordPair, if_neg, h]
    rintro ⟨hc, hkey⟩
    refine hcall ⟨hc.symm, ?_⟩
    rcases orderedKey_eq_iff.mp hkey with ⟨ha, hb⟩ | ⟨ha, hb⟩
    · exact .inl ⟨ha.symm, hb.symm⟩
    · exact .inr ⟨hb.symm, ha.symm⟩

theorem getCorrelation_applyAll_of_zero [Arith F] {table : EntanglementTable F}
    {conversationId : Uuid} {a b : String} (h : table.getCorrelation conversationId a b = 0)
    {calls : List (TableCall F)} (hcalls : ∀ call ∈ calls, ¬ call.Records conversationId a b) :
    (TableCall.applyAll table calls).getCorrelation conversationId a b = 0 := by
  induction calls generalizing table with
  | nil => exact h
  | cons call rest ih =>
    exact ih (getCorrelation_apply_of_zero h (hcalls call List.mem_cons_self))
      fun later hlater => hcalls later (List.mem_cons_of_mem _ hlater)

/-! ## The bound -/

/-- Every correlation lies in `[0, 1)`. -/
def Bounded (table : EntanglementTable ℝ) : Prop :=
  ∀ conversationId a b, table.getCorrelation conversationId a b ∈ Set.Ico (0 : ℝ) 1

theorem bounded_new : Bounded new := fun _ _ _ => ⟨le_refl 0, zero_lt_one⟩

/-- One step of the moving average. -/
theorem bounded_apply {table : EntanglementTable ℝ} (h : Bounded table) {call : TableCall ℝ}
    (hcall : call.Rewarded) : Bounded (call.apply table) := by
  intro conversationId a b
  cases call with
  | pruneOld maxAgeSecs now =>
    rcases table.getCorrelation_pruneOld maxAgeSecs now conversationId a b with hkept | hzero
    · exact hkept.symm ▸ h conversationId a b
    · exact hzero.symm ▸ ⟨le_refl 0, zero_lt_one⟩
  | recordPair c a' b' reward now =>
    show (table.recordPair c a' b' reward now).getCorrelation conversationId a b ∈ _
    rw [getCorrelation_recordPair]
    split
    · obtain ⟨hlow, hhigh⟩ := h c a' b'
      have hreward : 0 ≤ reward ∧ reward ≤ 1 := hcall
      constructor <;> norm_num <;> linarith
    · exact h conversationId a b

theorem bounded_applyAll {calls : List (TableCall ℝ)} (hcalls : ∀ call ∈ calls, call.Rewarded) :
    Bounded (TableCall.applyAll new calls) := by
  induction calls using List.reverseRecOn with
  | nil => exact bounded_new
  | append_singleton calls call ih =>
    rw [TableCall.applyAll, List.foldl_append]
    exact bounded_apply (ih fun c hc => hcalls c (List.mem_append_left _ hc))
      (hcalls call (by simp))

end EntanglementTable

/-! ## Boosts -/

theorem normalizeWeights_eq (distribution : List (String × ℝ)) :
    normalizeWeights distribution = Weights.normalize distribution := by
  have htotal : (distribution.map (·.2)).foldl (· + ·) 0 = Weights.total distribution :=
    List.sum_eq_foldl.symm
  show (if 0 < (distribution.map (·.2)).foldl (· + ·) 0 then
      distribution.map fun entry => (entry.1, entry.2 / (distribution.map (·.2)).foldl (· + ·) 0)
    else distribution) = _
  rw [htotal, Weights.normalize]
  unfold Weights.share
  split
  · rfl
  · exact (List.map_id' distribution).symm

namespace EntanglementTable

/-- The factor of an endpoint. -/
noncomputable def boost (table : EntanglementTable ℝ) (conversationId : Uuid) (prev : String)
    (strength : ℝ) (endpointId : String) : ℝ :=
  1 + table.getCorrelation conversationId prev endpointId * strength

theorem boost_pos {table : EntanglementTable ℝ} (h : Bounded table) (conversationId : Uuid)
    (prev : String) {strength : ℝ} (hstrength : 0 ≤ strength) (endpointId : String) :
    0 < table.boost conversationId prev strength endpointId := by
  have hterm := mul_nonneg (h conversationId prev endpointId).1 hstrength
  unfold boost
  linarith

/-- The boost is a factor for each endpoint, and a division by the sum. -/
theorem applyEntanglement_eq (table : EntanglementTable ℝ) (conversationId : Uuid) (prev : String)
    (distribution : List (String × ℝ)) (strength : ℝ) :
    table.applyEntanglement conversationId (some prev) distribution strength =
      Weights.normalize
        (Weights.scale (table.boost conversationId prev strength) distribution) :=
  normalizeWeights_eq _

/-- A boosted distribution is one, entry by entry over the same endpoints. -/
theorem applyEntanglement_laws {table : EntanglementTable ℝ} (h : Bounded table)
    (conversationId : Uuid) (previous : Option String) {distribution : List (String × ℝ)}
    (hnonneg : ∀ e ∈ distribution, 0 ≤ e.2) (hsum : (distribution.map (·.2)).sum = 1)
    {strength : ℝ} (hstrength : 0 ≤ strength) :
    ∃ weight : String × ℝ → ℝ,
      table.applyEntanglement conversationId previous distribution strength =
          distribution.map (fun e => (e.1, weight e)) ∧
        (∀ e ∈ distribution, 0 ≤ weight e) ∧ (distribution.map weight).sum = 1 ∧
        (∀ e ∈ distribution, weight e = 0 ↔ e.2 = 0) ∧
        ∀ prev, previous = some prev → ∀ e ∈ distribution, ∀ e' ∈ distribution, e.2 = e'.2 →
          table.getCorrelation conversationId prev e.1 ≤
            table.getCorrelation conversationId prev e'.1 →
          weight e ≤ weight e' := by
  cases previous with
  | none =>
    refine ⟨Prod.snd, (List.map_id' distribution).symm, hnonneg, hsum, fun _ _ => Iff.rfl, ?_⟩
    intro prev hprev
    simp at hprev
  | some prev =>
    let boosted := Weights.scale (table.boost conversationId prev strength) distribution
    have hfactor := boost_pos h conversationId prev hstrength
    have hpos : 0 < Weights.total distribution := by
      show 0 < (distribution.map (·.2)).sum
      rw [hsum]
      exact zero_lt_one
    have htotal : 0 < Weights.total boosted := Weights.total_scale_pos hfactor hnonneg hpos
    have heq : table.applyEntanglement conversationId (some prev) distribution strength =
        distribution.map fun e => (e.1, Weights.share boosted
          (e.2 * table.boost conversationId prev strength e.1)) := by
      rw [applyEntanglement_eq, Weights.normalize_scale]
    refine ⟨_, heq, fun e he => ?_, ?_, fun e _ => ?_, fun prev' hprev e he e' _ hprior hcorr => ?_⟩
    · exact Weights.share_nonneg (mul_nonneg (hnonneg e he) (hfactor e.1).le)
    · have hone := Weights.total_normalize htotal
      rw [← applyEntanglement_eq, heq, Weights.total, List.map_map] at hone
      exact hone
    · rw [Weights.share_eq_zero_iff, mul_eq_zero, or_iff_left (hfactor e.1).ne']
    · obtain rfl : prev = prev' := Option.some.inj hprev
      refine Weights.share_le_share ?_
      rw [← hprior]
      have hterm := mul_le_mul_of_nonneg_right hcorr hstrength
      refine mul_le_mul_of_nonneg_left ?_ (hnonneg e he)
      unfold boost
      linarith

/-- The laws of correlations over any sequence of records and prunings. -/
theorem entanglement_laws {calls : List (TableCall ℝ)}
    (hcalls : ∀ call ∈ calls, call.Rewarded) :
    let table := TableCall.applyAll new calls
    (∀ c a b, table.getCorrelation c a b = table.getCorrelation c b a ∧
      table.getCorrelation c a b ∈ Set.Ico (0 : ℝ) 1) ∧
    (∀ before after c a b, calls = before ++ after →
      (TableCall.applyAll new before).correlations c = none →
      (∀ call ∈ after, ¬ call.Records c a b) → table.getCorrelation c a b = 0) ∧
    (∀ (c c' : Uuid) (a b a' b' : String) (reward : ℝ) (now : Int),
      c' ≠ c ∨ ¬ (a' = a ∧ b' = b ∨ a' = b ∧ b' = a) →
      (table.recordPair c a b reward now).getCorrelation c' a' b' =
        table.getCorrelation c' a' b') ∧
    ∀ (c : Uuid) (previous : Option String) (distribution : List (String × ℝ)) (strength : ℝ),
      (∀ e ∈ distribution, 0 ≤ e.2) → (distribution.map (·.2)).sum = 1 → 0 ≤ strength →
      ∃ weight : String × ℝ → ℝ,
        table.applyEntanglement c previous distribution strength =
            distribution.map (fun e => (e.1, weight e)) ∧
          (∀ e ∈ distribution, 0 ≤ weight e) ∧ (distribution.map weight).sum = 1 ∧
          (∀ e ∈ distribution, weight e = 0 ↔ e.2 = 0) ∧
          ∀ prev, previous = some prev → ∀ e ∈ distribution, ∀ e' ∈ distribution, e.2 = e'.2 →
            table.getCorrelation c prev e.1 ≤ table.getCorrelation c prev e'.1 →
            weight e ≤ weight e' := by
  intro table
  have hbounded : Bounded table := bounded_applyAll hcalls
  refine ⟨fun c a b => ⟨table.getCorrelation_comm c a b, hbounded c a b⟩, ?_, ?_, ?_⟩
  · intro before after c a b hsplit habsent hafter
    have hzero := getCorrelation_of_none _ habsent a b
    have hkept := getCorrelation_applyAll_of_zero hzero hafter
    rwa [TableCall.applyAll, TableCall.applyAll, ← List.foldl_append, ← hsplit] at hkept
  · intro c c' a b a' b' reward now hother
    rw [getCorrelation_recordPair, if_neg]
    rintro ⟨rfl, hkey⟩
    rcases hother with hne | hpair
    · exact hne rfl
    · exact hpair (orderedKey_eq_iff.mp hkey)
  · intro c previous distribution strength hnonneg hsum hstrength
    exact applyEntanglement_laws hbounded c previous hnonneg hsum hstrength

/-- After one record, the other endpoint of the pair is preferred to one that
was never recorded. -/
theorem entanglement_laws_one_record :
    let table := TableCall.applyAll new [.recordPair 1 "a" "b" (1 : ℝ) 0]
    table.getCorrelation 1 "a" "c" = 0 ∧
      ∃ weight : String × ℝ → ℝ,
        table.applyEntanglement 1 (some "a") [("b", 1 / 2), ("c", 1 / 2)] 1 =
          [("b", weight ("b", 1 / 2)), ("c", weight ("c", 1 / 2))] ∧
        weight ("c", 1 / 2) ≤ weight ("b", 1 / 2) := by
  intro table
  have hcalls : ∀ call ∈ [TableCall.recordPair 1 "a" "b" (1 : ℝ) 0], call.Rewarded := by
    intro call hcall
    obtain rfl := List.mem_singleton.mp hcall
    exact ⟨zero_le_one, le_refl 1⟩
  obtain ⟨hbounds, hzero, -, hlaws⟩ := entanglement_laws hcalls
  have hnever : table.getCorrelation 1 "a" "c" = 0 := by
    refine hzero [] _ 1 "a" "c" rfl rfl fun call hcall => ?_
    obtain rfl := List.mem_singleton.mp hcall
    simp [TableCall.Records]
  obtain ⟨weight, hweights, -, -, -, horder⟩ :=
    hlaws 1 (some "a") [("b", 1 / 2), ("c", 1 / 2)] 1 (by simp) (by norm_num) zero_le_one
  refine ⟨hnever, weight, hweights, horder "a" rfl _ (by simp) _ (by simp) rfl ?_⟩
  exact hnever.trans_le (hbounds 1 "a" "b").2.1

end EntanglementTable

end Xfiles.Quantum
