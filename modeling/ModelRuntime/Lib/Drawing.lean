import Mathlib.Probability.ProbabilityMassFunction.Constructions

/-!
# Drawing in proportion to weights

A law that is proportional to given weights, of any sum that is neither zero nor infinite. Conditioning on an event
clears the weights outside it, and renaming the outcomes carries the weights along.
-/

namespace ModelRuntime.Lib

open scoped ENNReal

/-- Finitely many finite weights. -/
theorem tsum_ne_top_of_lt {weight : Nat → ℝ≥0∞} {n : Nat} (outside : ∀ i, n ≤ i → weight i = 0)
    (each : ∀ i, weight i ≠ ∞) : tsum weight ≠ ∞ := by
  rw [tsum_eq_sum fun i mem => outside i (Nat.not_lt.1 fun less => mem (Finset.mem_range.2 less))]
  exact ENNReal.sum_ne_top.2 fun i _ => each i

theorem tsum_ne_zero_of {α : Type*} {weight : α → ℝ≥0∞} {a : α} (held : weight a ≠ 0) : tsum weight ≠ 0 :=
  fun vanish => held (ENNReal.tsum_eq_zero.1 vanish a)

/-- Events that differ outside of what is drawn only give the same conditional law. -/
theorem filter_congr {α : Type*} {law : PMF α} {event event' : Set α} (some : ∃ a ∈ event, a ∈ law.support)
    (some' : ∃ a ∈ event', a ∈ law.support) (same : event ∩ law.support = event' ∩ law.support) :
    law.filter event some = law.filter event' some' := by
  have masses : event.indicator law = event'.indicator law := by
    rw [← Set.indicator_inter_support event, ← Set.indicator_inter_support event']
    exact congrArg (fun both : Set α => both.indicator law) same
  ext a
  rw [PMF.filter_apply, PMF.filter_apply, masses]

/-- The law draws in proportion to the weights. -/
structure DrawsBy {α : Type*} (law : PMF α) (weight : α → ℝ≥0∞) : Prop where
  nonzero : tsum weight ≠ 0
  finite : tsum weight ≠ ∞
  scaled : ∀ a, law a = weight a * (tsum weight)⁻¹

namespace DrawsBy

variable {α β : Type*} {law law' : PMF α} {weight : α → ℝ≥0∞}

theorem normalize (nonzero : tsum weight ≠ 0) (finite : tsum weight ≠ ∞) :
    DrawsBy (PMF.normalize weight nonzero finite) weight :=
  ⟨nonzero, finite, PMF.normalize_apply nonzero finite⟩

/-- There is one such law. -/
theorem unique (draws : DrawsBy law weight) (draws' : DrawsBy law' weight) : law = law' := by
  ext a
  rw [draws.scaled, draws'.scaled]

/-- Something is drawn. -/
theorem exists_weight (draws : DrawsBy law weight) : ∃ a, weight a ≠ 0 := by
  by_contra none
  apply draws.nonzero
  refine ENNReal.tsum_eq_zero.2 fun a => ?_
  by_contra held
  exact none ⟨a, held⟩

theorem mem_support (draws : DrawsBy law weight) (a : α) : a ∈ law.support ↔ weight a ≠ 0 := by
  rw [PMF.mem_support_iff, draws.scaled, Ne, mul_eq_zero, ENNReal.inv_eq_zero, not_or]
  exact and_iff_left draws.finite

/-- **Conditioning** clears the weights outside the event. -/
theorem filter (draws : DrawsBy law weight) {event : Set α} (some : ∃ a ∈ event, a ∈ law.support) :
    DrawsBy (law.filter event some) (event.indicator weight) := by
  have inside : event.indicator law = fun a => event.indicator weight a * (tsum weight)⁻¹ := by
    funext a
    by_cases mem : a ∈ event
    · rw [Set.indicator_of_mem mem, Set.indicator_of_mem mem, draws.scaled]
    · rw [Set.indicator_of_notMem mem, Set.indicator_of_notMem mem, zero_mul]
  -- Both sides are scaled alike, so the scale cancels.
  have scale : (tsum weight)⁻¹ ≠ 0 := ENNReal.inv_ne_zero.2 draws.finite
  have scale' : (tsum weight)⁻¹ ≠ ∞ := ENNReal.inv_ne_top.2 draws.nonzero
  refine ⟨?_, ?_, fun a => ?_⟩
  · obtain ⟨a, mem, held⟩ := some
    exact tsum_ne_zero_of (Set.indicator_apply_ne_zero.2 ⟨mem, (draws.mem_support a).1 held⟩)
  · exact ne_top_of_le_ne_top draws.finite (ENNReal.tsum_le_tsum fun a => Set.indicator_le_self _ _ a)
  · rw [PMF.filter_apply, inside, ENNReal.tsum_mul_right, ENNReal.mul_inv (.inr scale') (.inr scale), mul_mul_mul_comm,
      ENNReal.mul_inv_cancel scale scale', mul_one]

/-- **Renaming** the outcomes that have a weight. -/
theorem map (draws : DrawsBy law weight) (name : α → β) (back : β → α) (left : ∀ a, weight a ≠ 0 → back (name a) = a)
    (right : ∀ b, weight (back b) ≠ 0 → name (back b) = b) : DrawsBy (law.map name) fun b => weight (back b) := by
  have each : ∀ b, law.map name b = weight (back b) * (tsum weight)⁻¹ := by
    intro b
    -- At most one outcome of a weight is named `b`.
    rw [PMF.map_apply, tsum_eq_single (back b), draws.scaled]
    · by_cases held : weight (back b) = 0
      · rw [held, zero_mul, ite_self]
      · rw [if_pos (right b held).symm]
    · intro a other
      rw [draws.scaled]
      by_cases held : weight a = 0
      · rw [held, zero_mul, ite_self]
      · refine if_neg fun same => other ?_
        rw [same, left a held]
  -- The mapped law sums to one, which fixes the sum of its weights.
  have whole : (tsum fun b => weight (back b)) = tsum weight := by
    have one := (law.map name).tsum_coe
    simp only [each] at one
    rw [ENNReal.tsum_mul_right] at one
    rw [← ENNReal.div_eq_one_iff draws.nonzero draws.finite, ENNReal.div_eq_inv_mul, mul_comm]
    exact one
  exact ⟨by rw [whole]; exact draws.nonzero, by rw [whole]; exact draws.finite, fun b => by rw [whole, each]⟩

end DrawsBy

end ModelRuntime.Lib
