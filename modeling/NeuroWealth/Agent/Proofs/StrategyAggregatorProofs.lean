import NeuroWealth.Agent.StrategyAggregator
import NeuroWealth.Vault.Proofs.RebalancingProofs

/-!
# Allocations the vault accepts

The legs of the average are rounded on their own. They add up to the whole unless both averages end
on a half, and then the vault rejects the pair.
-/

namespace NeuroWealth.StrategyAggregator

open Rounding

namespace StrategyDistribution

variable {d : StrategyDistribution}

/-- What all depositors put into Blend. -/
def weightedBlend (d : StrategyDistribution) : ℕ :=
  10000 * d.conservative + 6000 * d.balanced + 2000 * d.growth

/-- Both legs are within one basis point of the average, they add up to the whole, and the vault's
    check accepts them. -/
structure Valid (d : StrategyDistribution) (w : StrategyWeights) : Prop where
  blend : |(w.blendBps : ℚ) - d.average StrategyWeights.blendBps| ≤ 1
  dex : |(w.dexBps : ℚ) - d.average StrategyWeights.dexBps| ≤ 1
  sum : w.blendBps + w.dexBps = 10000
  accepted : ∀ env t, (Vault.requireValidAllocation w.blendBps.toNat w.dexBps.toNat).Ok env t () t

theorem average_blendBps : d.average StrategyWeights.blendBps = (d.weightedBlend : ℚ) / d.total := by
  unfold average weighted weightedBlend STRATEGY_WEIGHTS
  push_cast
  ring

/-- The weights of a strategy add up, so the averages do. -/
theorem average_dexBps (h : 0 < d.total) :
    d.average StrategyWeights.dexBps = (10000 : ℤ) - d.average StrategyWeights.blendBps := by
  have hne : (d.total : ℚ) ≠ 0 := Nat.cast_ne_zero.mpr h.ne'
  have hsum : (d.total : ℚ) = d.conservative + d.balanced + d.growth := by
    unfold total
    push_cast
    ring
  have hwhole : d.weighted StrategyWeights.blendBps + d.weighted StrategyWeights.dexBps =
      10000 * ((d.conservative : ℤ) + d.balanced + d.growth) := by
    unfold weighted STRATEGY_WEIGHTS
    ring
  have hwhole' : (d.weighted StrategyWeights.blendBps : ℚ) + d.weighted StrategyWeights.dexBps =
      10000 * d.total := by
    rw [hsum]
    exact_mod_cast hwhole
  unfold average
  rw [eq_sub_iff_add_eq, ← add_div, add_comm, hwhole']
  push_cast
  exact mul_div_cancel_right₀ _ hne

/-- An average is between nothing and the whole. -/
theorem average_blendBps_bounds :
    0 ≤ d.average StrategyWeights.blendBps ∧ d.average StrategyWeights.blendBps ≤ 10000 := by
  have hle : d.weightedBlend ≤ 10000 * d.total := by
    unfold weightedBlend total
    omega
  rw [average_blendBps]
  constructor
  · positivity
  · rcases Nat.eq_zero_or_pos d.total with hzero | hpos
    · rw [hzero]
      norm_num
    · rw [div_le_iff₀ (by exact_mod_cast hpos)]
      exact_mod_cast hle

/-- The two rounded legs. -/
theorem computeAggregateAllocation_sum (h : 0 < d.total) :
    d.computeAggregateAllocation.blendBps + d.computeAggregateAllocation.dexBps =
      10000 + if 2 * (d.weightedBlend % d.total) = d.total then 1 else 0 := by
  unfold computeAggregateAllocation
  rw [if_neg h.ne']
  show round (d.average StrategyWeights.blendBps) + round (d.average StrategyWeights.dexBps) = _
  rw [average_dexBps h, round_add_round_sub, average_blendBps]
  simp only [two_mul_fract_div_eq_one h]

theorem computeAggregateAllocation_bounds (h : 0 < d.total) :
    (0 ≤ d.computeAggregateAllocation.blendBps ∧ d.computeAggregateAllocation.blendBps ≤ 10000) ∧
      0 ≤ d.computeAggregateAllocation.dexBps ∧ d.computeAggregateAllocation.dexBps ≤ 10000 := by
  have hround : ∀ {x : ℚ}, 0 ≤ x → x ≤ 10000 → 0 ≤ round x ∧ round x ≤ 10000 := by
    intro x hlow hhigh
    have hzero : round (0 : ℚ) ≤ round x := round_mono hlow
    have hwhole : round x ≤ round ((10000 : ℤ) : ℚ) := round_mono (by exact_mod_cast hhigh)
    rw [round_zero] at hzero
    rw [round_intCast] at hwhole
    exact ⟨hzero, hwhole⟩
  obtain ⟨hlow, hhigh⟩ := average_blendBps_bounds (d := d)
  unfold computeAggregateAllocation
  rw [if_neg h.ne']
  refine ⟨hround hlow hhigh, hround ?_ ?_⟩
  · rw [average_dexBps h]
    push_cast
    linarith
  · rw [average_dexBps h]
    push_cast
    linarith

/-- The computed allocation is valid exactly when twice the remainder of the weighted sum is not the
    number of depositors. -/
theorem aggregate_valid_iff (h : 0 < d.total) :
    d.Valid d.computeAggregateAllocation ↔ 2 * (d.weightedBlend % d.total) ≠ d.total := by
  have hsum := computeAggregateAllocation_sum h
  obtain ⟨⟨hblend, hblend'⟩, hdex, hdex'⟩ := computeAggregateAllocation_bounds h
  constructor
  · intro hvalid hhalf
    rw [if_pos hhalf, hvalid.sum] at hsum
    omega
  · intro hhalf
    rw [if_neg hhalf] at hsum
    refine ⟨?_, ?_, by omega, fun env t => ?_⟩
    · unfold computeAggregateAllocation
      rw [if_neg h.ne']
      exact abs_round_sub_le_one
    · unfold computeAggregateAllocation
      rw [if_neg h.ne']
      exact abs_round_sub_le_one
    · refine Transaction.Tx.ok_require.mpr ⟨⟨?_, ?_, ?_⟩, rfl⟩
      · show _ ≤ 10000
        omega
      · show _ ≤ 10000
        omega
      · show min _ _ ≤ 10000
        omega

theorem quarter_valid : (⟨2, 1, 1⟩ : StrategyDistribution).Valid ⟨7000, 3000⟩ := by
  have hcomputed : (⟨2, 1, 1⟩ : StrategyDistribution).computeAggregateAllocation = ⟨7000, 3000⟩ := by
    decide +kernel
  have hvalid := (aggregate_valid_iff (d := ⟨2, 1, 1⟩) (by decide)).mpr (by decide)
  rw [hcomputed] at hvalid
  exact hvalid

/-- One balanced depositor among sixty-three for growth: both averages end on a half, and the vault
    rejects the pair. -/
theorem halves_rejected :
    (⟨0, 1, 63⟩ : StrategyDistribution).computeAggregateAllocation = ⟨2063, 7938⟩ ∧
      (∀ env t u t', ¬ (Vault.requireValidAllocation 2063 7938).Ok env t u t') ∧
      ¬ (⟨0, 1, 63⟩ : StrategyDistribution).Valid
        (⟨0, 1, 63⟩ : StrategyDistribution).computeAggregateAllocation := by
  have hcomputed : (⟨0, 1, 63⟩ : StrategyDistribution).computeAggregateAllocation =
      ⟨2063, 7938⟩ := by decide +kernel
  refine ⟨hcomputed, fun env t u t' hok => ?_, fun hvalid => ?_⟩
  · exact absurd (Transaction.Tx.ok_require.mp hok).1 (by decide)
  · rw [hcomputed] at hvalid
    exact absurd hvalid.sum (by decide)

end StrategyDistribution

end NeuroWealth.StrategyAggregator
