import NeuroWealth.Foundation.Rounding

/-!
# The strategy aggregator

The agent's target allocation: the average of the depositors' strategies, each depositor counted once.
-/

namespace NeuroWealth.StrategyAggregator

/-- An allocation in basis points. -/
structure StrategyWeights where
  blendBps : ℤ
  dexBps : ℤ
deriving DecidableEq

inductive Strategy where
  | conservative
  | balanced
  | growth

def STRATEGY_WEIGHTS : Strategy → StrategyWeights
  | .conservative => ⟨10000, 0⟩
  | .balanced => ⟨6000, 4000⟩
  | .growth => ⟨2000, 8000⟩

/-- For users who have not called `set_user_strategy`. -/
def DEFAULT_STRATEGY : Strategy := .balanced

/-- How many depositors follow each strategy. -/
structure StrategyDistribution where
  conservative : ℕ
  balanced : ℕ
  growth : ℕ

namespace StrategyDistribution

variable (d : StrategyDistribution)

def total : ℕ := d.conservative + d.balanced + d.growth

/-- The sum of one leg of the weights over all depositors. -/
def weighted (leg : StrategyWeights → ℤ) : ℤ :=
  d.conservative * leg (STRATEGY_WEIGHTS .conservative) +
    d.balanced * leg (STRATEGY_WEIGHTS .balanced) + d.growth * leg (STRATEGY_WEIGHTS .growth)

/-- The exact average of one leg. -/
def average (leg : StrategyWeights → ℤ) : ℚ := d.weighted leg / d.total

/-- `Math.round` takes a half up. -/
def computeAggregateAllocation : StrategyWeights :=
  if d.total = 0 then STRATEGY_WEIGHTS DEFAULT_STRATEGY
  else ⟨round (d.average StrategyWeights.blendBps), round (d.average StrategyWeights.dexBps)⟩

end StrategyDistribution

end NeuroWealth.StrategyAggregator
