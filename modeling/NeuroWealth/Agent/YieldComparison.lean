import NeuroWealth.Agent.RebalanceCall

/-!
# Comparing yields

The score of a protocol and the ranking by it, over exact rationals.
-/

namespace NeuroWealth.YieldComparison

open YieldCheck (mathRound)

structure ProtocolYieldData where
  protocolId : String
  name : String
  currentApy : ℚ
  historicalApy7d : ℚ
  historicalApy30d : ℚ
  tvlUsdc : ℚ
  volatility : ℚ
  riskScore : ℚ
  /-- Epoch milliseconds, when the adapter supplies them. -/
  fetchedAt : Option ℚ
deriving DecidableEq

/-- The test on the data of a fetcher. A rational is always finite. -/
def ProtocolYieldData.IsUsableApy (now maxApyAgeMs : ℚ) (data : ProtocolYieldData)
    (expectedProtocolId : String) : Prop :=
  data.protocolId = expectedProtocolId ∧ YieldCheck.IsUsableApy data.currentApy ∧
    YieldCheck.IsUsableApy data.historicalApy7d ∧ YieldCheck.IsUsableApy data.historicalApy30d ∧
    0 ≤ data.tvlUsdc ∧ 0 ≤ data.volatility ∧ (0 < data.volatility → 1 / 10 ^ 12 ≤ data.volatility) ∧
    1 ≤ data.riskScore ∧ data.riskScore ≤ 100 ∧
    ∀ fetchedAt ∈ data.fetchedAt, -60000 ≤ now - fetchedAt ∧ now - fetchedAt ≤ maxApyAgeMs
deriving Decidable

structure YieldOpportunity where
  protocolId : String
  name : String
  netApy : ℚ
  riskAdjustedScore : ℚ
  recommendedAllocationPercent : ℚ
deriving DecidableEq

structure YieldComparisonEngine where
  minImprovementThreshold : ℚ := 5 / 1000
  riskFreeRate : ℚ := 4 / 100

namespace YieldComparisonEngine

variable (e : YieldComparisonEngine)

def calculateSharpeRatio (apy volatility : ℚ) : ℚ :=
  if volatility ≤ 0 then apy / (1 / 100) else (apy - e.riskFreeRate) / volatility

def riskPenalty (p : ProtocolYieldData) : ℚ := (100 - p.riskScore) / 100

/-- The score before it is rounded. -/
def riskAdjusted (p : ProtocolYieldData) : ℚ :=
  e.calculateSharpeRatio p.currentApy p.volatility * riskPenalty p

def opportunity (p : ProtocolYieldData) : YieldOpportunity where
  protocolId := p.protocolId
  name := p.name
  netApy := p.currentApy
  riskAdjustedScore := mathRound (e.riskAdjusted p * 100) / 100
  recommendedAllocationPercent := 0

/-- The sort is stable, best score first. -/
def rankOpportunities (protocols : List ProtocolYieldData) : List YieldOpportunity :=
  (protocols.map e.opportunity).insertionSort fun a b => b.riskAdjustedScore ≤ a.riskAdjustedScore

def shouldRebalance (currentApy targetApy : ℚ) : Prop :=
  e.minImprovementThreshold ≤ targetApy - currentApy
deriving Decidable

/-- The protocol that `execute` moves to from `current`, if any. -/
def select (protocols : List ProtocolYieldData) (current : ProtocolYieldData) :
    Option YieldOpportunity :=
  (e.rankOpportunities protocols).head?.filter fun best =>
    best.protocolId ≠ current.protocolId ∧ e.shouldRebalance current.currentApy best.netApy

end YieldComparisonEngine

end NeuroWealth.YieldComparison
