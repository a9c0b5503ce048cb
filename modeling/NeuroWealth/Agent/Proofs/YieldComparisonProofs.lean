import NeuroWealth.Foundation.Rounding
import NeuroWealth.Agent.YieldComparison

/-!
# Which comparisons the scores keep

A higher rate, less volatility and less risk raise the score of a protocol above the risk-free rate.
Below it the score is negative, so that less volatility and less risk lower it; and a protocol
without volatility is scored by another formula than its rivals.
-/

namespace NeuroWealth.YieldComparison

open Rounding

variable {e : YieldComparisonEngine} {p q : ProtocolYieldData} {protocols : List ProtocolYieldData}
  {now maxApyAgeMs : ℚ}

/-- At least as good in every respect. -/
structure ProtocolYieldData.AtLeast (p q : ProtocolYieldData) : Prop where
  apy : q.currentApy ≤ p.currentApy
  volatility : p.volatility ≤ q.volatility
  risk : p.riskScore ≤ q.riskScore

/-! ## The ranking -/

theorem mem_rankOpportunities (hp : p ∈ protocols) :
    e.opportunity p ∈ e.rankOpportunities protocols :=
  (List.perm_insertionSort _ _).mem_iff.mpr (List.mem_map_of_mem hp)

/-- No opportunity stands before one with a higher score. -/
theorem rankOpportunities_pairwise : (e.rankOpportunities protocols).Pairwise
    fun a b => b.riskAdjustedScore ≤ a.riskAdjustedScore := by
  have : Std.Total fun a b : YieldOpportunity => b.riskAdjustedScore ≤ a.riskAdjustedScore :=
    ⟨fun a b => le_total _ _⟩
  have : IsTrans YieldOpportunity fun a b => b.riskAdjustedScore ≤ a.riskAdjustedScore :=
    ⟨fun _ _ _ hab hbc => hbc.trans hab⟩
  exact List.pairwise_insertionSort _ _

/-- What `execute` moves to has the highest score. -/
theorem select_best {best : YieldOpportunity} (h : e.select protocols p = some best)
    (hq : q ∈ protocols) : (e.opportunity q).riskAdjustedScore ≤ best.riskAdjustedScore := by
  obtain ⟨hhead, -⟩ := Option.filter_eq_some_iff.mp h
  obtain ⟨rest, hranked⟩ : ∃ rest, e.rankOpportunities protocols = best :: rest :=
    List.head?_eq_some_iff.mp hhead
  have hmem := mem_rankOpportunities (e := e) hq
  have hpairwise : (e.rankOpportunities protocols).Pairwise
      fun a b => b.riskAdjustedScore ≤ a.riskAdjustedScore := rankOpportunities_pairwise
  rw [hranked] at hmem hpairwise
  rcases List.mem_cons.mp hmem with heq | hrest
  · rw [heq]
  · exact (List.pairwise_cons.mp hpairwise).1 _ hrest

/-! ## Two scores -/

/-- A score is below another where a half of a hundredth separates them. -/
theorem score_lt_iff :
    (e.opportunity p).riskAdjustedScore < (e.opportunity q).riskAdjustedScore ↔
      HalfBetween (e.riskAdjusted p * 100) (e.riskAdjusted q * 100) := by
  have hround : ∀ x : ℚ, YieldCheck.mathRound x = round x := fun x => (round_eq x).symm
  unfold YieldComparisonEngine.opportunity
  rw [← round_lt_round_iff, div_lt_div_iff_of_pos_right (by norm_num), hround, hround]
  exact Int.cast_lt

theorem score_le (h : e.riskAdjusted q ≤ e.riskAdjusted p) :
    (e.opportunity q).riskAdjustedScore ≤ (e.opportunity p).riskAdjustedScore := by
  by_contra hlt
  obtain ⟨n, hbelow, habove⟩ := score_lt_iff.mp (not_le.mp hlt)
  linarith

/-- A protocol with nothing out of range. -/
structure ProtocolYieldData.Plain (p : ProtocolYieldData) : Prop where
  apy : 0 ≤ p.currentApy
  volatility : 0 ≤ p.volatility
  penalty : 0 ≤ YieldComparisonEngine.riskPenalty p

theorem plain_of_usable {expected : String} (h : p.IsUsableApy now maxApyAgeMs expected) :
    p.Plain := by
  obtain ⟨-, hapy, -, -, -, hvolatility, -, -, hrisk, -⟩ := h
  refine ⟨hapy.1, hvolatility, ?_⟩
  unfold YieldComparisonEngine.riskPenalty
  linarith

theorem penalty_le (h : p.AtLeast q) :
    YieldComparisonEngine.riskPenalty q ≤ YieldComparisonEngine.riskPenalty p := by
  have hrisk := h.risk
  unfold YieldComparisonEngine.riskPenalty
  linarith

theorem riskAdjusted_of_riskless (h : p.volatility = 0) :
    e.riskAdjusted p = 100 * p.currentApy * YieldComparisonEngine.riskPenalty p := by
  unfold YieldComparisonEngine.riskAdjusted YieldComparisonEngine.calculateSharpeRatio
  rw [if_pos h.le]
  ring

theorem riskAdjusted_of_volatile (h : 0 < p.volatility) : e.riskAdjusted p =
    (p.currentApy - e.riskFreeRate) * YieldComparisonEngine.riskPenalty p / p.volatility := by
  unfold YieldComparisonEngine.riskAdjusted YieldComparisonEngine.calculateSharpeRatio
  rw [if_neg h.not_ge]
  ring

/-- Without volatility on either side the scores keep the order. -/
theorem riskAdjusted_le_of_riskless (h : p.AtLeast q) (hp : p.Plain) (hq : q.Plain)
    (hpv : p.volatility = 0) (hqv : q.volatility = 0) :
    e.riskAdjusted q ≤ e.riskAdjusted p := by
  rw [riskAdjusted_of_riskless hpv, riskAdjusted_of_riskless hqv]
  have hapy := h.apy
  have hnonneg := hp.apy
  exact mul_le_mul (by linarith) (penalty_le h) hq.penalty (by linarith)

/-- With volatility on both sides they do from the risk-free rate on. -/
theorem riskAdjusted_le_of_volatile (h : p.AtLeast q) (hp : p.Plain) (hq : q.Plain)
    (hpv : 0 < p.volatility) (hrate : e.riskFreeRate ≤ p.currentApy) :
    e.riskAdjusted q ≤ e.riskAdjusted p := by
  have hqv : 0 < q.volatility := lt_of_lt_of_le hpv h.volatility
  have hexcess : 0 ≤ p.currentApy - e.riskFreeRate := by linarith
  rw [riskAdjusted_of_volatile hpv, riskAdjusted_of_volatile hqv]
  have hnumerator : (q.currentApy - e.riskFreeRate) * YieldComparisonEngine.riskPenalty q ≤
      (p.currentApy - e.riskFreeRate) * YieldComparisonEngine.riskPenalty p :=
    mul_le_mul (by linarith [h.apy]) (penalty_le h) hq.penalty hexcess
  exact div_le_div₀ (mul_nonneg hexcess hp.penalty) hnumerator hpv h.volatility

/-- A protocol without volatility stays above one that does not beat the risk-free rate. -/
theorem riskAdjusted_le_of_mixed (hp : p.Plain) (hq : q.Plain) (hpv : p.volatility = 0)
    (hqv : 0 < q.volatility) (hrate : q.currentApy ≤ e.riskFreeRate) :
    e.riskAdjusted q ≤ e.riskAdjusted p := by
  rw [riskAdjusted_of_riskless hpv, riskAdjusted_of_volatile hqv]
  have hapy := hp.apy
  have hbelow : (q.currentApy - e.riskFreeRate) * YieldComparisonEngine.riskPenalty q /
      q.volatility ≤ 0 :=
    div_nonpos_of_nonpos_of_nonneg
      (mul_nonpos_of_nonpos_of_nonneg (by linarith) hq.penalty) hqv.le
  have habove : 0 ≤ 100 * p.currentApy * YieldComparisonEngine.riskPenalty p :=
    mul_nonneg (by linarith) hp.penalty
  exact hbelow.trans habove

/-! ## The order -/

/-- Each protocol is in the ranking with its score, and none is scored below another that it is at
    least as good as. -/
def Monotone (e : YieldComparisonEngine) (protocols : List ProtocolYieldData) : Prop :=
  ∀ p ∈ protocols, ∀ q ∈ protocols, p.AtLeast q →
    e.opportunity p ∈ e.rankOpportunities protocols ∧
      e.opportunity q ∈ e.rankOpportunities protocols ∧
      (e.opportunity q).riskAdjustedScore ≤ (e.opportunity p).riskAdjustedScore

/-- Of the two regions where the order can turn, the protocols avoid both, or no half of a hundredth
    lies between the products there. -/
structure Consistent (e : YieldComparisonEngine) (p q : ProtocolYieldData) : Prop where
  belowRiskFree : 0 < p.volatility → p.currentApy < e.riskFreeRate →
    ¬ HalfBetween
      (100 * ((p.currentApy - e.riskFreeRate) * ((100 - p.riskScore) / 100) / p.volatility))
      (100 * ((q.currentApy - e.riskFreeRate) * ((100 - q.riskScore) / 100) / q.volatility))
  riskless : p.volatility = 0 → 0 < q.volatility → e.riskFreeRate < q.currentApy →
    ¬ HalfBetween (100 * (100 * p.currentApy * ((100 - p.riskScore) / 100)))
      (100 * ((q.currentApy - e.riskFreeRate) * ((100 - q.riskScore) / 100) / q.volatility))

theorem score_le_iff_consistent (h : p.AtLeast q) (hp : p.Plain) (hq : q.Plain) :
    (e.opportunity q).riskAdjustedScore ≤ (e.opportunity p).riskAdjustedScore ↔
      Consistent e p q := by
  rcases hp.volatility.eq_or_lt with hpv | hpv
  · rcases hq.volatility.eq_or_lt with hqv | hqv
    · refine ⟨fun _ => ⟨fun hv => absurd hpv hv.ne, fun _ hv => absurd hqv hv.ne⟩, fun _ => ?_⟩
      exact score_le (riskAdjusted_le_of_riskless h hp hq hpv.symm hqv.symm)
    · rcases le_or_gt q.currentApy e.riskFreeRate with hrate | hrate
      · refine ⟨fun _ => ⟨fun hv => absurd hpv hv.ne, fun _ _ habove => absurd hrate habove.not_ge⟩,
          fun _ => ?_⟩
        exact score_le (riskAdjusted_le_of_mixed hp hq hpv.symm hqv hrate)
      · have hscores := not_congr (score_lt_iff (e := e) (p := p) (q := q))
        rw [not_lt, riskAdjusted_of_riskless hpv.symm, riskAdjusted_of_volatile hqv, mul_comm _ 100,
          mul_comm _ (100 : ℚ)] at hscores
        rw [hscores]
        exact ⟨fun hhalf => ⟨fun hv => absurd hpv hv.ne, fun _ _ _ => hhalf⟩,
          fun hcons => hcons.riskless hpv.symm hqv hrate⟩
  · have hqv : 0 < q.volatility := lt_of_lt_of_le hpv h.volatility
    rcases le_or_gt e.riskFreeRate p.currentApy with hrate | hrate
    · refine ⟨fun _ => ⟨fun _ hbelow => absurd hrate hbelow.not_ge, fun hv => absurd hv hpv.ne'⟩,
        fun _ => ?_⟩
      exact score_le (riskAdjusted_le_of_volatile h hp hq hpv hrate)
    · have hscores := not_congr (score_lt_iff (e := e) (p := p) (q := q))
      rw [not_lt, riskAdjusted_of_volatile hpv, riskAdjusted_of_volatile hqv, mul_comm _ 100,
        mul_comm _ (100 : ℚ)] at hscores
      rw [hscores]
      exact ⟨fun hhalf => ⟨fun _ _ => hhalf, fun hv => absurd hv hpv.ne'⟩,
        fun hcons => hcons.belowRiskFree hpv hrate⟩

/-- The ranking keeps the order of usable protocols if and only if every pair is consistent. -/
theorem rankOpportunities_monotone_iff
    (husable : ∀ p ∈ protocols, ∃ expected, p.IsUsableApy now maxApyAgeMs expected) :
    Monotone e protocols ↔
      ∀ p ∈ protocols, ∀ q ∈ protocols, p.AtLeast q → Consistent e p q := by
  have hplain : ∀ p ∈ protocols, p.Plain := fun p hp => by
    obtain ⟨expected, hexpected⟩ := husable p hp
    exact plain_of_usable hexpected
  constructor
  · intro h p hp q hq hpq
    exact (score_le_iff_consistent hpq (hplain p hp) (hplain q hq)).mp (h p hp q hq hpq).2.2
  · intro h p hp q hq hpq
    exact ⟨mem_rankOpportunities hp, mem_rankOpportunities hq,
      (score_le_iff_consistent hpq (hplain p hp) (hplain q hq)).mpr (h p hp q hq hpq)⟩

namespace Sample

/-- A protocol at two per cent, half of the risk-free rate. -/
def calm : ProtocolYieldData where
  protocolId := "blend"
  name := "Blend"
  currentApy := 2 / 100
  historicalApy7d := 2 / 100
  historicalApy30d := 2 / 100
  tvlUsdc := 1000000
  volatility := 1 / 100
  riskScore := 10
  fetchedAt := none

/-- The same with twice the volatility. -/
def choppy : ProtocolYieldData :=
  { calm with
    protocolId := "dex"
    name := "DEX"
    volatility := 2 / 100 }

theorem calm_choppy_ranked : Monotone {} [calm, choppy] ↔
    ∀ p ∈ [calm, choppy], ∀ q ∈ [calm, choppy], p.AtLeast q → Consistent {} p q := by
  have husable : ∀ p ∈ [calm, choppy], ∃ expected, p.IsUsableApy 0 900000 expected := by
    intro p hp
    rcases List.mem_pair.mp hp with rfl | rfl
    · exact ⟨"blend", by decide +kernel⟩
    · exact ⟨"dex", by decide +kernel⟩
  exact rankOpportunities_monotone_iff husable

/-- The calm one is scored -1.8, the choppy one -0.9. -/
theorem calm_below_choppy : calm.IsUsableApy 0 900000 "blend" ∧ choppy.IsUsableApy 0 900000 "dex" ∧
    ¬ Monotone {} [calm, choppy] := by
  refine ⟨by decide +kernel, by decide +kernel, fun h => ?_⟩
  have hle := (h calm (by simp) choppy (by simp) ⟨by decide +kernel, by decide +kernel,
    by decide +kernel⟩).2.2
  exact absurd hle (by decide +kernel)

end Sample

end NeuroWealth.YieldComparison
