import NeuroWealth.Monitoring.VaultMonitor

/-!
# The alerts of the vault monitor

A new monitor starts without hourly metrics, and no cycle adds any. So the check for a withdrawal
spike, which waits for them, is never made; the other two comparisons with the last metrics are.
-/

namespace NeuroWealth.Monitoring

variable {t : AlertThresholds} {now : ℤ} {current previous : HealthMetrics}
  {state : MonitoringState} {run past : List Cycle} {c : Cycle} {type : AlertType}

/-! ## What is to be alerted -/

/-- The metrics of the successful cycles, in their order. -/
def successes (run : List Cycle) : List HealthMetrics := run.filterMap Cycle.metrics

/-- Some of the alerts has the type. -/
def Raised (alerts : List Alert) (type : AlertType) : Prop := ∃ alert ∈ alerts, alert.type = type

/-- How metrics may have become worse, each under the type of its alert. -/
def Anomalous (t : AlertThresholds) (previous current : HealthMetrics) : AlertType → Prop
  | .tvlDrop => (current.tvl : ℚ) < previous.tvl * (1 - t.tvlDropPercentage / 100)
  | .sharePriceDecrease => current.sharePrice < previous.sharePrice * (1 - 1 / 100)
  | .withdrawalSpike =>
    (current.totalDeposits : ℚ) < previous.totalDeposits * (1 - 10 / 100)
  | _ => False

/-- A cycle of a run with new metrics, after at least two successful ones, and the metrics of the
    last of those. -/
structure Compared (run past : List Cycle) (c : Cycle) (previous current : HealthMetrics) :
    Prop where
  cycle : past ++ [c] <+: run
  experienced : 2 ≤ (successes past).length
  last : (successes past).getLast? = some previous
  collected : c.metrics = some current

/-- Every anomaly from the third successful cycle on is alerted in its cycle. -/
def AnomaliesAlerted (t : AlertThresholds) (run : List Cycle) : Prop :=
  ∀ past c previous current, Compared run past c previous current →
    ∀ type, Anomalous t previous current type → Raised (alertsOf t past c) type

/-- No cycle from the third successful one on has lost more than a tenth of the deposits. -/
def NoWithdrawalSpike (t : AlertThresholds) (run : List Cycle) : Prop :=
  ∀ past c previous current, Compared run past c previous current →
    ¬ Anomalous t previous current .withdrawalSpike

/-! ## The engine -/

/-- What the engine raises an alert of a type for. -/
def Grounds (t : AlertThresholds) (current : HealthMetrics) (previous : Option HealthMetrics)
    (state : MonitoringState) : AlertType → Prop
  | .tvlDrop => ∃ p, previous = some p ∧ TvlDropped t current p
  | .sharePriceDecrease => ∃ p, previous = some p ∧ current.sharePrice < p.sharePrice * (99 / 100)
  | .withdrawalSpike =>
    ∃ p, previous = some p ∧ state.hourlyMetrics ≠ [] ∧ WithdrawalSpiked current p
  | .capSaturation => CapSaturated t current
  | .pauseDurationExceeded => current.isPaused
  | .upgradeScheduled => current.pendingUpgrade.isSome
  | .agentUpdateProposed => current.pendingAgent.isSome
  | .queueDepthExceeded => ∃ depth, current.queueDepth = some depth ∧
    (t.queueCritical < depth ∨ t.queueWarning < depth)
  | _ => False

theorem raised_nil : ¬ Raised [] type := by
  rintro ⟨alert, hmem, -⟩
  cases hmem

theorem raised_singleton {a : Alert} : Raised [a] type ↔ a.type = type := by
  constructor
  · rintro ⟨alert, hmem, htype⟩
    rwa [List.mem_singleton.mp hmem] at htype
  · intro htype
    exact ⟨a, List.mem_singleton_self a, htype⟩

theorem raised_append {as bs : List Alert} :
    Raised (as ++ bs) type ↔ Raised as type ∨ Raised bs type := by
  unfold Raised
  simp only [List.mem_append, or_and_right, exists_or]

/-- An alert that is raised on a condition. -/
theorem raised_ite {p : Prop} [Decidable p] {a : Alert} :
    Raised (if p then some a else none : Option Alert).toList type ↔ p ∧ a.type = type := by
  split_ifs with hp
  · rw [Option.toList_some, raised_singleton]
    exact (and_iff_right hp).symm
  · exact iff_of_false raised_nil fun h => hp h.1

theorem raised_map {α : Type} {o : Option α} {f : α → Alert} {kind : AlertType}
    (hkind : ∀ x, (f x).type = kind) :
    Raised (o.map f).toList type ↔ o.isSome ∧ kind = type := by
  cases o with
  | none => exact iff_of_false raised_nil fun h => absurd h.1 (by simp)
  | some x =>
    rw [Option.map_some, Option.toList_some, raised_singleton, hkind]
    simp

theorem raised_timelocks : Raised (checkTimelocksMonitoring now current) type ↔
    current.pendingUpgrade.isSome ∧ .upgradeScheduled = type ∨
      current.pendingAgent.isSome ∧ .agentUpdateProposed = type := by
  unfold checkTimelocksMonitoring
  exact raised_append.trans (or_congr (raised_map fun _ => rfl) (raised_map fun _ => rfl))

theorem raised_queueDepth : Raised (checkQueueDepth t now current).toList type ↔
    (∃ depth, current.queueDepth = some depth ∧
      (t.queueCritical < depth ∨ t.queueWarning < depth)) ∧ .queueDepthExceeded = type := by
  unfold checkQueueDepth
  cases hdepth : current.queueDepth with
  | none => simp [raised_nil]
  | some depth =>
    simp only [Option.some.injEq, exists_eq_left']
    split_ifs with hcritical hwarning
    · simp [raised_singleton, hcritical]
    · simp [raised_singleton, hwarning]
    · simp [raised_nil, hcritical, hwarning]

/-- The check for a spike waits for hourly metrics. -/
theorem raised_withdrawalSpike : Raised (if 0 < state.hourlyMetrics.length then
    (checkWithdrawalSpike now current previous).toList else []) type ↔
      (state.hourlyMetrics ≠ [] ∧ WithdrawalSpiked current previous) ∧
        .withdrawalSpike = type := by
  rcases state.hourlyMetrics with _ | ⟨m, ms⟩
  · exact iff_of_false raised_nil fun h => h.1.1 rfl
  · rw [if_pos (List.length_pos_iff.mpr (List.cons_ne_nil m ms))]
    exact raised_ite.trans (and_congr_left' (and_iff_right (List.cons_ne_nil m ms)).symm)

/-- Every alert of the engine has its grounds, and all grounds have their alert. -/
theorem raised_detectAnomalies {previous : Option HealthMetrics} :
    Raised (detectAnomalies t now current previous state) type ↔
      Grounds t current previous state type := by
  unfold detectAnomalies
  simp only [raised_append, raised_queueDepth, raised_timelocks, checkCapSaturation,
    checkPauseDuration, raised_ite]
  cases previous with
  | none => cases type <;> simp [Grounds, raised_nil]
  | some p =>
    simp only [raised_append, checkTvlDrop, checkSharePriceDecrease, raised_ite,
      raised_withdrawalSpike]
    cases type <;> simp [Grounds]

/-! ## The state of the monitor -/

/-- What the later checks rest on: the last metrics are those of the last successful cycle, and
    there is no history. -/
structure Tracks (run : List Cycle) (state : MonitoringState) : Prop where
  last : state.lastMetrics = (successes run).getLast?
  hourly : state.hourlyMetrics = []
  daily : state.dailyMetrics = []

theorem Tracks.collectAndAnalyze (h : Tracks run state) (c : Cycle) :
    Tracks (run ++ [c]) (collectAndAnalyze t state c).1 := by
  obtain ⟨hlast, hhourly, hdaily⟩ := h
  cases c with
  | collected metrics checkedAt detectedAt storedAt =>
    refine ⟨?_, ?_, ?_⟩
    · simp [successes, Monitoring.collectAndAnalyze, storeMetrics, Cycle.metrics]
    · simp [Monitoring.collectAndAnalyze, storeMetrics, hhourly]
    · simp [Monitoring.collectAndAnalyze, storeMetrics, hdaily]
  | failed now =>
    refine ⟨?_, hhourly, hdaily⟩
    simpa [successes, Monitoring.collectAndAnalyze, Cycle.metrics] using hlast

theorem tracks_stateAfter (t : AlertThresholds) (run : List Cycle) :
    Tracks run (stateAfter t run) := by
  induction run using List.reverseRecOn with
  | nil => exact ⟨rfl, rfl, rfl⟩
  | append_singleton run c ih =>
    unfold stateAfter
    rw [List.foldl_append]
    exact ih.collectAndAnalyze c

/-- The alerts of a cycle with new metrics, in terms of those of the last successful one. -/
theorem raised_alertsOf (h : Compared run past c previous current) :
    Raised (alertsOf t past c) type ↔ Grounds t current (some previous) {} type := by
  obtain ⟨hlast, hhourly, -⟩ := tracks_stateAfter t past
  cases c with
  | failed now => cases h.collected
  | collected metrics checkedAt detectedAt storedAt =>
    obtain rfl : metrics = current := Option.some.inj h.collected
    have halerts : alertsOf t past (.collected metrics checkedAt detectedAt storedAt) =
        detectAnomalies t detectedAt metrics (stateAfter t past).lastMetrics
          { stateAfter t past with
            previousMetrics := (stateAfter t past).lastMetrics
            lastMetrics := some metrics
            isConnected := true
            lastRpcCheck := checkedAt } := rfl
    rw [halerts, raised_detectAnomalies, hlast, h.last]
    cases type <;> simp only [Grounds, hhourly]

/-! ## The anomalies of a run -/

/-- A drop in the TVL, as the engine finds it. -/
theorem tvlDropped_iff (hpositive : 0 < previous.tvl) :
    TvlDropped t current previous ↔ Anomalous t previous current .tvlDrop := by
  have hrational : (0 : ℚ) < previous.tvl := by exact_mod_cast hpositive
  unfold TvlDropped
  rw [if_neg hpositive.ne', div_lt_iff₀ hrational, mul_comm]
  exact Iff.rfl

/-- The check for a withdrawal spike is right; it is its history that it never gets. -/
theorem withdrawalSpiked_iff (hpositive : 0 < previous.totalDeposits) :
    WithdrawalSpiked current previous ↔ Anomalous t previous current .withdrawalSpike := by
  have hrational : (0 : ℚ) < previous.totalDeposits := by exact_mod_cast hpositive
  have hpercent : 10 < (withdrawalDelta current previous : ℚ) / previous.totalDeposits * 100 ↔
      (current.totalDeposits : ℚ) < previous.totalDeposits * (1 - 10 / 100) := by
    rw [← div_lt_iff₀ (by norm_num : (0 : ℚ) < 100), lt_div_iff₀ hrational, withdrawalDelta,
      Int.cast_sub]
    constructor <;> intro h <;> linarith
  unfold WithdrawalSpiked
  rw [or_iff_right hpositive.ne', hpercent]
  refine and_iff_right_of_imp fun hfall => ?_
  have hless : (current.totalDeposits : ℚ) < previous.totalDeposits := by
    change (current.totalDeposits : ℚ) < previous.totalDeposits * (1 - 10 / 100) at hfall
    linarith
  exact sub_pos.mpr (by exact_mod_cast hless)

theorem not_raised_withdrawalSpike (h : Compared run past c previous current) :
    ¬ Raised (alertsOf t past c) .withdrawalSpike := by
  rw [raised_alertsOf h]
  rintro ⟨p, -, hhistory, -⟩
  exact hhistory rfl

/-- Both metrics of a compared cycle are those of a cycle of the run. -/
theorem Compared.mem_successes (h : Compared run past c previous current) :
    previous ∈ successes run ∧ current ∈ successes run := by
  have hprefix : successes (past ++ [c]) <+: successes run := h.cycle.filterMap _
  have happend : successes (past ++ [c]) = successes past ++ successes [c] :=
    List.filterMap_append
  rw [happend] at hprefix
  constructor
  · exact hprefix.subset (List.mem_append_left _ (List.mem_of_getLast? h.last))
  · refine hprefix.subset (List.mem_append_right _ ?_)
    exact List.mem_filterMap.mpr ⟨c, List.mem_singleton_self c, h.collected⟩

theorem raised_tvlDrop (h : Compared run past c previous current) (hpositive : 0 < previous.tvl)
    (hdrop : Anomalous t previous current .tvlDrop) : Raised (alertsOf t past c) .tvlDrop := by
  rw [raised_alertsOf h]
  exact ⟨previous, rfl, (tvlDropped_iff hpositive).mpr hdrop⟩

theorem raised_sharePriceDecrease (h : Compared run past c previous current)
    (hdecrease : Anomalous t previous current .sharePriceDecrease) :
    Raised (alertsOf t past c) .sharePriceDecrease := by
  have hbound : current.sharePrice < previous.sharePrice * (1 - 1 / 100) := hdecrease
  rw [raised_alertsOf h]
  refine ⟨previous, rfl, ?_⟩
  norm_num at hbound
  exact hbound

/-- A run has its anomalies alerted exactly when none of them is a withdrawal spike. -/
theorem anomaliesAlerted_iff (hpositive : ∀ m ∈ successes run, 0 < m.tvl) :
    AnomaliesAlerted t run ↔ NoWithdrawalSpike t run := by
  constructor
  · intro halerted past c previous current h hspike
    exact not_raised_withdrawalSpike h (halerted past c previous current h _ hspike)
  · intro hnone past c previous current h type hanomalous
    cases type with
    | tvlDrop => exact raised_tvlDrop h (hpositive _ h.mem_successes.1) hanomalous
    | sharePriceDecrease => exact raised_sharePriceDecrease h hanomalous
    | withdrawalSpike => exact absurd hanomalous (hnone past c previous current h)
    | _ => exact hanomalous.elim

namespace Sample

def thresholds : AlertThresholds := ⟨20, 95, none, none⟩

/-- A vault with a share for each unit of the deposits, and no timelock pending. -/
def reading (assets deposits : ℤ) : Readings :=
  ⟨assets, deposits, deposits, false, 10000, none, none⟩

/-- A cycle at a time of the clock. -/
def cycle (now assets deposits : ℤ) : Cycle :=
  .collected (collectMetrics now now (reading assets deposits)) now now now

/-- The third success, after a failure, finds 30 % of the assets lost. -/
def sunk : List Cycle := [cycle 0 1000 1000, cycle 10 1000 1000, .failed 20, cycle 30 700 1000]

theorem sunk_alerted : AnomaliesAlerted thresholds sunk := by
  have hdeposits : ∀ m ∈ successes sunk, m.totalDeposits = 1000 := by decide +kernel
  refine (anomaliesAlerted_iff (by decide +kernel)).mpr ?_
  intro past c previous current h hspike
  have hfall : (current.totalDeposits : ℚ) < previous.totalDeposits * (1 - 10 / 100) := hspike
  rw [hdeposits _ h.mem_successes.1, hdeposits _ h.mem_successes.2] at hfall
  norm_num at hfall

/-- The third cycle finds 15 % of the deposits withdrawn. -/
def drained : List Cycle := [cycle 0 1000 1000, cycle 10 1000 1000, cycle 20 850 850]

/-- The cycle of the withdrawal raises no alert at all. -/
theorem drained_silent :
    (∀ m ∈ successes drained, 0 < m.tvl ∧ 0 < m.totalDeposits ∧ 0 < m.sharePrice) ∧
      ¬ AnomaliesAlerted thresholds drained := by
  refine ⟨by decide +kernel, fun halerted => ?_⟩
  have hcompared : Compared drained [cycle 0 1000 1000, cycle 10 1000 1000] (cycle 20 850 850)
      (collectMetrics 10 10 (reading 1000 1000)) (collectMetrics 20 20 (reading 850 850)) :=
    ⟨List.prefix_refl _, le_refl 2, rfl, rfl⟩
  have hspike : Anomalous thresholds (collectMetrics 10 10 (reading 1000 1000))
      (collectMetrics 20 20 (reading 850 850)) .withdrawalSpike := by
    show ((850 : ℤ) : ℚ) < ((1000 : ℤ) : ℚ) * (1 - 10 / 100)
    norm_num
  obtain ⟨alert, hmem, -⟩ := halerted _ _ _ _ hcompared _ hspike
  have hsilent : alertsOf thresholds [cycle 0 1000 1000, cycle 10 1000 1000] (cycle 20 850 850) =
      [] := by
    decide +kernel
  rw [hsilent] at hmem
  cases hmem

end Sample

end NeuroWealth.Monitoring
