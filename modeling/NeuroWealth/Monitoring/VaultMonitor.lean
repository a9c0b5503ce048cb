import Mathlib

/-!
# The vault monitor

Cycles that collect the metrics of the vault, compare them with the last ones and raise alerts.
Amounts are integers; prices, percentages and quotients of amounts are exact rationals.
-/

namespace NeuroWealth.Monitoring

/-- `none` stands for a threshold that was left out. -/
structure AlertThresholds where
  tvlDropPercentage : ℚ
  capSaturationPercentage : ℚ
  queueDepthWarningThreshold : Option ℚ
  queueDepthCriticalThreshold : Option ℚ

structure PendingTimelock where
  hash : String
  expiryLedger : ℤ
deriving DecidableEq

structure HealthMetrics where
  timestamp : ℤ
  ledgerSequence : ℤ
  tvl : ℤ
  totalShares : ℤ
  totalDeposits : ℤ
  isPaused : Bool
  sharePrice : ℚ
  tvlCap : ℤ
  queueDepth : Option ℕ := none
  pendingUpgrade : Option PendingTimelock
  pendingAgent : Option PendingTimelock
deriving DecidableEq

inductive AlertType where
  | tvlDrop
  | pauseDurationExceeded
  | withdrawalSpike
  | capSaturation
  | sharePriceDecrease
  | failedRebalance
  | upgradeScheduled
  | agentUpdateProposed
  | ownerTransferInitiated
  | anomalousActivity
  | rpcConnectivity
  | queueDepthExceeded
deriving DecidableEq

inductive Severity where
  | info
  | warning
  | critical
deriving DecidableEq

/-- The figures of an alert, without the percentages that its message derives from them. -/
inductive AlertMetrics where
  | tvl (previous current : ℤ)
  | price (previous current : ℚ)
  | withdrawal (withdrawn : ℤ)
  | cap (tvl tvlCap : ℤ)
  | pause (ledger : ℤ)
  | timelock (pending : String) (expiryLedger currentLedger ledgersRemaining : ℤ)
  | queue (depth : ℕ) (critical : Option ℚ) (warning : ℚ)
  | none
deriving DecidableEq

/-- The identifier of an alert is made of its type and its time. -/
structure Alert where
  type : AlertType
  severity : Severity
  title : String
  metrics : AlertMetrics
  timestamp : ℤ
deriving DecidableEq

structure MetricRecord where
  timestamp : ℤ
  ledger : ℤ
  value : ℚ
  unit : String

structure MonitoringState where
  lastMetrics : Option HealthMetrics := none
  previousMetrics : Option HealthMetrics := none
  hourlyMetrics : List MetricRecord := []
  dailyMetrics : List MetricRecord := []
  activeAlerts : List Alert := []
  lastRpcCheck : ℤ := 0
  isConnected : Bool := false

/-! ## Collecting -/

/-- A pending timelock as the vault answers it, each part possibly missing. -/
structure TimelockReading where
  hash : Option String
  expiry : Option ℤ

/-- What the vault answers. `none` stands for no timelock, or for a query of it that failed. -/
structure Readings where
  totalAssets : ℤ
  totalShares : ℤ
  totalDeposits : ℤ
  isPaused : Bool
  tvlCap : ℤ
  pendingUpgrade : Option TimelockReading
  pendingAgent : Option TimelockReading

def TimelockReading.pending (r : TimelockReading) : PendingTimelock :=
  ⟨r.hash.getD "", r.expiry.getD 0⟩

def collectMetrics (sequence now : ℤ) (r : Readings) : HealthMetrics where
  timestamp := now
  ledgerSequence := sequence
  tvl := r.totalAssets
  totalShares := r.totalShares
  totalDeposits := r.totalDeposits
  isPaused := r.isPaused
  sharePrice := if 0 < r.totalShares then r.totalAssets / r.totalShares else 0
  tvlCap := r.tvlCap
  pendingUpgrade := r.pendingUpgrade.map TimelockReading.pending
  pendingAgent := r.pendingAgent.map TimelockReading.pending

/-! ## The alert engine -/

section

variable (t : AlertThresholds) (now : ℤ) (current previous : HealthMetrics)

namespace AlertThresholds

def queueCritical : ℚ := t.queueDepthCriticalThreshold.getD 75

def queueWarning : ℚ := t.queueDepthWarningThreshold.getD 50

end AlertThresholds

/-- Of a TVL of zero the factor is infinite or `NaN`, and below the threshold only if negative. -/
def TvlDropped : Prop :=
  if previous.tvl = 0 then current.tvl < 0
  else (current.tvl : ℚ) / previous.tvl < 1 - t.tvlDropPercentage / 100
deriving Decidable

def checkTvlDrop : Option Alert :=
  if TvlDropped t current previous then
    some ⟨.tvlDrop, .critical, "Critical: TVL Dropped Significantly",
      .tvl previous.tvl current.tvl, now⟩
  else none

def checkSharePriceDecrease : Option Alert :=
  if current.sharePrice < previous.sharePrice * (99 / 100) then
    some ⟨.sharePriceDecrease, .critical, "Critical: Share Price Decreased",
      .price previous.sharePrice current.sharePrice, now⟩
  else none

def withdrawalDelta : ℤ := previous.totalDeposits - current.totalDeposits

/-- Of deposits of zero the percentage is infinite. -/
def WithdrawalSpiked : Prop :=
  0 < withdrawalDelta current previous ∧
    (previous.totalDeposits = 0 ∨
      10 < (withdrawalDelta current previous : ℚ) / previous.totalDeposits * 100)
deriving Decidable

def checkWithdrawalSpike : Option Alert :=
  if WithdrawalSpiked current previous then
    some ⟨.withdrawalSpike, .warning, "Withdrawal Spike Detected",
      .withdrawal (withdrawalDelta current previous), now⟩
  else none

/-- Of a cap of zero the saturation is infinite or `NaN`, and above the threshold only if the TVL is
    positive. -/
def CapSaturated : Prop :=
  if current.tvlCap = 0 then 0 < current.tvl
  else t.capSaturationPercentage / 100 < (current.tvl : ℚ) / current.tvlCap
deriving Decidable

def checkCapSaturation : Option Alert :=
  if CapSaturated t current then
    some ⟨.capSaturation, .warning, "TVL Cap Approaching Saturation",
      .cap current.tvl current.tvlCap, now⟩
  else none

def checkPauseDuration : Option Alert :=
  if current.isPaused then
    some ⟨.pauseDurationExceeded, .warning, "Vault is Paused", .pause current.ledgerSequence, now⟩
  else none

/-- The figures of a pending timelock, with the first characters of its hash. -/
def timelockMetrics (p : PendingTimelock) : AlertMetrics :=
  .timelock (String.ofList (p.hash.toList.take 16) ++ "...") p.expiryLedger current.ledgerSequence
    (max 0 (p.expiryLedger - current.ledgerSequence))

def checkTimelocksMonitoring : List Alert :=
  (current.pendingUpgrade.map fun p =>
    ⟨.upgradeScheduled, .warning, "Contract Upgrade Scheduled",
      timelockMetrics current p, now⟩).toList ++
  (current.pendingAgent.map fun p =>
    ⟨.agentUpdateProposed, .warning, "Agent Update Proposed",
      timelockMetrics current p, now⟩).toList

def checkQueueDepth : Option Alert :=
  match current.queueDepth with
  | none => none
  | some depth =>
    if t.queueCritical < depth then
      some ⟨.queueDepthExceeded, .critical, "Critical: Transaction Queue Depth Exceeded",
        .queue depth (some t.queueCritical) t.queueWarning, now⟩
    else if t.queueWarning < depth then
      some ⟨.queueDepthExceeded, .warning, "Warning: Transaction Queue Depth Elevated",
        .queue depth none t.queueWarning, now⟩
    else none

end

/-- The alerts of new metrics, in the order of the checks. -/
def detectAnomalies (t : AlertThresholds) (now : ℤ) (current : HealthMetrics)
    (previous : Option HealthMetrics) (state : MonitoringState) : List Alert :=
  (match previous with
    | none => []
    | some previous =>
      (checkTvlDrop t now current previous).toList ++
      (checkSharePriceDecrease now current previous).toList ++
      (if 0 < state.hourlyMetrics.length then
        (checkWithdrawalSpike now current previous).toList else [])) ++
  (checkCapSaturation t now current).toList ++
  (checkPauseDuration now current).toList ++
  checkTimelocksMonitoring now current ++
  (checkQueueDepth t now current).toList

/-! ## Cycles -/

/-- A cycle whose collection yields metrics, with the times of its connection check, of its alerts
    and of its storing; or one whose collection fails, with the time of that. -/
inductive Cycle where
  | collected (metrics : HealthMetrics) (checkedAt detectedAt storedAt : ℤ)
  | failed (now : ℤ)

/-- The metrics of a successful cycle. -/
def Cycle.metrics : Cycle → Option HealthMetrics
  | .collected metrics _ _ _ => some metrics
  | .failed _ => none

def hour : ℤ := 60 * 60 * 1000

def day : ℤ := 24 * hour

/-- Drops what has become too old. The metrics themselves are not kept. -/
def storeMetrics (state : MonitoringState) (now : ℤ) : MonitoringState :=
  { state with
    hourlyMetrics := state.hourlyMetrics.filter fun m => now - m.timestamp < hour
    dailyMetrics := state.dailyMetrics.filter fun m => now - m.timestamp < day }

/-- A cycle, with the alerts it dispatches. -/
def collectAndAnalyze (t : AlertThresholds) (state : MonitoringState) :
    Cycle → MonitoringState × List Alert
  | .collected metrics checkedAt detectedAt storedAt =>
    let checked := { state with
      previousMetrics := state.lastMetrics
      lastMetrics := some metrics
      isConnected := true
      lastRpcCheck := checkedAt }
    let newAlerts := detectAnomalies t detectedAt metrics checked.previousMetrics checked
    (storeMetrics { checked with activeAlerts := checked.activeAlerts ++ newAlerts } storedAt,
      newAlerts)
  | .failed now =>
    ({ state with isConnected := false },
      if 60000 < now - state.lastRpcCheck then
        [⟨.rpcConnectivity, .critical, "RPC Connectivity Lost", .none, now⟩] else [])

/-- The state of a new monitor after some cycles. -/
def stateAfter (t : AlertThresholds) (run : List Cycle) : MonitoringState :=
  run.foldl (fun state c => (collectAndAnalyze t state c).1) {}

/-- The alerts of a cycle that comes after others. -/
def alertsOf (t : AlertThresholds) (past : List Cycle) (c : Cycle) : List Alert :=
  (collectAndAnalyze t (stateAfter t past) c).2

end NeuroWealth.Monitoring
