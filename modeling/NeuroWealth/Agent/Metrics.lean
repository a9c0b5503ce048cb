import NeuroWealth.Foundation.Binary64
import NeuroWealth.Foundation.BoundedLog

/-!
# The metrics engine

What the agent records about itself, the alerts it raises and the snapshot of its dashboard. Numbers
are the rationals that doubles denote; a quotient and a product are rounded to a double each.
-/

namespace NeuroWealth.Metrics

open Binary64

def MAX_HISTORY : ℕ := 10000

structure Allocation where
  protocol : String
  amount : ℚ
  apy : Option ℚ

structure ProtocolAllocation extends Allocation where
  shareBps : ℤ

structure RebalancePerformance where
  fromProtocol : String
  toProtocol : String
  apyBefore : ℚ
  apyAfter : ℚ
  gasCostStroops : Option ℚ
  success : Bool
  trigger : Option String
  error : Option String

structure RebalancePerformanceRecord extends RebalancePerformance where
  time : ℤ

inductive FlowKind where
  | deposit
  | withdrawal
deriving DecidableEq

structure VaultFlowEvent where
  time : ℤ
  kind : FlowKind
  user : String
  amount : ℚ

structure ErrorEvent where
  time : ℤ
  kind : String
  message : Option String

structure HeartbeatRecord where
  time : ℤ
  healthy : Bool

/-- `none` stands for a threshold that was left out. -/
structure AlertThresholds where
  tvlDropBps : ℚ
  maxConsecutiveFailures : ℚ
  maxErrorRateBps : Option ℚ
  errorWindowMs : Option ℚ
  heartbeatStaleMs : Option ℚ

def DEFAULT_ALERT_THRESHOLDS : AlertThresholds where
  tvlDropBps := 1000
  maxConsecutiveFailures := 3
  maxErrorRateBps := some 500
  errorWindowMs := some 3600000
  heartbeatStaleMs := some 300000

namespace AlertThresholds

variable (t : AlertThresholds)

def errorRateLimit : ℚ := t.maxErrorRateBps.getD 500

def windowMs : ℚ := t.errorWindowMs.getD 3600000

def staleMs : ℚ := t.heartbeatStaleMs.getD 300000

end AlertThresholds

inductive AlertType where
  | tvlDrop
  | consecutiveFailures
  | errorRate
  | heartbeatStale
deriving DecidableEq

inductive AlertContext where
  | drop (dropBps : ℤ) (tvl peakTvl : ℚ)
  | failures (consecutive : ℕ) (threshold : ℚ)
  | errors (rateBps : ℤ) (errors operations : ℕ)
  | heartbeat (lastHeartbeatAt : ℤ) (healthy : Bool)

structure MetricAlert where
  type : AlertType
  time : ℤ
  context : AlertContext

structure GasAnalysis where
  rebalances : ℕ
  totalGasStroops : ℚ
  avgGasStroops : ℤ
  maxGasStroops : ℚ

structure ErrorRate where
  total : ℕ
  errors : ℕ
  rateBps : ℤ
  windowMs : ℚ

structure MetricsSnapshot where
  generatedAt : ℤ
  tvl : ℚ
  currentApy : ℚ
  peakTvl : ℚ
  tvlDropFromPeakBps : ℤ
  allocations : List ProtocolAllocation
  rebalanceHistory : List RebalancePerformanceRecord
  agentHealthy : Bool
  uptimePct : ℚ
  lastHeartbeatAt : Option ℤ
  errorRate : ErrorRate
  gasAnalysis : GasAnalysis
  alerts : List MetricAlert

/-- `(x / y) * 10_000` -/
def basisPoints (x y : ℚ) : ℚ := toDouble (toDouble (x / y) * 10000)

/-- `Math.round`, which takes a half up, of the share of errors; none without operations. -/
def rateBps (errors operations : ℕ) : ℤ :=
  if 0 < operations then round (basisPoints errors operations) else 0

/-- A sum of doubles from the left. -/
def sum (xs : List ℚ) : ℚ := xs.foldl (fun s x => toDouble (s + x)) 0

structure MetricsEngine where
  thresholds : AlertThresholds
  tvl : ℚ := 0
  currentApy : ℚ := 0
  peakTvl : ℚ := 0
  allocations : List ProtocolAllocation := []
  rebalances : List RebalancePerformanceRecord := []
  flows : List VaultFlowEvent := []
  errors : List ErrorEvent := []
  operationCount : ℕ := 0
  heartbeats : List HeartbeatRecord := []

namespace MetricsEngine

variable (e : MetricsEngine) (now : ℤ)

/-! ## Recording -/

/-- Adds to a history of at most `MAX_HISTORY` entries. -/
def push {α : Type} : List α → α → List α := BoundedLog.push MAX_HISTORY

def recordTvl (tvl apy : ℚ) : MetricsEngine :=
  { e with tvl, currentApy := apy, peakTvl := if tvl > e.peakTvl then tvl else e.peakTvl }

def recordAllocations (allocations : List Allocation) : MetricsEngine :=
  let total := sum (allocations.map Allocation.amount)
  { e with allocations := allocations.map fun a =>
      { a with shareBps := if total > 0 then round (basisPoints a.amount total) else 0 } }

def recordRebalance (record : RebalancePerformance) : MetricsEngine :=
  { e with rebalances := push e.rebalances { record with time := now } }

def recordFlow (kind : FlowKind) (user : String) (amount : ℚ) : MetricsEngine :=
  { e with
    operationCount := e.operationCount + 1
    flows := push e.flows ⟨now, kind, user, amount⟩ }

def recordError (kind : String) (message : Option String) : MetricsEngine :=
  { e with
    operationCount := e.operationCount + 1
    errors := push e.errors ⟨now, kind, message⟩ }

def recordOperation : MetricsEngine := { e with operationCount := e.operationCount + 1 }

def recordHeartbeat (healthy : Bool) : MetricsEngine :=
  { e with heartbeats := push e.heartbeats ⟨now, healthy⟩ }

/-! ## Alerts -/

def dropBps : ℤ := round (basisPoints (toDouble (e.peakTvl - e.tvl)) e.peakTvl)

/-- The failed rebalances at the end of the history. -/
def countConsecutiveFailures : ℕ := (e.rebalances.rtakeWhile fun r => !r.success).length

def windowErrors : ℕ :=
  (e.errors.filter fun x => ((now - x.time : ℤ) : ℚ) ≤ e.thresholds.windowMs).length

/-- Every threshold check, in the order of the alerts. -/
def checkAlerts : List MetricAlert :=
  (if 0 < e.peakTvl ∧ e.thresholds.tvlDropBps ≤ e.dropBps then
    [⟨.tvlDrop, now, .drop e.dropBps e.tvl e.peakTvl⟩] else []) ++
  (if e.thresholds.maxConsecutiveFailures ≤ e.countConsecutiveFailures then
    [⟨.consecutiveFailures, now,
      .failures e.countConsecutiveFailures e.thresholds.maxConsecutiveFailures⟩] else []) ++
  (if e.thresholds.errorRateLimit ≤ rateBps (e.windowErrors now) e.operationCount then
    [⟨.errorRate, now, .errors (rateBps (e.windowErrors now) e.operationCount)
      (e.windowErrors now) e.operationCount⟩] else []) ++
  (e.heartbeats.getLast?.filter fun last =>
    e.thresholds.staleMs < ((now - last.time : ℤ) : ℚ) || !last.healthy).toList.map fun last =>
      ⟨.heartbeatStale, now, .heartbeat last.time last.healthy⟩

/-! ## The snapshot -/

/-- The rebalances of the last seven days. -/
def recentRebalances : List RebalancePerformanceRecord :=
  e.rebalances.filter fun r => now - r.time ≤ 7 * 24 * 3600000

def gasAnalysis : GasAnalysis :=
  let gas := (e.recentRebalances now).filterMap fun r => r.gasCostStroops
  { rebalances := gas.length
    totalGasStroops := sum gas
    avgGasStroops := if gas.length > 0 then round (toDouble (sum gas / gas.length)) else 0
    maxGasStroops := gas.foldl max 0 }

def recentHeartbeats : List HeartbeatRecord :=
  e.heartbeats.filter fun h => now - h.time ≤ 24 * 3600000

/-- The healthy share of the last day's heartbeats. -/
def uptimePct : ℚ :=
  let healthyCount := (e.recentHeartbeats now).countP HeartbeatRecord.healthy
  if (e.recentHeartbeats now).length > 0 then
    toDouble (toDouble (healthyCount / (e.recentHeartbeats now).length) * 100)
  else 0

/-- The clock is read again for the alerts, at `later`. -/
def getSnapshot (later : ℤ) : MetricsSnapshot where
  generatedAt := now
  tvl := e.tvl
  currentApy := e.currentApy
  peakTvl := e.peakTvl
  tvlDropFromPeakBps := if e.peakTvl > 0 then e.dropBps else 0
  allocations := e.allocations
  rebalanceHistory := e.recentRebalances now
  agentHealthy := e.heartbeats.getLast?.any fun last =>
    last.healthy && ((now - last.time : ℤ) : ℚ) ≤ e.thresholds.staleMs
  uptimePct := e.uptimePct now
  lastHeartbeatAt := e.heartbeats.getLast?.map HeartbeatRecord.time
  errorRate :=
    { total := e.operationCount
      errors := e.windowErrors now
      rateBps := rateBps (e.windowErrors now) e.operationCount
      windowMs := e.thresholds.windowMs }
  gasAnalysis := e.gasAnalysis now
  alerts := e.checkAlerts later

end MetricsEngine

/-! ## Histories of calls -/

/-- A call that records something. -/
inductive Call where
  | tvl (tvl apy : ℚ)
  | allocations (allocations : List Allocation)
  | rebalance (record : RebalancePerformance)
  | flow (kind : FlowKind) (user : String) (amount : ℚ)
  | error (kind : String) (message : Option String)
  | operation
  | heartbeat (healthy : Bool)

/-- A call at a time of the engine's clock. -/
def MetricsEngine.record (e : MetricsEngine) (c : ℤ × Call) : MetricsEngine :=
  match c.2 with
  | .tvl tvl apy => e.recordTvl tvl apy
  | .allocations allocations => e.recordAllocations allocations
  | .rebalance record => e.recordRebalance c.1 record
  | .flow kind user amount => e.recordFlow c.1 kind user amount
  | .error kind message => e.recordError c.1 kind message
  | .operation => e.recordOperation
  | .heartbeat healthy => e.recordHeartbeat c.1 healthy

/-- A new engine after a history of calls, the oldest first. -/
def MetricsEngine.after (thresholds : AlertThresholds) (h : List (ℤ × Call)) : MetricsEngine :=
  h.foldl record { thresholds }

end NeuroWealth.Metrics
