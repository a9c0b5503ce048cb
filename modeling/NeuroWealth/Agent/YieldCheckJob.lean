import NeuroWealth.Foundation.Decimal
import NeuroWealth.Agent.YieldComparison

/-!
# The yield check

One run of the hourly job: it reads the vault's position and cooldown, collects the yields of all
protocols, and moves the funds to the best of them where that pays. What the dependencies answer is
open. Numbers are the rationals that doubles denote, and every operation rounds to a double; sums of
safe integers are exact.
-/

namespace NeuroWealth.YieldCheckJob

open Binary64 YieldComparison
open YieldCheck (MAX_SAFE_INTEGER InBounds mathRound)

/-! ## What the hooks answer -/

/-- How the promise of a dependency ends; a late one is given up. -/
inductive Answer (α : Type) where
  | resolves (value : α)
  | rejects (message : String)
  | late

def withTimeout {α : Type} (answer : Answer α) (dependency : String) (timeoutMs : ℤ) :
    Except String α :=
  match answer with
  | .resolves value => .ok value
  | .rejects message => .error message
  | .late => .error (dependency ++ " timed out after " ++ toString timeoutMs ++ "ms")

/-- A rational in the safe range of the doubles. -/
def IsSafeInteger (x : ℚ) : Prop := x.den = 1 ∧ |x.num| ≤ MAX_SAFE_INTEGER
deriving Decidable

structure CurrentProtocol where
  protocolId : String
  deployedAmountStroops : ℚ

structure Cooldown where
  cooldownLedgers : ℚ
  lastRebalanceLedger : ℚ
  currentLedger : ℚ

/-- A fetcher's answer, and the clock when it was looked at. -/
structure Observation where
  protocolId : String
  answer : Answer ProtocolYieldData
  now : ℚ

/-- The arguments of `submitRebalance`. -/
structure Submission where
  protocol : String
  expectedApy : ℚ
  minOut : ℤ
deriving DecidableEq

/-- The fetchers are listed as they settle; the keys of a record differ. A submission resolves with
    a hash, a reconciliation with one or none. -/
structure Hooks where
  getCurrentProtocol : Answer CurrentProtocol
  checkCooldown : Answer Cooldown
  apyFetchers : List Observation
  distinct : (apyFetchers.map Observation.protocolId).Nodup
  submitRebalance : Submission → Answer String
  reconcileRebalance : Option (String → Answer (Option String))

/-- The calls that may touch the chain. -/
inductive HookCall where
  | submitRebalance (submission : Submission)
  | reconcileRebalance (protocol : String)
deriving DecidableEq

structure Config where
  slippageBps : ℚ
  minImprovementThreshold : ℚ
  maxApyAgeMs : Option ℚ := none
  dependencyTimeoutMs : Option ℚ := none

/-! ## Results -/

structure YieldCheckResult where
  jobId : String
  checkedAt : ℚ
  currentProtocol : String
  currentApy : ℚ
  bestProtocol : String
  bestApy : ℚ
  rebalanceTriggered : Bool
  skipReason : Option String := none
  txHash : Option String := none
  minOut : Option ℤ := none
  deployedAmount : Option ℚ := none
  cooldownLedgersRemaining : Option ℚ := none
  error : Option String := none

/-- JavaScript's `toFixed`; of two numerals as close, the larger. -/
def toFixed (digits : ℕ) (x : ℚ) : String :=
  (if x < 0 then "-" else "") ++
    String.ofList (Decimal.pointed digits (mathRound (|x| * 10 ^ digits)).toNat)

def improvementBelowThreshold (improvement threshold : ℚ) : String :=
  "improvement_below_threshold: " ++ toFixed 3 (toDouble (improvement * 100)) ++ "% < " ++
    toFixed 1 (toDouble (threshold * 100)) ++ "%"

def cooldownActive (remaining : ℚ) : String :=
  "cooldown_active: " ++ toString remaining.num ++ " ledgers remaining"

/-! ## The comparison -/

/-- The test on the data of a fetcher. A rational is always finite. -/
def IsUsableApy (now maxApyAgeMs : ℚ) (data : ProtocolYieldData) (expectedProtocolId : String) :
    Prop :=
  data.protocolId = expectedProtocolId ∧ YieldCheck.IsUsableApy data.currentApy ∧
    YieldCheck.IsUsableApy data.historicalApy7d ∧ YieldCheck.IsUsableApy data.historicalApy30d ∧
    0 ≤ data.tvlUsdc ∧ 0 ≤ data.volatility ∧
    (0 < data.volatility → toDouble (1 / 10 ^ 12) ≤ data.volatility) ∧
    1 ≤ data.riskScore ∧ data.riskScore ≤ 100 ∧
    ∀ fetchedAt ∈ data.fetchedAt, -60000 ≤ toDouble (now - fetchedAt) ∧
      toDouble (now - fetchedAt) ≤ maxApyAgeMs
deriving Decidable

section Engine

variable (e : YieldComparisonEngine)

def calculateSharpeRatio (apy volatility : ℚ) : ℚ :=
  if volatility ≤ 0 then toDouble (apy / toDouble (1 / 100))
  else toDouble (toDouble (apy - e.riskFreeRate) / volatility)

def riskPenalty (p : ProtocolYieldData) : ℚ := toDouble (toDouble (100 - p.riskScore) / 100)

/-- The score before it is rounded to two decimals. -/
def riskAdjusted (p : ProtocolYieldData) : ℚ :=
  toDouble (calculateSharpeRatio e p.currentApy p.volatility * riskPenalty p)

def opportunity (p : ProtocolYieldData) : YieldOpportunity where
  protocolId := p.protocolId
  name := p.name
  netApy := p.currentApy
  riskAdjustedScore := toDouble (mathRound (toDouble (riskAdjusted e p * 100)) / 100)
  recommendedAllocationPercent := 0

/-- The sort is stable, best score first. The difference of two doubles has the sign of the exact
    one. -/
def rankOpportunities (protocols : List ProtocolYieldData) : List YieldOpportunity :=
  (protocols.map (opportunity e)).insertionSort fun a b =>
    b.riskAdjustedScore ≤ a.riskAdjustedScore

def shouldRebalance (currentApy targetApy : ℚ) : Prop :=
  e.minImprovementThreshold ≤ toDouble (targetApy - currentApy)
deriving Decidable

end Engine

/-! ## The job -/

namespace Config

variable (config : Config) (hooks : Hooks)

def engine : YieldComparisonEngine where
  minImprovementThreshold := config.minImprovementThreshold
  riskFreeRate := toDouble (4 / 100)

def timeoutMs : ℤ :=
  let value := config.dependencyTimeoutMs.getD 10000
  if IsSafeInteger value ∧ 0 < value then value.num else 10000

/-- The fetched data, where it is usable. -/
def fetch (o : Observation) : Option ProtocolYieldData :=
  match withTimeout o.answer ("APY fetch for " ++ o.protocolId) config.timeoutMs with
  | .error _ => none
  | .ok data =>
    if IsUsableApy o.now (config.maxApyAgeMs.getD (15 * 60000)) data o.protocolId then some data
    else none

/-- The usable data of all protocols, as it comes in. -/
def fetchAllApys : List ProtocolYieldData := hooks.apyFetchers.filterMap config.fetch

def fetchApySafe (protocolId : String) : Option ProtocolYieldData :=
  (hooks.apyFetchers.find? fun o => o.protocolId = protocolId).bind config.fetch

end Config

def CurrentProtocol.IsValid (current : CurrentProtocol) : Prop :=
  current.protocolId ≠ "" ∧ IsSafeInteger current.deployedAmountStroops ∧
    0 < current.deployedAmountStroops
deriving Decidable

namespace Cooldown

variable (cooldown : Cooldown)

def IsValid : Prop :=
  IsSafeInteger cooldown.cooldownLedgers ∧ 0 ≤ cooldown.cooldownLedgers ∧
    IsSafeInteger cooldown.lastRebalanceLedger ∧ 0 ≤ cooldown.lastRebalanceLedger ∧
    IsSafeInteger cooldown.currentLedger ∧ cooldown.lastRebalanceLedger ≤ cooldown.currentLedger
deriving Decidable

def ledgersSinceRebalance : ℚ := cooldown.currentLedger - cooldown.lastRebalanceLedger

def IsActive : Prop :=
  0 < cooldown.cooldownLedgers ∧ cooldown.ledgersSinceRebalance < cooldown.cooldownLedgers
deriving Decidable

end Cooldown

/-- The error of a submission that may have reached the network. -/
def isUncertainSubmissionError (error : String) : Prop :=
  ∃ word ∈ ["timeout", "timed out", "socket", "connection reset", "network", "unknown outcome",
    "uncertain"], word.toList <:+: error.toList.map Char.toLower
deriving Decidable

variable (config : Config) (hooks : Hooks)

/-- After an uncertain error the chain is asked what became of the submission. -/
def reconcile (result : YieldCheckResult) (error : String)
    (answer : Answer (Option String)) : YieldCheckResult :=
  let uncertain : YieldCheckResult :=
    { result with
      skipReason := some "submission_outcome_uncertain"
      error := some error }
  match withTimeout answer "uncertain transaction reconciliation" config.timeoutMs with
  | .error reconcileError =>
    { uncertain with error := some (error ++ "; reconciliation_failed: " ++ reconcileError) }
  | .ok reconciled =>
    match reconciled.filter fun txHash => txHash ≠ "" with
    | none => uncertain
    | some txHash =>
      { result with
        rebalanceTriggered := true
        txHash := some txHash
        skipReason := some "submission_reconciled_after_uncertain_response" }

/-- The submission of a rebalance. `result` is what is known before. -/
def submit (result : YieldCheckResult) (submission : Submission) :
    YieldCheckResult × List HookCall :=
  let result := { result with minOut := some submission.minOut }
  match withTimeout (hooks.submitRebalance submission) "rebalance submission" config.timeoutMs with
  | .ok txHash =>
    ({ result with
      rebalanceTriggered := true
      txHash := some txHash }, [.submitRebalance submission])
  | .error error =>
    match if isUncertainSubmissionError error then hooks.reconcileRebalance else none with
    | some reconcileRebalance =>
      (reconcile config result error (reconcileRebalance submission.protocol),
        [.submitRebalance submission, .reconcileRebalance submission.protocol])
    | none =>
      ({ result with
        skipReason := some "rebalance_submission_failed"
        error := some error }, [.submitRebalance submission])

/-- The decision to move from `current` to `best`. -/
def decideRebalance (result : YieldCheckResult) (deployedAmountStroops : ℚ)
    (best : YieldOpportunity) : YieldCheckResult × List HookCall :=
  let result := { result with bestProtocol := best.protocolId, bestApy := best.netApy }
  if best.protocolId = result.currentProtocol then
    ({ result with skipReason := some "already_on_best_protocol" }, [])
  else if ¬ shouldRebalance config.engine result.currentApy best.netApy then
    ({ result with
      skipReason := some (improvementBelowThreshold
        (toDouble (best.netApy - result.currentApy)) config.minImprovementThreshold) }, [])
  else
    let minOut := YieldCheck.minOut deployedAmountStroops config.slippageBps
    if ¬ InBounds minOut config.slippageBps then
      ({ result with skipReason := some "invalid_rebalance_bounds" }, [])
    else submit config hooks result ⟨best.protocolId, best.netApy, minOut⟩

/-- The comparison, once position and cooldown allow it. Of the scores none is infinite. -/
def compareYields (result : YieldCheckResult) (deployedAmountStroops : ℚ) :
    YieldCheckResult × List HookCall :=
  let yieldSnapshots := config.fetchAllApys hooks
  if yieldSnapshots = [] then
    ({ result with skipReason := some "no_apy_data_available" }, [])
  else
    match yieldSnapshots.find? fun s => s.protocolId = result.currentProtocol with
    | none => ({ result with skipReason := some "current_protocol_apy_unavailable" }, [])
    | some currentSnapshot =>
      let result :=
        { result with
          currentApy := currentSnapshot.currentApy
          bestApy := currentSnapshot.currentApy }
      match (rankOpportunities config.engine yieldSnapshots).head? with
      | none => ({ result with skipReason := some "no_usable_ranked_protocol_data" }, [])
      | some best => decideRebalance config hooks result deployedAmountStroops best

/-- What a run returns that goes no further than the vault's state. -/
def idleResult (jobId : String) (checkedAt : ℚ) (currentProtocol : String) : YieldCheckResult where
  jobId := jobId
  checkedAt := checkedAt
  currentProtocol := currentProtocol
  currentApy := 0
  bestProtocol := currentProtocol
  bestApy := 0
  rebalanceTriggered := false

/-- One run, with the calls it made. It throws where the vault's state cannot be read. -/
def execute (jobId : String) (checkedAt : ℚ) :
    Except String (YieldCheckResult × List HookCall) := do
  let current ← withTimeout hooks.getCurrentProtocol "current vault state" config.timeoutMs
  if ¬ current.IsValid then
    let shown := if current.protocolId = "" then "unknown" else current.protocolId
    return ({ idleResult jobId checkedAt shown with
      skipReason := some "invalid_current_vault_position" }, [])
  let cooldown ← withTimeout hooks.checkCooldown "rebalance cooldown state" config.timeoutMs
  let result :=
    { idleResult jobId checkedAt current.protocolId with
      deployedAmount := some current.deployedAmountStroops }
  if ¬ cooldown.IsValid then
    return ({ result with skipReason := some "invalid_cooldown_state" }, [])
  if cooldown.IsActive then
    let remaining := cooldown.cooldownLedgers - cooldown.ledgersSinceRebalance
    -- only for the record
    let currentApy := ((config.fetchApySafe hooks current.protocolId).map
      ProtocolYieldData.currentApy).getD 0
    return ({ result with
      currentApy := currentApy
      bestApy := currentApy
      skipReason := some (cooldownActive remaining)
      cooldownLedgersRemaining := some remaining }, [])
  return compareYields config hooks result current.deployedAmountStroops

/-- A run that throws returns its error. -/
def attempt (jobId : String) (checkedAt : ℚ) : YieldCheckResult × List HookCall :=
  match execute config hooks jobId checkedAt with
  | .ok done => done
  | .error error => ({ idleResult jobId checkedAt "unknown" with error := some error }, [])

/-- The result is written to the history; `stored` is how the write ends. -/
def persist (stored : Answer Unit) (result : YieldCheckResult) : YieldCheckResult :=
  match withTimeout stored "database result persistence" config.timeoutMs with
  | .ok _ => result
  | .error error =>
    let persistError := "result_persist_failed: " ++ error
    { result with
      error := some (match result.error with
        | some previous => if previous = "" then persistError else previous ++ "; " ++ persistError
        | none => persistError) }

/-- A run of the job. `wallClock` is `Date.now()`, `checkedAt` the job's own clock. -/
def runOnce (jobCounter : ℕ) (wallClock : ℤ) (checkedAt : ℚ) (stored : Answer Unit) :
    YieldCheckResult × List HookCall :=
  let jobId := "yield-check-" ++ toString (jobCounter + 1) ++ "-" ++ toString wallClock
  let done := attempt config hooks jobId checkedAt
  (persist config stored done.1, done.2)

end NeuroWealth.YieldCheckJob
