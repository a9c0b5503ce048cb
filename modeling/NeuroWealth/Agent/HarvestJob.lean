import NeuroWealth.Foundation.Binary64

/-!
# The harvest job

One run of the agent's harvest job: it reads the vault's total managed assets, bounds the slippage
by them and submits a harvest. Amounts are whole USDC stroops, computed with as doubles.
-/

namespace NeuroWealth.HarvestJob

open Binary64

structure HarvestConfig where
  minYieldUsdc : ℤ
  slippageBps : ℤ
  maxConsecutiveFailures : ℕ

/-- What the executor came back with. -/
structure ExecResult where
  success : Bool
  error : Option String
deriving DecidableEq

structure HarvestResult where
  success : Bool
  preTvl : Option ℤ := none
  postTvl : Option ℤ := none
  yieldHarvested : Option ℚ := none
  minOut : Option ℤ := none
  error : Option String := none
  belowThreshold : Bool := false
deriving DecidableEq

/-- The hooks of one run: `getTvl` before and after, and the executor's `harvest(min_out)`. A
    rejected promise carries its message. `onAlert` returns: one that throws would keep the result
    out of the history. -/
structure Hooks where
  getTvl : Except String ℤ
  executor : ℤ → Except String ExecResult
  getTvlAfter : Except String ℤ

/-- What the job keeps between runs. `alerts` are the messages handed to `onAlert`. -/
structure Job where
  consecutiveFailures : ℕ := 0
  alertSent : Bool := false
  history : List HarvestResult := []
  alerts : List String := []

/-- `tvl × (10_000 - slippageBps) / 10_000`, each operation rounded to a double, the last result to
    the integer below. -/
def HarvestConfig.calculateMinOut (config : HarvestConfig) (tvl : ℤ) : ℤ :=
  ⌊toDouble (toDouble (tvl * toDouble (10000 - config.slippageBps)) / 10000)⌋

/-- The `min_out` a run submits, unless it cannot read the assets or finds too little. -/
def HarvestConfig.request (config : HarvestConfig) (getTvl : Except String ℤ) : Option ℤ :=
  match getTvl with
  | .error _ => none
  | .ok preTvl =>
    if preTvl < config.minYieldUsdc then none else some (config.calculateMinOut preTvl)

/-- The latest hundred results are kept. -/
def Job.push (job : Job) (result : HarvestResult) : Job :=
  { job with history := (job.history ++ [result]).drop (job.history.length + 1 - 100) }

def Job.recordFailure (config : HarvestConfig) (job : Job) (result : HarvestResult) : Job :=
  let failures := job.consecutiveFailures + 1
  let alert := config.maxConsecutiveFailures ≤ failures ∧ job.alertSent = false
  let message := "[NeuroWealth] Harvest failed " ++ toString failures ++
    " consecutive times. Last error: " ++ result.error.getD "unknown"
  Job.push
    { job with
      consecutiveFailures := failures
      alertSent := job.alertSent || decide alert
      alerts := if alert then job.alerts ++ [message] else job.alerts } result

/-- One harvest attempt, with its result. -/
def runOnce (config : HarvestConfig) (hooks : Hooks) (job : Job) : HarvestResult × Job :=
  match hooks.getTvl with
  | .error message =>
    let result : HarvestResult :=
      { success := false, error := some ("Failed to fetch pre-harvest TVL: " ++ message) }
    (result, job.recordFailure config result)
  | .ok preTvl =>
    match config.request (.ok preTvl) with
    | none =>
      let result : HarvestResult :=
        { success := true, preTvl := some preTvl, belowThreshold := true }
      (result, Job.push { job with consecutiveFailures := 0, alertSent := false } result)
    | some minOut =>
      let execResult := match hooks.executor minOut with
        | .ok execResult => execResult
        | .error message => ⟨false, some message⟩
      if execResult.success = true then
        let postTvl := hooks.getTvlAfter.toOption
        let result : HarvestResult :=
          { success := true, preTvl := some preTvl, postTvl := postTvl,
            yieldHarvested := postTvl.map fun x => toDouble (x - preTvl), minOut := some minOut }
        (result, Job.push { job with consecutiveFailures := 0, alertSent := false } result)
      else
        let result : HarvestResult :=
          { success := false, preTvl := some preTvl, minOut := some minOut,
            error := execResult.error }
        (result, job.recordFailure config result)

end NeuroWealth.HarvestJob
