import NeuroWealth.Foundation.BoundedLog
import NeuroWealth.Foundation.Numbers
import NeuroWealth.Agent.HarvestJob
import NeuroWealth.Vault.Proofs.RejectionsProofs
import NeuroWealth.Vault.Properties.Withdrawability

/-!
# The bound of a harvest

The job bounds a harvest by all managed assets. The vault compares the bound with what each venue
returns, so funds outside the venue can make the bound too high.
-/

namespace NeuroWealth.HarvestJob

open Transaction MachineInt Vault Binary64

variable {config : HarvestConfig} {hooks : Hooks} {job : Job} {env : Env} {w : World} {tvl : ℤ}

/-- From the threshold on a run submits the bound of the assets it read. -/
theorem runOnce_minOut (htvl : hooks.getTvl = .ok tvl) (henough : config.minYieldUsdc ≤ tvl) :
    (runOnce config hooks job).1.minOut = some (config.calculateMinOut tvl) := by
  have hrequest : config.request (.ok tvl) = some (config.calculateMinOut tvl) :=
    if_neg (not_lt.mpr henough)
  simp only [runOnce, htvl, hrequest]
  split_ifs <;> rfl

/-- While the product fits a double, the bound is the exact one. -/
theorem calculateMinOut_exact (htvl : 0 ≤ tvl) (hlow : 0 ≤ config.slippageBps)
    (hhigh : config.slippageBps ≤ 10000) (hsmall : tvl * (10000 - config.slippageBps) < 2 ^ 53) :
    config.calculateMinOut tvl = tvl * (10000 - config.slippageBps) / 10000 := by
  obtain ⟨m, rfl⟩ := Int.eq_ofNat_of_zero_le htvl
  obtain ⟨k, hk⟩ := Int.eq_ofNat_of_zero_le (sub_nonneg.mpr hhigh)
  have hproduct : m * k < 2 ^ 53 := by
    rw [hk] at hsmall
    exact_mod_cast hsmall
  have hfactor : ((10000 : ℚ) - config.slippageBps) = (k : ℕ) := by exact_mod_cast hk
  have hkept : toDouble ((k : ℕ) : ℚ) = k := toDouble_natCast (by omega)
  have hexact : toDouble ((m : ℚ) * k) = ((m * k : ℕ) : ℚ) := by
    rw [← Nat.cast_mul]
    exact toDouble_natCast hproduct
  have hfloor := floor_toDouble_div (d := 10000) hproduct (by norm_num) (by norm_num)
  unfold HarvestConfig.calculateMinOut
  rw [hfactor, hkept, hk]
  push_cast at hexact hfloor ⊢
  rw [hexact, hfloor]

/-- An amount as a fetcher returns it: the double nearest to an integer is one. -/
def asNumber (amount : ℤ) : ℤ := ⌊toDouble amount⌋

theorem asNumber_natCast {n : ℕ} (h : n < 2 ^ 53) : asNumber (n : ℕ) = n := by
  unfold asNumber
  rw [Int.cast_natCast, toDouble_natCast h, Int.floor_natCast]

/-- The vault does not turn the harvest of a run away for its bound exactly when the bound is no
    more than what each leg finds. -/
theorem harvest_accepted_iff (hmay : w.MayHarvest env)
    (htvl : hooks.getTvl = .ok (asNumber w.book.assets))
    (henough : config.minYieldUsdc ≤ asNumber w.book.assets) :
    (runOnce config hooks job).1.minOut =
        some (config.calculateMinOut (asNumber w.book.assets)) ∧
      ((∀ e, (invoke (.harvest (config.calculateMinOut (asNumber w.book.assets)))).Aborts env w e →
          ¬ e.IsMinOut) ↔
        w.MeetsFloor (config.calculateMinOut (asNumber w.book.assets))) := by
  refine ⟨runOnce_minOut htvl henough, ?_⟩
  constructor
  · intro hnever
    by_contra hshort
    obtain ⟨e, haborts, he⟩ := (rejects_harvest hmay).mpr hshort
    exact hnever e haborts he
  · intro hmeets e haborts he
    exact (rejects_harvest hmay).mp ⟨e, haborts, he⟩ hmeets

namespace Sample

open Vault.Sample

/-- Half a percent of slippage, from half a USDC on. -/
def slack : HarvestConfig :=
  { minYieldUsdc := 5000000, slippageBps := 50, maxConsecutiveFailures := 3 }

/-- The hooks of a run that reads the assets of `w`. -/
def reading (w : World) : Hooks where
  getTvl := .ok (asNumber w.book.assets)
  executor := fun _ => .ok ⟨true, none⟩
  getTvlAfter := .ok (asNumber w.book.assets)

/-- The vault without a cooldown and with calls left, its funds in Blend or idle. -/
theorem mayHarvest_of (h : (w.Initialized ∧ w.breaker.paused = false ∧
      w.roles.agent = some agent ∧ w.deployment.currentProtocol = .blend) ∧
    w.limits.minRebalanceInterval = none ∧
      (w.running none .rebalance).calls < (w.rateLimit .rebalance).maxCalls ∧
      (i128.Fits (w.position .blend) ∧ i128.Fits (w.position .dex))) : w.MayHarvest tame := by
  obtain ⟨⟨hi, hlive, hagent, hmark⟩, hinterval, hcalls, hblend, hdex⟩ := h
  refine ⟨hi, hlive, ⟨agent, .inl hagent, by decide⟩, ⟨.blend, by rw [hmark]; rfl⟩, ?_,
    fun _ => hcalls, tame_honestPools, tame_payingPools, fun v => ?_⟩
  · intro m last hm
    rw [hinterval] at hm
    cases hm
  · cases v with
    | blend => exact hblend
    | dex => exact hdex

/-- With everything in Blend the bound is met. -/
theorem inBlend_harvest_accepted :
    (runOnce slack (reading inBlend) {}).1.minOut =
        some (slack.calculateMinOut (asNumber inBlend.book.assets)) ∧
      ((∀ e, (invoke (.harvest (slack.calculateMinOut (asNumber inBlend.book.assets)))).Aborts tame
          inBlend e → ¬ e.IsMinOut) ↔
        inBlend.MeetsFloor (slack.calculateMinOut (asNumber inBlend.book.assets))) := by
  have hassets : inBlend.book.assets = (5000000 : ℕ) := by decide +kernel
  refine harvest_accepted_iff (mayHarvest_of (by decide +kernel)) rfl ?_
  rw [hassets, asNumber_natCast (by norm_num)]
  decide

/-- Alice deposits five more USDC, which stay idle. -/
def halfIdle : World := inBlend.after (.call tame (.deposit alice 5000000))

/-- The bound is close to ten USDC and the Blend pool returns five. -/
theorem halfIdle_harvest_rejected :
    opened.Opened ∧ Reaches (fun _ _ => True) opened halfIdle ∧ halfIdle.MayHarvest tame ∧
      slack.minYieldUsdc ≤ halfIdle.book.assets ∧
      (runOnce slack (reading halfIdle) {}).1.minOut = some 9950000 ∧
      ∃ e, (invoke (.harvest 9950000)).Aborts tame halfIdle e ∧ e.IsMinOut := by
  have hassets : halfIdle.book.assets = (10000000 : ℕ) := by decide +kernel
  have hread : asNumber halfIdle.book.assets = 10000000 := by
    rw [hassets, asNumber_natCast (by norm_num)]
    norm_num
  have hmay : halfIdle.MayHarvest tame := mayHarvest_of (by decide +kernel)
  have hshort : ¬ halfIdle.MeetsFloor 9950000 := by
    intro hmeets
    have hfacts : halfIdle.deployment.currentProtocol = .blend ∧
        halfIdle.position .blend = 5000000 := by decide +kernel
    have hle := hmeets.covered (by rw [hfacts.1]; decide) .blend (by rw [hfacts.1]; rfl)
    omega
  have hreach : Reaches (fun _ _ => True) opened inBlend :=
    .of_admits ⟨trivial, trivial, trivial, trivial⟩
  refine ⟨opened_opened, hreach.step _ trivial, hmay, ?_, ?_, (rejects_harvest hmay).mpr hshort⟩
  · rw [hassets]
    decide
  · have hsent : (runOnce slack (reading halfIdle) {}).1.minOut =
        some (slack.calculateMinOut (asNumber halfIdle.book.assets)) :=
      runOnce_minOut rfl (by rw [hread]; decide)
    rw [hsent, hread, calculateMinOut_exact (by decide) (by decide) (by decide) (by decide)]
    decide

end Sample

/-! ## Alerts -/

/-- The result of a run. It does not depend on the runs before. -/
def HarvestConfig.outcome (config : HarvestConfig) (hooks : Hooks) : HarvestResult :=
  (runOnce config hooks {}).1

/-- What a job keeps of a result. -/
def Job.record (config : HarvestConfig) (job : Job) (result : HarvestResult) : Job :=
  if result.success = true then
    Job.push { job with consecutiveFailures := 0, alertSent := false } result
  else job.recordFailure config result

theorem runOnce_eq : runOnce config hooks job =
    (config.outcome hooks, job.record config (config.outcome hooks)) := by
  unfold HarvestConfig.outcome runOnce
  cases hooks.getTvl with
  | error message => rfl
  | ok preTvl =>
    dsimp only
    cases config.request (.ok preTvl) with
    | none => rfl
    | some minOut =>
      dsimp only
      split_ifs <;> rfl

/-- The job after some runs, in the order in which they end. -/
def Job.after (config : HarvestConfig) (job : Job) (runs : List Hooks) : Job :=
  runs.foldl (fun job hooks => (runOnce config hooks job).2) job

/-- The failures at the end of some results. -/
def streak (results : List HarvestResult) : ℕ :=
  (results.reverse.takeWhile fun result => !result.success).length

/-- The alert due after some results: their last streak has just reached the limit. -/
def HarvestConfig.alertAfter (config : HarvestConfig) (results : List HarvestResult) :
    Option String :=
  if streak results = max 1 config.maxConsecutiveFailures then
    results.getLast?.map fun last =>
      "[NeuroWealth] Harvest failed " ++ toString (streak results) ++
        " consecutive times. Last error: " ++ last.error.getD "unknown"
  else none

/-- The job keeps the last hundred results, counts the failures of the last streak and has alerted
    once for each streak that reached the limit. -/
structure Job.Records (config : HarvestConfig) (job : Job) (results : List HarvestResult) :
    Prop where
  history : job.history = results.rtake 100
  failures : job.consecutiveFailures = streak results
  alerted : job.alertSent = true ↔ max 1 config.maxConsecutiveFailures ≤ streak results
  alerts : job.alerts = results.inits.filterMap config.alertAfter

section Alerts

variable {results : List HarvestResult} {result : HarvestResult}

theorem streak_append_success (h : result.success = true) : streak (results ++ [result]) = 0 := by
  simp [streak, h]

theorem streak_append_failure (h : result.success = false) :
    streak (results ++ [result]) = streak results + 1 := by
  simp [streak, h]

theorem inits_append_singleton : (results ++ [result]).inits =
    results.inits ++ [results ++ [result]] := by
  simp [List.inits_append]

theorem push_history (h : job.history = results.rtake 100) :
    (job.push result).history = (results ++ [result]).rtake 100 := by
  have hpush := BoundedLog.push_rtake (n := 100) (l := results) (a := result)
  rw [BoundedLog.push_eq_rtake, ← h] at hpush
  rw [← hpush]
  simp [Job.push, List.rtake]

theorem Job.Records.success (h : job.Records config results) (hresult : result.success = true) :
    (job.record config result).Records config (results ++ [result]) := by
  have hstreak : streak (results ++ [result]) = 0 := streak_append_success hresult
  have hsilent : config.alertAfter (results ++ [result]) = none := by
    unfold HarvestConfig.alertAfter
    rw [hstreak, if_neg (by omega)]
  unfold Job.record
  rw [if_pos hresult]
  refine ⟨push_history h.history, hstreak.symm, ?_, ?_⟩
  · rw [hstreak]
    show false = true ↔ _
    simp
  · rw [inits_append_singleton, List.filterMap_append, List.filterMap_cons, hsilent]
    show job.alerts = _
    rw [h.alerts]
    simp

theorem Job.Records.failure (h : job.Records config results) (hresult : result.success = false) :
    (job.record config result).Records config (results ++ [result]) := by
  have hstreak : streak (results ++ [result]) = streak results + 1 := streak_append_failure hresult
  have halert : (config.maxConsecutiveFailures ≤ job.consecutiveFailures + 1 ∧
      job.alertSent = false) ↔ streak results + 1 = max 1 config.maxConsecutiveFailures := by
    have halerted := h.alerted
    rw [h.failures]
    constructor
    · rintro ⟨hreached, hunsent⟩
      rw [hunsent] at halerted
      have := mt halerted.mpr (by simp)
      omega
    · intro heq
      refine ⟨by omega, ?_⟩
      by_contra hsent
      have := halerted.mp (by simpa using hsent)
      omega
  unfold Job.record
  rw [if_neg (by simp [hresult])]
  refine ⟨?_, ?_, ?_, ?_⟩
  · unfold Job.recordFailure
    exact push_history h.history
  · show job.consecutiveFailures + 1 = _
    rw [hstreak, h.failures]
  · show (job.alertSent || decide (config.maxConsecutiveFailures ≤ job.consecutiveFailures + 1 ∧
      job.alertSent = false)) = true ↔ _
    rw [Bool.or_eq_true, decide_eq_true_iff, halert, h.alerted, hstreak]
    omega
  · rw [inits_append_singleton, List.filterMap_append, List.filterMap_cons, ← h.alerts]
    unfold HarvestConfig.alertAfter
    rw [hstreak]
    show (if config.maxConsecutiveFailures ≤ job.consecutiveFailures + 1 ∧ job.alertSent = false
      then job.alerts ++ [_] else job.alerts) = _
    by_cases hdue : streak results + 1 = max 1 config.maxConsecutiveFailures
    · rw [if_pos (halert.mpr hdue), if_pos hdue, h.failures]
      simp
    · rw [if_neg (mt halert.mp hdue), if_neg hdue]
      simp

/-- In the job's whole life each streak of failures raises one alert, when it reaches the limit. -/
theorem one_alert_per_streak {runs : List Hooks} :
    (Job.after config {} runs).Records config (runs.map config.outcome) := by
  induction runs using List.reverseRecOn with
  | nil =>
    refine ⟨rfl, rfl, ?_, ?_⟩
    · show false = true ↔ max 1 config.maxConsecutiveFailures ≤ 0
      simp
    · simp [HarvestConfig.alertAfter, streak, Job.after]
  | append_singleton runs hooks ih =>
    rw [List.map_append, List.map_singleton]
    have hstep : Job.after config {} (runs ++ [hooks]) =
        (Job.after config {} runs).record config (config.outcome hooks) := by
      unfold Job.after
      rw [List.foldl_append, List.foldl_cons, List.foldl_nil, runOnce_eq]
    rw [hstep]
    cases hresult : (config.outcome hooks).success with
    | true => exact ih.success hresult
    | false => exact ih.failure hresult

end Alerts

end NeuroWealth.HarvestJob
