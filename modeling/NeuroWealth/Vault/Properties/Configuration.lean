import NeuroWealth.Foundation.Aborts
import NeuroWealth.Vault.Proofs.RateLimitsProofs
import NeuroWealth.Vault.Proofs.RolesProofs
import NeuroWealth.Vault.Properties.AssetLedger
import NeuroWealth.Vault.Properties.CircuitBreaker

/-!
# The configuration

Whatever is called, the limits, the circuit breaker, the reported figures and the asset registry
stay within the bounds their setters ask for.
-/

namespace NeuroWealth.Vault

open Transaction MachineInt

variable {env : Env} {w0 w w' : World} {call : Call} {l l' : Limits} {u : Unit}

/-! ## What the limit calls do -/

/-- A successful call that writes the limits, guards included. -/
inductive LimitStep (env : Env) (w : World) : Call → Limits → Prop
  | setTvlCap {cap : Int} (howner : w.OwnerSigns env) (hcap : 0 ≤ cap) :
      LimitStep env w (.setTvlCap cap) { w.limits with tvlCap := cap }
  | setUserDepositCap {cap : Int} (howner : w.OwnerSigns env) (hcap : 0 ≤ cap) :
      LimitStep env w (.setUserDepositCap cap) { w.limits with userDepositCap := cap }
  | setCaps {userDepositCap tvlCap : Int} (howner : w.OwnerSigns env) (huser : 0 ≤ userDepositCap)
      (htvl : 0 ≤ tvlCap) :
      LimitStep env w (.setCaps userDepositCap tvlCap)
        { w.limits with userDepositCap := userDepositCap, tvlCap := tvlCap }
  | setLimits {min max : Int} (howner : w.OwnerSigns env) (hmin : 0 ≤ min) (hmax : 0 ≤ max) :
      LimitStep env w (.setLimits min max) { w.limits with userDepositCap := min, tvlCap := max }
  | setDepositLimits {min max : Int} (howner : w.OwnerSigns env) (hmin : 1000000 ≤ min)
      (hle : min ≤ max) (hmax : max ≤ 100000000000) :
      LimitStep env w (.setDepositLimits min max)
        { w.limits with minDeposit := min, maxDeposit := max }
  | setRebalanceCooldown {interval : Nat} (howner : w.OwnerSigns env) :
      LimitStep env w (.setRebalanceCooldown interval)
        { w.limits with minRebalanceInterval := if interval = 0 then none else some interval }
  | setRateLimit {category : RateLimitCategory} {maxCalls windowLedgers : Nat}
      (howner : w.OwnerSigns env) (hvalid : category.isValid = true)
      (hwindow : ¬ (0 < maxCalls ∧ windowLedgers = 0)) :
      LimitStep env w (.setRateLimit category maxCalls windowLedgers)
        (w.limits.setRateLimitConfig category
          (if maxCalls = 0 then ⟨0, 0⟩ else ⟨maxCalls, windowLedgers⟩))
  | setMaxBatchSize {maxEntries : Nat} (howner : w.OwnerSigns env) :
      LimitStep env w (.setMaxBatchSize maxEntries) { w.limits with maxBatchSize := maxEntries }
  | setApprovalTtl {ttl : Nat} (howner : w.OwnerSigns env) (hlow : 1000 ≤ ttl)
      (hhigh : ttl ≤ 500000) :
      LimitStep env w (.setApprovalTtl ttl) { w.limits with approvalTtl := some ttl }
  | setBlendApprovalTtl {owner : Address} {ttl : Nat} (howner : w.OwnerSigns env) :
      LimitStep env w (.setBlendApprovalTtl owner ttl) { w.limits with approvalTtl := some ttl }

@[simp]
theorem ok_modifyLimits {f : Limits → Limits} :
    (modifyLimits f).Ok env w u w' ↔ w' = { w with limits := f w.limits } := by
  simp [modifyLimits]

/-- Only the shared bucket may be reset. -/
theorem resetGlobalBucket_limits {category : RateLimitCategory}
    (h : (Tx.onlyIf (category.isGlobal = true) (resetGlobalBucket category)).Ok env w u w') :
    w'.limits = w.limits := by
  unfold Tx.onlyIf resetGlobalBucket at h
  rcases Tx.ok_ite.mp h with ⟨-, h⟩ | ⟨-, h⟩
  · rw [Tx.ok_modify.mp h]
  · rw [(Tx.ok_pure.mp h).2]

/-- A successful call that writes the limits of an initialised vault is one of the limit steps. -/
theorem limitStep_of_run (hi : w.Initialized) (hcall : .limits ∈ call.writes)
    (h : call.run.Ok env w u w') : LimitStep env w call w'.limits := by
  cases call
  case initializeVault => exact absurd h (not_initializeVault_ok hi)
  case setTvlCap =>
    simp only [Call.run, setTvlCap, Tx.ok_bind, Tx.ok_get, ok_requireInitialized,
      ok_requireIsOwner, Tx.ok_require, ok_modifyLimits, ok_publish, existsAndEq, exists_const,
      and_assoc, true_and] at h
    obtain ⟨-, -, ⟨owner, howner, hsigned, -⟩, hcap, rfl⟩ := h
    exact .setTvlCap ⟨owner, howner, hsigned⟩ hcap
  case setUserDepositCap =>
    simp only [Call.run, setUserDepositCap, Tx.ok_bind, Tx.ok_get, ok_requireInitialized,
      ok_requireIsOwner, Tx.ok_require, ok_modifyLimits, ok_publish, existsAndEq, exists_const,
      and_assoc, true_and] at h
    obtain ⟨-, -, ⟨owner, howner, hsigned, -⟩, hcap, rfl⟩ := h
    exact .setUserDepositCap ⟨owner, howner, hsigned⟩ hcap
  case setCaps =>
    simp only [Call.run, setCaps, Tx.ok_bind, Tx.ok_get, ok_requireInitialized,
      ok_requireIsOwner, Tx.ok_require, ok_modifyLimits, ok_publish, existsAndEq, exists_const,
      and_assoc, true_and] at h
    obtain ⟨-, -, ⟨owner, howner, hsigned, -⟩, huser, htvl, -, rfl⟩ := h
    exact .setCaps ⟨owner, howner, hsigned⟩ huser htvl
  case setLimits =>
    simp only [Call.run, setLimits, Tx.ok_bind, Tx.ok_get, ok_requireInitialized,
      ok_requireIsOwner, Tx.ok_require, ok_modifyLimits, ok_publish, existsAndEq, exists_const,
      and_assoc, true_and] at h
    obtain ⟨-, -, ⟨owner, howner, hsigned, -⟩, hmin, hmax, -, rfl⟩ := h
    exact .setLimits ⟨owner, howner, hsigned⟩ hmin hmax
  case setDepositLimits =>
    simp only [Call.run, setDepositLimits, Tx.ok_bind, Tx.ok_get, ok_requireInitialized,
      ok_requireIsOwner, Tx.ok_require, ok_modifyLimits, ok_publish, existsAndEq, exists_const,
      and_assoc, true_and] at h
    obtain ⟨-, -, ⟨owner, howner, hsigned, -⟩, hmin, hle, hmax, rfl⟩ := h
    exact .setDepositLimits ⟨owner, howner, hsigned⟩ hmin hle hmax
  case setRebalanceCooldown =>
    simp only [Call.run, setRebalanceCooldown, Tx.ok_bind, Tx.ok_get, ok_requireInitialized,
      ok_requireIsOwner, ok_modifyLimits, ok_publish, existsAndEq, exists_const, and_assoc,
      true_and] at h
    obtain ⟨-, -, ⟨owner, howner, hsigned, -⟩, rfl⟩ := h
    exact .setRebalanceCooldown ⟨owner, howner, hsigned⟩
  case setRateLimit category maxCalls windowLedgers =>
    simp only [Call.run, setRateLimit, requireValidRateLimitCategory, Tx.ok_bind,
      ok_requireInitialized, ok_requireIsOwner, Tx.ok_require, ok_getRateLimitConfigInternal,
      ok_modifyLimits, ok_getOwnerInternal, ok_publish, existsAndEq, exists_const, and_assoc,
      true_and] at h
    obtain ⟨-, -, ⟨owner, howner, hsigned, -⟩, hvalid, hwindow, -, _, t, hreset, -, -, rfl⟩ := h
    have hlimits := resetGlobalBucket_limits hreset
    show LimitStep env w _ t.limits
    rw [hlimits]
    exact .setRateLimit ⟨owner, howner, hsigned⟩ hvalid hwindow
  case setMaxBatchSize =>
    simp only [Call.run, setMaxBatchSize, Tx.ok_bind, Tx.ok_get, ok_requireInitialized,
      ok_requireIsOwner, ok_modifyLimits, ok_getOwnerInternal, ok_publish, existsAndEq,
      exists_const, and_assoc, true_and] at h
    obtain ⟨-, -, ⟨owner, howner, hsigned, -⟩, -, -, rfl⟩ := h
    exact .setMaxBatchSize ⟨owner, howner, hsigned⟩
  case setApprovalTtl =>
    simp only [Call.run, setApprovalTtl, getApprovalTtlInternal, Tx.ok_bind, Tx.ok_get,
      Tx.ok_pure, ok_requireInitialized, ok_requireIsOwner, Tx.ok_require, ok_modifyLimits,
      ok_publish, existsAndEq, exists_const, and_assoc, true_and] at h
    obtain ⟨-, -, ⟨owner, howner, hsigned, -⟩, hlow, hhigh, rfl⟩ := h
    exact .setApprovalTtl ⟨owner, howner, hsigned⟩ hlow hhigh
  case setBlendApprovalTtl =>
    simp only [Call.run, setBlendApprovalTtl, getApprovalTtlInternal, Tx.ok_bind, Tx.ok_get,
      Tx.ok_pure, ok_requireInitialized, ok_requireOwnerArg, ok_modifyLimits, ok_publish,
      existsAndEq, exists_const, and_assoc, true_and] at h
    obtain ⟨-, hsigned, -, howner, rfl⟩ := h
    exact .setBlendApprovalTtl ⟨_, howner, hsigned⟩
  all_goals exact absurd hcall (by simp [Call.writes])

/-! ## Limits -/

/-- A category that is not limited allows no calls in no time; the others have a window to pass. -/
def RateLimitConfig.Sound (c : RateLimitConfig) : Prop := c.maxCalls = 0 ↔ c.windowLedgers = 0

/-- Limits within the bounds of their setters. The lifetimes of approvals are left out: their older
    setter takes any. -/
structure Limits.Sound (l : Limits) : Prop where
  tvlCap : 0 ≤ l.tvlCap
  userDepositCap : 0 ≤ l.userDepositCap
  floor : 1000000 ≤ l.minDeposit
  nonempty : l.minDeposit ≤ l.maxDeposit
  ceiling : l.maxDeposit ≤ 100000000000
  cooldown : l.minRebalanceInterval ≠ some 0
  rates : ∀ c : RateLimitCategory, c.isValid = true →
    ∃ config, l.rateLimitConfig c = some config ∧ config.Sound

theorem Limits.Sound.congr (h : l.Sound) (heq : l'.configured = l.configured) : l'.Sound := by
  obtain ⟨⟩ := l
  obtain ⟨⟩ := l'
  cases heq
  exact ⟨h.tvlCap, h.userDepositCap, h.floor, h.nonempty, h.ceiling, h.cooldown, h.rates⟩

theorem Limits.Sound.setRateLimitConfig {category : RateLimitCategory} {config : RateLimitConfig}
    (h : l.Sound) (hconfig : config.Sound) : (l.setRateLimitConfig category config).Sound := by
  refine ⟨h.tvlCap, h.userDepositCap, h.floor, h.nonempty, h.ceiling, h.cooldown, fun c hc => ?_⟩
  show ∃ config', (if c = category then some config else l.rateLimitConfig c) = some config' ∧ _
  split_ifs
  · exact ⟨config, rfl, hconfig⟩
  · exact h.rates c hc

theorem LimitStep.sound (hstep : LimitStep env w call l) (h : w.limits.Sound) : l.Sound := by
  cases hstep with
  | setTvlCap _ hcap => exact { h with tvlCap := hcap }
  | setUserDepositCap _ hcap => exact { h with userDepositCap := hcap }
  | setCaps _ huser htvl => exact { h with tvlCap := htvl, userDepositCap := huser }
  | setLimits _ hmin hmax => exact { h with tvlCap := hmax, userDepositCap := hmin }
  | setDepositLimits _ hmin hle hmax =>
    exact { h with floor := hmin, nonempty := hle, ceiling := hmax }
  | @setRebalanceCooldown interval =>
    refine { h with cooldown := ?_ }
    show (if interval = 0 then none else some interval) ≠ some 0
    split_ifs with hzero
    · simp
    · simp [hzero]
  | @setRateLimit category maxCalls windowLedgers _ _ hwindow =>
    refine h.setRateLimitConfig ?_
    unfold RateLimitConfig.Sound
    split_ifs with hzero
    · simp
    · show maxCalls = 0 ↔ windowLedgers = 0
      omega
  | setMaxBatchSize => exact { h with }
  | setApprovalTtl => exact { h with }
  | setBlendApprovalTtl => exact { h with }

theorem limits_sound_of_run (hi : w.Initialized) (h : w.limits.Sound)
    (hrun : call.run.Ok env w u w') : w'.limits.Sound := by
  by_cases hwrites : .limits ∈ call.writes
  · exact (limitStep_of_run hi hwrites hrun).sound h
  · exact h.congr (writes_run call hrun .limits hwrites)

/-! ## Circuit breaker -/

theorem record_threshold {b : Breaker} {status : Status} :
    (b.record status).maxConsecutiveFailures = b.maxConsecutiveFailures := by
  cases status <;> rfl

/-- The breaker never trips without a failure. -/
theorem threshold_of_run (hi : w.Initialized) (houtcomes : w.outcomes = [])
    (h : 1 ≤ w.breaker.maxConsecutiveFailures) (hrun : call.run.Ok env w u w') :
    1 ≤ w'.breaker.maxConsecutiveFailures := by
  cases call
  case rebalance =>
    obtain ⟨-, -, t, hcharged, ⟨status, hc⟩ | ⟨hab, -⟩⟩ := rebalance_ok hrun
    · rwa [hc.breaker, record_threshold, hcharged.breaker]
    · rwa [hab.breaker, hcharged.breaker]
  case rebalanceMulti =>
    obtain ⟨-, -, status, hc⟩ := rebalanceMulti_ok hrun
    rwa [hc.breaker, record_threshold]
  case setMaxConsecutiveFailures =>
    simp only [Call.run, setMaxConsecutiveFailures, modifyBreaker, Tx.ok_bind, Tx.ok_get,
      ok_requireInitialized, ok_requireIsOwner, Tx.ok_require, Tx.ok_modify, ok_publish,
      existsAndEq, exists_const, and_assoc, true_and] at hrun
    obtain ⟨-, -, -, hthreshold, rfl⟩ := hrun
    exact hthreshold
  all_goals
    -- the owner's switches leave the threshold alone, and so does every other call
    have hbreaker := switches_of_run hi houtcomes (by rintro _ _ _ ⟨⟩) hrun
    exact hbreaker ▸ h

/-! ## Reports -/

/-- Reported figures within the bounds of their setters. -/
structure Reports.Sound (r : Reports) : Prop where
  apy : ∀ venue, r.apyBps venue ≤ 10000
  loss : 0 ≤ r.cumulativeMevLoss
  fits : i128.Fits r.cumulativeMevLoss
  count : r.mevIncidentCount ≤ 4294967295
  threshold : 0 ≤ r.maxAcceptableMevLoss
  prediction : ∀ protocol p, r.apyPrediction protocol = some p → p.protocol = protocol

theorem reports_sound_of_run (hi : w.Initialized) (h : w.reports.Sound)
    (hrun : call.run.Ok env w u w') : w'.reports.Sound := by
  by_cases hwrites : .reports ∈ call.writes
  · cases call
    case initializeVault => exact absurd hrun (not_initializeVault_ok hi)
    case setProtocolApy protocol apyBps =>
      simp only [Call.run, setProtocolApy, modifyReports, Tx.ok_bind, ok_requireInitialized,
        ok_requireIsAgent, Tx.ok_require, Tx.ok_expect, Tx.ok_modify, ok_publish, existsAndEq,
        exists_const, and_assoc, true_and] at hrun
      obtain ⟨-, -, -, hle, venue, -, rfl⟩ := hrun
      refine { h with apy := fun v => ?_ }
      show (if v = venue then apyBps else w.reports.apyBps v) ≤ 10000
      split_ifs
      · exact hle
      · exact h.apy v
    case submitMevReport =>
      simp only [Call.run, submitMevReport, modifyReports, Tx.ok_bind, Tx.ok_get,
        ok_requireInitialized, ok_requireIsAgent, Tx.ok_require, ok_checkedAdd, Tx.ok_modify,
        ok_publish, existsAndEq, exists_const, and_assoc, true_and] at hrun
      obtain ⟨-, -, -, hloss, hfits, rfl⟩ := hrun
      refine { h with loss := ?_, fits := hfits, count := ?_ }
      · exact add_nonneg h.loss hloss
      · exact min_le_right _ _
    case setMaxAcceptableMevLoss =>
      simp only [Call.run, setMaxAcceptableMevLoss, modifyReports, Tx.ok_bind,
        ok_requireInitialized, ok_requireIsOwner, Tx.ok_require, Tx.ok_modify, existsAndEq,
        exists_const, and_assoc, true_and] at hrun
      obtain ⟨-, -, -, hloss, rfl⟩ := hrun
      exact { h with threshold := hloss }
    case submitApyPrediction =>
      simp only [Call.run, submitApyPrediction, modifyReports, Tx.ok_bind, Tx.ok_get,
        ok_requireInitialized, ok_requireIsAgent, Tx.ok_modify, existsAndEq, exists_const,
        and_assoc, true_and] at hrun
      obtain ⟨-, -, -, rfl⟩ := hrun
      refine { h with prediction := fun protocol p hp => ?_ }
      dsimp only at hp
      split_ifs at hp with hsame
      · obtain rfl := Option.some.inj hp
        exact hsame.symm
      · exact h.prediction protocol p hp
    all_goals exact absurd hwrites (by simp [Call.writes])
  · have hsame : w'.reports = w.reports := writes_run call hrun .reports hwrites
    rwa [hsame]

/-! ## Asset registry -/

/-- The bounds of an asset's own limits; a limit of zero is disabled. -/
structure AssetConfig.Sound (c : AssetConfig) : Prop where
  minDeposit : 0 ≤ c.minDeposit
  depositLimit : 0 ≤ c.depositLimit
  tvlCap : 0 ≤ c.tvlCap
  nonempty : 0 < c.depositLimit → c.minDeposit ≤ c.depositLimit

/-- The index lists the registered assets once each, and their limits are in bounds. -/
structure AssetPools.Listed (a : AssetPools) : Prop where
  nodup : a.supported.Nodup
  listed : ∀ s, s ∈ a.supported ↔ a.config s ≠ none
  limits : ∀ s c, a.config s = some c → c.Sound

variable {a b : AssetPools} {asset : Symbol}

theorem AssetPools.Listed.congr (h : a.Listed) (hconfig : b.config = a.config)
    (hsupported : b.supported = a.supported) : b.Listed := by
  refine ⟨hsupported ▸ h.nodup, fun s => ?_, fun s c hc => h.limits s c (hconfig ▸ hc)⟩
  rw [hsupported, hconfig]
  exact h.listed s

theorem AssetPools.Listed.add {c : AssetConfig} (h : a.Listed) (hnone : a.config asset = none)
    (hc : c.Sound) : ((a.setConfig asset (some c)).addToIndex asset).Listed := by
  have hnew : asset ∉ a.supported := fun hmem => (h.listed asset).mp hmem hnone
  have hindex : (a.setConfig asset (some c)).addToIndex asset =
      { a.setConfig asset (some c) with supported := a.supported ++ [asset] } := if_neg hnew
  rw [hindex]
  refine ⟨List.nodup_append.mpr ⟨h.nodup, List.nodup_singleton asset, ?_⟩, fun s => ?_,
    fun s c' hc' => ?_⟩
  · rintro s hs t ht rfl
    exact hnew (List.mem_singleton.mp ht ▸ hs)
  · show s ∈ a.supported ++ [asset] ↔ (if s = asset then some c else a.config s) ≠ none
    rw [List.mem_append, List.mem_singleton, h.listed]
    split_ifs with hs
    · simp [hs]
    · simp [hs]
  · have hvalue : (if s = asset then some c else a.config s) = some c' := hc'
    split_ifs at hvalue
    · exact Option.some.inj hvalue ▸ hc
    · exact h.limits s c' hvalue

theorem AssetPools.Listed.update {c c0 : AssetConfig} (h : a.Listed)
    (hsome : a.config asset = some c0) (hc : c.Sound) : (a.setConfig asset (some c)).Listed := by
  refine ⟨h.nodup, fun s => ?_, fun s c' hc' => ?_⟩
  · show s ∈ a.supported ↔ (if s = asset then some c else a.config s) ≠ none
    rw [h.listed]
    split_ifs with hs
    · simp [hs, hsome]
    · exact Iff.rfl
  · have hvalue : (if s = asset then some c else a.config s) = some c' := hc'
    split_ifs at hvalue
    · exact Option.some.inj hvalue ▸ hc
    · exact h.limits s c' hvalue

theorem AssetPools.Listed.remove (h : a.Listed) :
    (((a.setConfig asset none).setTotals asset {}).removeFromIndex asset).Listed := by
  refine ⟨h.nodup.filter _, fun s => ?_, fun s c hc => ?_⟩
  · show s ∈ a.supported.filter (· ≠ asset) ↔ (if s = asset then none else a.config s) ≠ none
    rw [List.mem_filter, decide_eq_true_iff, h.listed]
    split_ifs with hs
    · simp [hs]
    · simp [hs]
  · have hvalue : (if s = asset then none else a.config s) = some c := hc
    split_ifs at hvalue
    exact h.limits s c hvalue

theorem listed_of_run (hi : w.Initialized) (h : w.assets.Listed)
    (hrun : call.run.Ok env w u w') : w'.assets.Listed := by
  have heffect := effect_of_run hi hrun
  by_cases hplain : call.isPlain = true
  · rwa [assetsFrame.effect (fun _ _ _ _ _ _ hcalled => hcalled.assets_eq)
      (fun _ hmove => hmove.poolStep.assets) heffect hplain]
  cases call
  case depositAsset =>
    obtain ⟨c, t0, t, -, -, -, -, hcredit, -⟩ := depositAsset_ok hrun
    rw [hcredit.assets]
    exact h.congr rfl rfl
  case withdrawAsset =>
    obtain ⟨c, actual, -, -, hdebit, -⟩ := withdrawAsset_ok hrun
    rw [hdebit.assets]
    exact h.congr rfl rfl
  case setVenuePool => rwa [(setVenuePool_ok hrun).assets]
  case addSupportedAsset =>
    simp only [Call.run, addSupportedAsset, requireValidAssetLimits, Tx.ok_bind, Tx.ok_get,
      ok_requireInitialized, ok_requireIsOwner, Tx.ok_require, ok_putAssets, ok_getOwnerInternal,
      ok_publish, Option.isNone_iff_eq_none, existsAndEq, exists_const, and_assoc, true_and] at hrun
    obtain ⟨-, -, -, hnone, hmin, hlimit, hcap, hrange, -, -, rfl⟩ := hrun
    exact h.add hnone ⟨hmin, hlimit, hcap, fun hpos => not_lt.mp fun hlt => hrange ⟨hpos, hlt⟩⟩
  case updateAssetLimits =>
    simp only [Call.run, updateAssetLimits, requireValidAssetLimits, Tx.ok_bind, Tx.ok_get,
      ok_requireInitialized, ok_requireIsOwner, Tx.ok_require, ok_getAssetConfigOr, ok_putAssets,
      existsAndEq, exists_const, and_assoc, true_and] at hrun
    obtain ⟨-, -, -, hmin, hlimit, hcap, hrange, config, hconfig, rfl⟩ := hrun
    exact h.update hconfig
      ⟨hmin, hlimit, hcap, fun hpos => not_lt.mp fun hlt => hrange ⟨hpos, hlt⟩⟩
  case removeSupportedAsset =>
    rw [(removeSupportedAsset_ok hrun).2.2]
    exact h.remove
  all_goals exact absurd rfl hplain

/-! ## Runs -/

/-- Everything the owner and the agent can set is in bounds. -/
structure World.WellConfigured (w : World) : Prop where
  limits : w.limits.Sound
  threshold : 1 ≤ w.breaker.maxConsecutiveFailures
  reports : w.reports.Sound
  registry : w.assets.Listed

theorem defaultRateLimitConfig_sound (c : RateLimitCategory) :
    (defaultRateLimitConfig c).Sound := by
  cases c <;> simp [RateLimitConfig.Sound, defaultRateLimitConfig]

/-- Every default passes the check of its setter. -/
theorem World.Opened.wellConfigured (h : w.Opened) : w.WellConfigured := by
  obtain ⟨env, blank, deployer, owner, agent, usdcToken, salt, hblank, hok⟩ := h
  obtain ⟨-, rfl⟩ := initializeVault_ok (ok_invoke.mp hok)
  have hcooldown : blank.limits.minRebalanceInterval = none := by rw [hblank.limits]
  refine ⟨⟨?_, ?_, ?_, ?_, ?_, ?_, fun c hc => ⟨defaultRateLimitConfig c, ?_,
    defaultRateLimitConfig_sound c⟩⟩, ?_, ?_, ?_⟩
  · show (0 : Int) ≤ 100000000000
    decide
  · show (0 : Int) ≤ 10000000000
    decide
  · show (1000000 : Int) ≤ 1000000
    decide
  · show (1000000 : Int) ≤ 10000000000
    decide
  · show (10000000000 : Int) ≤ 100000000000
    decide
  · show blank.limits.minRebalanceInterval ≠ some 0
    rw [hcooldown]
    exact nofun
  · show (rateLimitDefaults c).orElse (fun _ => blank.limits.rateLimitConfig c) = _
    rw [rateLimitDefaults, if_pos hc]
    rfl
  · show 1 ≤ 3
    decide
  · show blank.reports.Sound
    rw [hblank.reports]
    exact ⟨fun _ => Nat.zero_le _, le_rfl, by decide, Nat.zero_le _, le_rfl, nofun⟩
  · show blank.assets.Listed
    rw [hblank.assets]
    exact ⟨List.nodup_nil, fun s => by simp, nofun⟩

theorem wellConfigured_after (step : Step) (hi : w.Initialized) (h : w.WellConfigured) :
    (w.after step).WellConfigured := by
  refine after_cases (P := World.WellConfigured) step hi h ?_ ?_
  · rintro env call w' rfl hok -
    have hrun := ok_invoke.mp hok
    exact ⟨limits_sound_of_run (w := w.entered) hi h.limits hrun,
      threshold_of_run (w := w.entered) hi rfl h.threshold hrun,
      reports_sound_of_run (w := w.entered) hi h.reports hrun,
      listed_of_run (w := w.entered) hi h.registry hrun⟩
  · rintro chain rfl
    exact ⟨h.limits, h.threshold, h.reports, h.registry⟩

/-- Whatever is called, by whom and in whatever order, the configuration stays in bounds. -/
theorem configuration_sound (h0 : w0.Opened) (h : Reaches (fun _ _ => True) w0 w) :
    w.WellConfigured :=
  (h.invariant h0 h0.wellConfigured fun _ step _ hi hconfigured =>
    wellConfigured_after step hi hconfigured).1

namespace Sample

/-- The owner narrows the deposit limits, slows rebalances down and switches one rate limit off. -/
def tightening : List Step :=
  [.call honest (.setDepositLimits 20000000 50000000), .call honest (.setRebalanceCooldown 720),
    .call honest (.setRateLimit .deposit 0 720), .call honest (.setDepositLimits 10 5)]

theorem tightening_wellConfigured : (opened.replay tightening).limits.minDeposit = 20000000 ∧
    (opened.replay tightening).WellConfigured :=
  ⟨by decide +kernel,
    configuration_sound opened_opened (.of_admits ⟨trivial, trivial, trivial, trivial, trivial⟩)⟩

end Sample

/-! ## Deposit limits -/

/-- The calls that set the deposit limits of an open vault. -/
def Call.setsDepositLimits : Call → Bool
  | .setDepositLimits .. => true
  | _ => false

theorem depositLimits_of_run (hi : w.Initialized) (hcall : call.setsDepositLimits = false)
    (hrun : call.run.Ok env w u w') :
    w'.limits.minDeposit = w.limits.minDeposit ∧ w'.limits.maxDeposit = w.limits.maxDeposit := by
  by_cases hwrites : .limits ∈ call.writes
  · have hstep := limitStep_of_run hi hwrites hrun
    generalize w'.limits = l at hstep ⊢
    cases hstep with
    | setDepositLimits => exact Bool.noConfusion hcall
    | _ => exact ⟨rfl, rfl⟩
  · have hsame : w'.limits.configured = w.limits.configured :=
      writes_run call hrun .limits hwrites
    constructor
    · show w'.limits.configured.minDeposit = w.limits.configured.minDeposit
      rw [hsame]
    · show w'.limits.configured.maxDeposit = w.limits.configured.maxDeposit
      rw [hsame]

/-- The owner leaves the deposit limits alone. -/
def Step.KeepsDepositLimits : Step → Prop
  | .call _ call => call.setsDepositLimits = false
  | .ambient _ => True

theorem depositLimits_of_reaches (h0 : w0.Opened)
    (h : Reaches (fun _ step => step.KeepsDepositLimits) w0 w) :
    w.limits.minDeposit = 1000000 ∧ w.limits.maxDeposit = 10000000000 := by
  have hinitial : w0.limits.minDeposit = 1000000 ∧ w0.limits.maxDeposit = 10000000000 := by
    obtain ⟨env, blank, deployer, owner, agent, usdcToken, salt, -, hok⟩ := h0
    obtain ⟨-, rfl⟩ := initializeVault_ok (ok_invoke.mp hok)
    exact ⟨rfl, rfl⟩
  refine (h.invariant (P := fun t => t.limits.minDeposit = 1000000 ∧
    t.limits.maxDeposit = 10000000000) h0 hinitial ?_).1
  intro t step hkeeps hi hlimits
  refine after_cases (P := fun t => t.limits.minDeposit = 1000000 ∧
    t.limits.maxDeposit = 10000000000) step hi hlimits ?_ ?_
  · rintro env call t' rfl hok -
    obtain ⟨hmin, hmax⟩ := depositLimits_of_run (w := t.entered) hi hkeeps (ok_invoke.mp hok)
    exact ⟨hmin.trans hlimits.1, hmax.trans hlimits.2⟩
  · rintro chain rfl
    exact hlimits

/-! ## Errors over an input -/

variable {user : Address} {amount : Int} {e : VaultError}

theorem ok_requireMinimumDeposit :
    (requireMinimumDeposit amount).Ok env w u w' ↔ w.limits.minDeposit ≤ amount ∧ w' = w := by
  simp [requireMinimumDeposit, and_comm]

theorem ok_requireMaximumDeposit :
    (requireMaximumDeposit amount).Ok env w u w' ↔ amount ≤ w.limits.maxDeposit ∧ w' = w := by
  simp [requireMaximumDeposit, and_comm]

/-- The errors over an amount to deposit or a strategy themselves. -/
def VaultError.blamesInput : VaultError → Bool
  | .amountMustBePositive => true
  | .belowMinimumDeposit => true
  | .maximumDepositExceeded => true
  | .invalidStrategy => true
  | _ => false

def VaultError.BlamesInput (e : VaultError) : Prop := e.blamesInput = true
deriving Decidable

theorem aborts_invoke : (invoke call).Aborts env w e ↔ call.run.Aborts env w.entered e :=
  Tx.aborts_bind_of_ok (a := ()) (Tx.ok_modify.mpr rfl)

theorem unblamed_requireAuth {a : Address} : Never VaultError.BlamesInput (requireAuth a) :=
  .bind .read fun _ => .bind .get fun _ => .require (by decide)

theorem unblamed_requireInitialized : Never VaultError.BlamesInput requireInitialized :=
  .bind .get fun _ => .require (by decide)

theorem unblamed_publish {event : Event} : Never VaultError.BlamesInput (publish event) := .modify

theorem unblamed_checkedAdd {x y : Int} {text : String} :
    Never VaultError.BlamesInput (checkedAdd x y text) :=
  .expect Bool.noConfusion

theorem unblamed_mulDivDown {texts : ConversionTexts} {x y z : Int} :
    Never VaultError.BlamesInput (mulDivDown texts x y z) :=
  .bind (.expect Bool.noConfusion) fun _ => .expect Bool.noConfusion

theorem unblamed_convertToShares {assets : Int} :
    Never VaultError.BlamesInput (convertToSharesInternal assets) :=
  .bind .get fun _ => .ite (.pure _) (.ite (.pure _) unblamed_mulDivDown)

theorem unblamed_convertToAssets {shares : Int} :
    Never VaultError.BlamesInput (convertToAssetsInternal shares) :=
  .bind .get fun _ => .ite (.pure _) (.ite (.pure _) unblamed_mulDivDown)

theorem unblamed_recordFirstDeposit {shares : Int} :
    Never VaultError.BlamesInput (recordFirstDeposit user shares amount) := by
  refine .bind .modify fun _ => .bind .get fun w => .bind .modify fun _ => .bind .get fun _ => ?_
  exact .ite (.bind .modify fun _ => unblamed_publish) (.pure _)

theorem unblamed_creditDeposit : Never VaultError.BlamesInput (creditDeposit user amount) := by
  have hread {f : World → Int} :
      Never VaultError.BlamesInput (do let w ← get; pure (f w) : Contract Int) :=
    .bind .get fun _ => .pure _
  have hwrite {f : World → World → World} :
      Never VaultError.BlamesInput (do let w ← get; modify (f w) : Contract Unit) :=
    .bind .get fun _ => .modify
  refine .bind .get fun _ => .bind unblamed_checkedAdd fun _ => .bind hwrite fun _ => ?_
  refine .bind unblamed_convertToShares fun _ => .bind (.require (by decide)) fun _ => ?_
  refine .bind hread fun _ => .bind unblamed_checkedAdd fun _ => .bind hwrite fun _ => ?_
  refine .bind (.onlyIf unblamed_recordFirstDeposit) fun _ => ?_
  refine .bind hread fun _ => .bind unblamed_checkedAdd fun _ => .bind hwrite fun _ => ?_
  refine .bind hread fun _ => .bind unblamed_checkedAdd fun _ => .bind hwrite fun _ => ?_
  exact .bind hwrite fun _ => unblamed_publish

theorem unblamed_setUserStrategy {strategy : Strategy} (hvalid : strategy.isValid = true)
    (h : (setUserStrategy user strategy).Aborts env w e) : ¬ e.BlamesInput := by
  unfold setUserStrategy at h
  rcases Tx.aborts_bind.mp h with hguard | ⟨_, _, hok, h1⟩
  · exact unblamed_requireInitialized hguard
  rcases Tx.aborts_bind.mp h1 with hguard | ⟨_, _, hok, h2⟩
  · exact unblamed_requireAuth hguard
  rw [Tx.aborts_bind_of_ok (a := ()) (Tx.ok_require.mpr ⟨hvalid, rfl⟩)] at h2
  have hrest : Never VaultError.BlamesInput (do
      let w ← get
      modifyProfiles fun p =>
        { p with userStrategy := fun u => if u = user then some strategy else p.userStrategy u }
      publish (.userStrategyUpdated user ((w.profiles.userStrategy user).getD .empty) strategy)) :=
    .bind .get fun _ => .bind .modify fun _ => unblamed_publish
  exact hrest h2

/-- An amount within the deposit limits is not what a deposit fails over. -/
theorem unblamed_deposit (hpositive : 0 < amount) (hmin : w.limits.minDeposit ≤ amount)
    (hmax : amount ≤ w.limits.maxDeposit) (h : (deposit user amount).Aborts env w e) :
    ¬ e.BlamesInput := by
  have hcap : Never VaultError.BlamesInput (requireWithinDepositCap user amount) := by
    refine .bind .get fun w => .ite ?_ (.pure _)
    refine .bind (.bind .get fun _ => .pure _) fun _ => .bind unblamed_convertToAssets fun _ => ?_
    exact .bind unblamed_checkedAdd fun _ => .require (by decide)
  have htvl : Never VaultError.BlamesInput (requireWithinTvlCap amount) := by
    refine .bind .get fun w => .ite ?_ (.pure _)
    refine .bind (.bind .get fun _ => .pure _) fun _ => ?_
    exact .bind unblamed_checkedAdd fun _ => .require (by decide)
  have hrate : Never VaultError.BlamesInput (enforceUserRateLimit user .deposit) := by
    refine .bind (.bind (.require (by decide)) fun _ => .bind .get fun _ => .pure _) fun _ => ?_
    refine .bind .get fun w => .ite (.pure _) ?_
    exact .bind (.require (by decide)) fun _ => .modify
  unfold deposit at h
  rcases Tx.aborts_bind.mp h with hguard | ⟨_, _, hok, h1⟩
  · exact unblamed_requireInitialized hguard
  obtain ⟨-, rfl⟩ := ok_requireInitialized.mp hok
  rcases Tx.aborts_bind.mp h1 with hguard | ⟨_, _, hok, h2⟩
  · exact unblamed_requireAuth hguard
  obtain ⟨-, rfl⟩ := ok_requireAuth.mp hok
  rcases Tx.aborts_bind.mp h2 with hguard | ⟨_, _, hok, h3⟩
  · have hpaused : Never VaultError.BlamesInput requireNotPaused :=
      .bind .get fun _ => .require (by decide)
    exact hpaused hguard
  obtain ⟨-, rfl⟩ := ok_requireNotPaused.mp hok
  rw [Tx.aborts_bind_of_ok (a := ()) (ok_requirePositiveAmount.mpr ⟨hpositive, rfl⟩),
    Tx.aborts_bind_of_ok (a := ()) (ok_requireMinimumDeposit.mpr ⟨hmin, rfl⟩),
    Tx.aborts_bind_of_ok (a := ()) (ok_requireMaximumDeposit.mpr ⟨hmax, rfl⟩)] at h3
  have hrest : Never VaultError.BlamesInput (do
      requireWithinDepositCap user amount
      requireWithinTvlCap amount
      enforceUserRateLimit user .deposit
      let usdcToken ← getUsdcToken
      let w ← get
      transfer usdcToken user w.self amount
      creditDeposit user amount) := by
    refine .bind hcap fun _ => .bind htvl fun _ => .bind hrate fun _ => ?_
    refine .bind (.bind .get fun _ => .expect (by decide)) fun _ => .bind .get fun _ => ?_
    refine .bind ?_ fun _ => unblamed_creditDeposit
    exact .bind .get fun _ => .bind (.require (by decide)) fun _ => .bind .modify fun _ =>
      unblamed_publish
  exact hrest h3

end NeuroWealth.Vault
