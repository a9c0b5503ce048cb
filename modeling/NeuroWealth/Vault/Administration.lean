import NeuroWealth.Vault.Venues

/-!
# Administration

Initialisation, pausing, limits, roles, pools and upgrades.
-/

namespace NeuroWealth.Vault

open Transaction MachineInt

/-! ## Initialisation -/

def rateLimitDefaults (c : RateLimitCategory) : Option RateLimitConfig :=
  if c.isValid then some (defaultRateLimitConfig c) else none

/-- Storage of a freshly initialised vault, over whatever was stored before. -/
def World.initialized (w : World) (deployer owner agent usdcToken : Address) : World :=
  { w with
    usdcToken := some usdcToken
    book := { w.book with totalDeposits := 0, totalShares := 0, totalAssets := some 0 }
    roles := { w.roles with
      deployer := some deployer, agent := some agent, owner := some owner, version := 1 }
    breaker := { w.breaker with paused := false, maxConsecutiveFailures := 3 }
    limits := { w.limits with
      tvlCap := 100000000000
      userDepositCap := 10000000000
      minDeposit := 1000000
      maxDeposit := 10000000000
      blendApprovalTtl := some 100000
      maxBatchSize := 50
      rateLimitConfig := fun c =>
        (rateLimitDefaults c).orElse fun _ => w.limits.rateLimitConfig c } }

def initializeVault (deployer owner agent usdcToken : Address) (salt : Nat) : Contract Unit := do
  let env ← read
  let w ← get
  Tx.require w.roles.agent.isNone .alreadyInitialized
  Tx.require (deployer ≠ .zero) (.panic "deployer cannot be zero address")
  Tx.require (owner ≠ .zero) (.panic "owner cannot be zero address")
  Tx.require (agent ≠ .zero) (.panic "agent cannot be zero address")
  Tx.require (usdcToken ≠ .zero) (.panic "usdc_token cannot be zero address")
  Tx.require (env.deployedAddress deployer salt = w.self) .unauthorizedDeployer
  requireAuth deployer
  modify fun w => w.initialized deployer owner agent usdcToken
  publish (.initialized owner agent usdcToken 100000000000)

/-! ## Pausing -/

def pause (owner : Address) : Contract Unit := do
  requireInitialized
  requireOwnerArg owner .onlyOwnerCanPause
  modifyBreaker fun b => { b with paused := true }
  publish (.paused owner)

def unpause (owner : Address) : Contract Unit := do
  requireInitialized
  requireOwnerArg owner .onlyOwnerCanUnpause
  let w ← get
  Tx.require (w.breaker.paused = true) .notPaused
  modifyBreaker fun b => { b with paused := false }
  publish (.unpaused owner)

def emergencyPause (owner : Address) : Contract Unit := do
  requireInitialized
  requireOwnerArg owner .onlyOwnerCanEmergencyPause
  let w ← get
  if w.breaker.paused = true then pure ()
  else do
    modifyBreaker fun b => { b with paused := true }
    publish (.emergencyPaused owner)

def resetCircuitBreaker (owner : Address) : Contract Unit := do
  requireInitialized
  requireOwnerArg owner .onlyOwnerCanUnpause
  modifyBreaker fun b => { b with consecutiveFailures := 0, paused := false }
  publish (.circuitBreakerReset owner)

/-! ## Limits -/

def setTvlCap (cap : Int) : Contract Unit := do
  requireInitialized
  requireIsOwner
  Tx.require (0 ≤ cap) .tvlCapCannotBeNegative
  let w ← get
  modifyLimits fun l => { l with tvlCap := cap }
  publish (.tvlCapUpdated w.limits.tvlCap cap w.chain.timestamp)

def setUserDepositCap (cap : Int) : Contract Unit := do
  requireInitialized
  requireIsOwner
  Tx.require (0 ≤ cap) .userDepositCapCannotBeNegative
  let w ← get
  modifyLimits fun l => { l with userDepositCap := cap }
  publish (.userDepositCapUpdated w.limits.userDepositCap cap w.chain.timestamp)

def setCaps (userDepositCap tvlCap : Int) : Contract Unit := do
  requireInitialized
  requireIsOwner
  Tx.require (0 ≤ userDepositCap) .userDepositCapCannotBeNegative
  Tx.require (0 ≤ tvlCap) .tvlCapCannotBeNegative
  Tx.require (¬ (0 < tvlCap ∧ 0 < userDepositCap ∧ tvlCap < userDepositCap))
    .tvlCapBelowUserDepositCap
  let w ← get
  modifyLimits fun l => { l with userDepositCap := userDepositCap, tvlCap := tvlCap }
  publish (.userDepositCapUpdated w.limits.userDepositCap userDepositCap w.chain.timestamp)
  publish (.tvlCapUpdated w.limits.tvlCap tvlCap w.chain.timestamp)
  publish (.capsUpdated w.limits.userDepositCap userDepositCap w.limits.tvlCap tvlCap)

/-- The legacy setter, which stores its bounds as the two caps. -/
def setLimits (min max : Int) : Contract Unit := do
  requireInitialized
  requireIsOwner
  Tx.require (0 ≤ min) .invalidStrategy
  Tx.require (0 ≤ max) .invalidStrategy
  Tx.require (min ≤ max) .invalidStrategy
  let w ← get
  modifyLimits fun l => { l with userDepositCap := min, tvlCap := max }
  publish (.limitsUpdated w.limits.userDepositCap min w.limits.tvlCap max)

def setDepositLimits (min max : Int) : Contract Unit := do
  requireInitialized
  requireIsOwner
  Tx.require (1000000 ≤ min) .invalidStrategy
  Tx.require (min ≤ max) .invalidStrategy
  Tx.require (max ≤ 100000000000) .maximumDepositExceeded
  let w ← get
  modifyLimits fun l => { l with minDeposit := min, maxDeposit := max }
  publish (.depositLimitsUpdated w.limits.minDeposit min w.limits.maxDeposit max)

def setRebalanceCooldown (interval : Nat) : Contract Unit := do
  requireInitialized
  requireIsOwner
  let w ← get
  modifyLimits fun l =>
    { l with minRebalanceInterval := if interval = 0 then none else some interval }
  publish (.rebalanceCooldownUpdated (w.limits.minRebalanceInterval.getD 0) interval)

def Limits.setRateLimitConfig (l : Limits) (category : RateLimitCategory)
    (config : RateLimitConfig) : Limits :=
  { l with rateLimitConfig := fun c =>
      if c = category then some config else l.rateLimitConfig c }

/-- Only the global buckets can be reset without enumerating users. -/
def RateLimitCategory.isGlobal : RateLimitCategory → Bool
  | .rebalance => true
  | .preview => true
  | _ => false

def resetGlobalBucket (category : RateLimitCategory) : Contract Unit :=
  modify fun w => { w with buckets := w.buckets.set none category none }

def setRateLimit (category : RateLimitCategory) (maxCalls windowLedgers : Nat) :
    Contract Unit := do
  requireInitialized
  requireIsOwner
  requireValidRateLimitCategory category
  Tx.require (¬ (0 < maxCalls ∧ windowLedgers = 0)) .invalidRateLimitConfig
  let newConfig : RateLimitConfig := if maxCalls = 0 then ⟨0, 0⟩ else ⟨maxCalls, windowLedgers⟩
  let oldConfig ← getRateLimitConfigInternal category
  modifyLimits fun l => l.setRateLimitConfig category newConfig
  Tx.onlyIf (category.isGlobal = true) (resetGlobalBucket category)
  let owner ← getOwnerInternal
  publish (.rateLimitConfigUpdated category oldConfig.maxCalls oldConfig.windowLedgers
    newConfig.maxCalls newConfig.windowLedgers owner)

def setMaxBatchSize (maxEntries : Nat) : Contract Unit := do
  requireInitialized
  requireIsOwner
  let w ← get
  modifyLimits fun l => { l with maxBatchSize := maxEntries }
  let owner ← getOwnerInternal
  publish (.batchSizeLimitUpdated w.limits.maxBatchSize maxEntries owner)

def setMinHoldingPeriod (ledgers : Nat) : Contract Unit := do
  requireInitialized
  requireIsOwner
  let w ← get
  putHolding { w.holding with minHoldingPeriod := ledgers }

def setMaxConsecutiveFailures (threshold : Nat) : Contract Unit := do
  requireInitialized
  requireIsOwner
  Tx.require (1 ≤ threshold) .invalidStrategy
  let w ← get
  modifyBreaker fun b => { b with maxConsecutiveFailures := threshold }
  publish (.maxConsecutiveFailuresUpdated w.breaker.maxConsecutiveFailures threshold)

def setApprovalTtl (ttl : Nat) : Contract Unit := do
  requireInitialized
  requireIsOwner
  Tx.require (1000 ≤ ttl) .approvalTtlTooLow
  Tx.require (ttl ≤ 500000) .approvalTtlTooHigh
  let oldTtl ← getApprovalTtlInternal
  modifyLimits fun l => { l with approvalTtl := some ttl }
  publish (.approvalTtlUpdated oldTtl ttl)

/-- The older setter of the approval lifetime, without bounds. -/
def setBlendApprovalTtl (owner : Address) (blendApprovalTtl : Nat) : Contract Unit := do
  requireInitialized
  requireOwnerArg owner .callerIsNotOwner
  let oldTtl ← getApprovalTtlInternal
  modifyLimits fun l => { l with approvalTtl := some blendApprovalTtl }
  publish (.approvalTtlUpdated oldTtl blendApprovalTtl)

/-! ## User preferences and maintenance -/

def Strategy.isValid : Strategy → Bool
  | .conservative => true
  | .balanced => true
  | .growth => true
  | _ => false

def setUserStrategy (user : Address) (strategy : Strategy) : Contract Unit := do
  requireInitialized
  requireAuth user
  Tx.require (strategy.isValid = true) .invalidStrategy
  let w ← get
  modifyProfiles fun p =>
    { p with userStrategy := fun u => if u = user then some strategy else p.userStrategy u }
  publish (.userStrategyUpdated user ((w.profiles.userStrategy user).getD .empty) strategy)

/-- `touch_user_ttl`; entry lifetimes themselves are not modelled. -/
def touchUserTtl (user : Address) : Contract Unit := do
  requireInitialized
  enforceUserRateLimit user .touchTtl

def batchTouchTtl (users : List Address) : Contract Unit := do
  requireInitialized
  requireBatchSize users.length
  Tx.each (fun user => enforceUserRateLimit user .touchTtl) users

/-- The rate-limited conversion views: each spends the shared preview allowance. -/
def preview (conversion : Int → Contract Int) (amount : Int) : Contract Int := do
  requireInitialized
  enforceGlobalRateLimit .preview
  conversion amount

def previewDepositToShares : Int → Contract Int := preview convertToSharesInternal

def previewSharesToAssets : Int → Contract Int := preview convertToAssetsInternal

def previewWithdraw : Int → Contract Int := preview convertToSharesInternalCeil

def convertToShares : Int → Contract Int := preview convertToSharesInternal

def convertToAssets : Int → Contract Int := preview convertToAssetsInternal

/-! ## Agents, guardian and ownership -/

/-- Both timelocks last a day. -/
def timelockLedgers : Nat := 17280

def updateAgent (newAgent : Address) : Contract Unit := do
  requireInitialized
  requireIsOwner
  let w ← get
  Tx.require w.roles.pendingAgent.isNone .timelockAlreadyPending
  let oldAgent ← getAgentInternal
  let effectiveLedger := saturatingAddU32 w.chain.sequence timelockLedgers
  modifyRoles fun r =>
    { r with pendingAgent := some newAgent, agentTimelockExpiry := effectiveLedger }
  publish (.agentUpdateProposed oldAgent newAgent effectiveLedger)

def confirmAgentUpdate : Contract Unit := do
  requireInitialized
  requireIsOwner
  let w ← get
  let newAgent ← Tx.expect .noTimelockPending w.roles.pendingAgent
  Tx.require (w.roles.agentTimelockExpiry ≤ w.chain.sequence) .timelockNotExpired
  let oldAgent ← getAgentInternal
  modifyRoles fun r => { r with
    agent := some newAgent, pendingAgent := none, agentTimelockExpiry := 0 }
  publish (.agentUpdateConfirmed oldAgent newAgent)
  publish (.agentUpdated oldAgent newAgent)

def cancelAgentUpdate : Contract Unit := do
  requireInitialized
  requireIsOwner
  let w ← get
  let proposed ← Tx.expect .noTimelockPending w.roles.pendingAgent
  let oldAgent ← getAgentInternal
  modifyRoles fun r => { r with pendingAgent := none, agentTimelockExpiry := 0 }
  publish (.agentUpdateCancelled oldAgent proposed)

def updateStandbyAgent (newStandby : Address) : Contract Unit := do
  requireInitialized
  requireIsOwner
  let primary ← getAgentInternal
  Tx.require (newStandby ≠ primary) .invalidStrategy
  let w ← get
  modifyRoles fun r => { r with standbyAgent := some newStandby }
  let owner ← getOwnerInternal
  publish (.standbyAgentUpdated w.roles.standbyAgent newStandby owner w.chain.timestamp)

def switchToStandbyAgent : Contract Unit := do
  requireInitialized
  requireIsOwner
  let oldPrimary ← getAgentInternal
  let w ← get
  let newPrimary ← Tx.expect (.panic "switch_to_standby_agent: no standby agent configured")
    w.roles.standbyAgent
  modifyRoles fun r => { r with agent := some newPrimary, standbyAgent := some oldPrimary }
  let owner ← getOwnerInternal
  publish (.agentKeyRotated oldPrimary newPrimary oldPrimary owner w.chain.timestamp)

/-- `set_guardian` and `remove_guardian`. -/
def changeGuardian (newGuardian : Option Address) : Contract Unit := do
  requireInitialized
  requireIsOwner
  let w ← get
  modifyRoles fun r => { r with guardian := newGuardian }
  let owner ← getOwnerInternal
  publish (.guardianSet w.roles.guardian newGuardian owner)

def setGuardian (newGuardian : Address) : Contract Unit := changeGuardian (some newGuardian)

def removeGuardian : Contract Unit := changeGuardian none

def transferOwnership (newOwner : Address) : Contract Unit := do
  requireInitialized
  requireIsOwner
  let currentOwner ← getOwnerInternal
  modifyRoles fun r => { r with pendingOwner := some newOwner }
  publish (.ownershipTransferInitiated currentOwner newOwner)

def acceptOwnership (newOwner : Address) : Contract Unit := do
  requireInitialized
  requireAuth newOwner
  let w ← get
  let pending ← Tx.expect .callerIsNotPendingOwner w.roles.pendingOwner
  Tx.require (newOwner = pending) .callerIsNotPendingOwner
  let oldOwner ← getOwnerInternal
  modifyRoles fun r => { r with owner := some newOwner, pendingOwner := none }
  publish (.ownershipTransferred oldOwner newOwner)

def cancelOwnershipTransfer : Contract Unit := do
  requireInitialized
  requireIsOwner
  let w ← get
  let pending ← Tx.expect .callerIsNotPendingOwner w.roles.pendingOwner
  let owner ← getOwnerInternal
  modifyRoles fun r => { r with pendingOwner := none }
  publish (.ownershipTransferCancelled owner pending)

/-! ## Pools -/

def Deployment.setPool (d : Deployment) (venue : Venue) (pool : Address) : Deployment :=
  { d with pool := fun v => if v = venue then some pool else d.pool v }

/-- Points a venue at a pool. Repeating the configured pool changes nothing. -/
def setVenuePool (venue : Venue) (owner poolAddress : Address) : Contract Unit := do
  requireInitialized
  requireOwnerArg owner .onlyOwnerCanConfigurePool
  let w ← get
  let oldPool := w.deployment.pool venue
  if oldPool = some poolAddress then pure ()
  else do
    let _ ← getUsdcToken
    -- the interface probe
    let _ ← poolBalance venue poolAddress
    putDeployment (w.deployment.setPool venue poolAddress)
    publish (.poolConfigured venue oldPool poolAddress owner)

def setBlendPool : Address → Address → Contract Unit := setVenuePool .blend

def setDexPool : Address → Address → Contract Unit := setVenuePool .dex

/-! ## Upgrades -/

def scheduleUpgrade (owner : Address) (newWasmHash : Nat) : Contract Unit := do
  requireInitialized
  requireAuth owner
  requireNotPaused
  let storedOwner ← getOwnerInternal
  Tx.require (owner = storedOwner) .callerIsNotOwner
  let w ← get
  Tx.require w.roles.pendingUpgradeHash.isNone .timelockAlreadyPending
  Tx.require (newWasmHash ≠ 0) .invalidStrategy
  let effectiveLedger := saturatingAddU32 w.chain.sequence timelockLedgers
  modifyRoles fun r =>
    { r with pendingUpgradeHash := some newWasmHash, upgradeTimelockExpiry := effectiveLedger }
  publish (.upgradeScheduled newWasmHash effectiveLedger)

def requireGuardianAuth : Contract Unit := do
  let w ← get
  match w.roles.guardian with
  | some guardian => requireAuth guardian
  | none => pure ()

/-- Runs on under the same code: what a newly installed build does is outside the model. -/
def executeUpgrade (owner : Address) : Contract Unit := do
  requireInitialized
  requireAuth owner
  requireNotPaused
  let storedOwner ← getOwnerInternal
  Tx.require (owner = storedOwner) .callerIsNotOwner
  requireGuardianAuth
  let w ← get
  let newWasmHash ← Tx.expect .noTimelockPending w.roles.pendingUpgradeHash
  Tx.require (w.roles.upgradeTimelockExpiry ≤ w.chain.sequence) .timelockNotExpired
  modifyRoles fun r => { r with pendingUpgradeHash := none, upgradeTimelockExpiry := 0 }
  updateCurrentContractWasm newWasmHash
  Tx.require (w.roles.version + 1 ≤ 4294967295) (.panic "vault: version overflow")
  modifyRoles fun r => { r with version := w.roles.version + 1 }
  publish (.upgraded w.roles.version (w.roles.version + 1))

def cancelUpgrade (owner : Address) : Contract Unit := do
  requireInitialized
  requireOwnerArg owner .callerIsNotOwner
  let w ← get
  let cancelled ← Tx.expect .noTimelockPending w.roles.pendingUpgradeHash
  modifyRoles fun r => { r with pendingUpgradeHash := none, upgradeTimelockExpiry := 0 }
  publish (.upgradeCancelled cancelled)

end NeuroWealth.Vault
