import NeuroWealth.Vault.Host

/-!
# Guards, rate limits and conversions

The internal checks every entrypoint shares, and the exchange-rate arithmetic.
-/

namespace NeuroWealth.Vault

open Transaction MachineInt

/-! ## State and caller checks -/

/-- The initialised vault has its agent, token and owner. -/
def World.Initialized (w : World) : Prop :=
  w.roles.agent.isSome ∧ w.usdcToken.isSome ∧ w.roles.owner.isSome

instance (w : World) : Decidable w.Initialized :=
  inferInstanceAs (Decidable (_ ∧ _ ∧ _))

def requireInitialized : Contract Unit := do
  let w ← get
  Tx.require w.Initialized .notInitialized

def requireNotPaused : Contract Unit := do
  let w ← get
  Tx.require (w.breaker.paused = false) .paused

def requireIsOwner : Contract Unit := do
  requireInitialized
  let owner ← getOwnerInternal
  requireAuth owner

/-- The owner passed as an argument has signed and is the stored one. -/
def requireOwnerArg (owner : Address) (e : VaultError) : Contract Unit := do
  requireAuth owner
  let storedOwner ← getOwnerInternal
  Tx.require (owner = storedOwner) e

/-- Either agent key has signed. -/
def requireIsAgent : Contract Unit := do
  requireInitialized
  let agent ← getAgentInternal
  let env ← read
  let w ← get
  let agentOk := agent ∈ env.auths
  let standbyOk := w.roles.standbyAgent.any fun s => decide (s ∈ env.auths)
  if agentOk ∨ standbyOk = true then pure ()
  else requireAuth agent

def requirePositiveAmount (amount : Int) : Contract Unit :=
  Tx.require (0 < amount) .amountMustBePositive

def requireMinimumDeposit (amount : Int) : Contract Unit := do
  let w ← get
  Tx.require (w.limits.minDeposit ≤ amount) .belowMinimumDeposit

def requireMaximumDeposit (amount : Int) : Contract Unit := do
  let w ← get
  Tx.require (amount ≤ w.limits.maxDeposit) .maximumDepositExceeded

/-- A positive `minOut` is a floor for what a leg moved. -/
def requireMinOut (actual minOut : Int) : Contract Unit :=
  Tx.require (¬ (0 < minOut ∧ actual < minOut)) .minOutNotMet

/-- Saturating `u32` addition. -/
def saturatingAddU32 (a b : Nat) : Nat := min (a + b) 4294967295

/-- The cooldown between calls that move funds through the pools. -/
def requireCooldownElapsed : Contract Unit := do
  let w ← get
  match w.limits.minRebalanceInterval, w.limits.lastRebalanceLedger with
  | some minInterval, some lastRebalance =>
    Tx.require (¬ (0 < minInterval ∧ w.chain.sequence - lastRebalance < minInterval))
      .rebalanceCooldownActive
  | _, _ => pure ()

/-! ## Rate limits -/

def RateLimitCategory.isValid : RateLimitCategory → Bool
  | .unknown _ => false
  | _ => true

def defaultRateLimitConfig : RateLimitCategory → RateLimitConfig
  | .deposit => ⟨100, 720⟩
  | .withdraw => ⟨100, 720⟩
  | .rebalance => ⟨100, 720⟩
  | .touchTtl => ⟨5, 1⟩
  | .preview => ⟨1000, 1⟩
  | _ => ⟨100, 720⟩

def requireValidRateLimitCategory (category : RateLimitCategory) : Contract Unit :=
  Tx.require (category.isValid = true) .invalidRateLimitCategory

def getRateLimitConfigInternal (category : RateLimitCategory) : Contract RateLimitConfig := do
  requireValidRateLimitCategory category
  let w ← get
  pure ((w.limits.rateLimitConfig category).getD (defaultRateLimitConfig category))

/-- The window a call at `ledger` falls into: the stored one while it lasts, else a fresh one. -/
def currentWindow (config : RateLimitConfig) (ledger : Nat) :
    Option RateLimitState → RateLimitState
  | some state =>
    if ledger - state.windowStart < config.windowLedgers then state else ⟨ledger, 0⟩
  | none => ⟨ledger, 0⟩

def Buckets.set (b : Buckets) (user : Option Address) (category : RateLimitCategory)
    (state : Option RateLimitState) : Buckets where
  state u c := if u = user ∧ c = category then state else b.state u c

/-- Consume one call of a bucket, or fail if it is used up. A category with no allowed calls is
    not limited. -/
def enforceRateLimit (category : RateLimitCategory) (user : Option Address) : Contract Unit := do
  let config ← getRateLimitConfigInternal category
  let w ← get
  let state := currentWindow config w.chain.sequence (w.buckets.state user category)
  if config.maxCalls = 0 then pure ()
  else do
    Tx.require (state.calls < config.maxCalls) .rateLimitExceeded
    modify fun w =>
      { w with
        buckets := w.buckets.set user category
          (some { state with calls := saturatingAddU32 state.calls 1 }) }

/-- The bucket as the read-only view shows it: a never-used one starts at ledger zero. -/
def viewedWindow (config : RateLimitConfig) (ledger : Nat) :
    Option RateLimitState → RateLimitState
  | some state =>
    if ledger - state.windowStart < config.windowLedgers then state else ⟨ledger, 0⟩
  | none => ⟨0, 0⟩

/-- Reads a bucket without writing it. -/
def readRateLimitState (category : RateLimitCategory) (user : Option Address) :
    Contract RateLimitState := do
  let config ← getRateLimitConfigInternal category
  let w ← get
  if config.maxCalls = 0 then pure ⟨0, 0⟩
  else pure (viewedWindow config w.chain.sequence (w.buckets.state user category))

def enforceUserRateLimit (user : Address) (category : RateLimitCategory) : Contract Unit :=
  enforceRateLimit category (some user)

def enforceGlobalRateLimit (category : RateLimitCategory) : Contract Unit :=
  enforceRateLimit category none

def requireBatchSize (entries : Nat) : Contract Unit := do
  let w ← get
  Tx.require (w.limits.maxBatchSize = 0 ∨ entries ≤ w.limits.maxBatchSize) .batchSizeExceeded

/-! ## Arithmetic that panics -/

def checkedAdd (x y : Int) (message : String) : Contract Int :=
  Tx.expect (.panic message) (i128.checkedAdd x y)

def checkedSub (x y : Int) (message : String) : Contract Int :=
  Tx.expect (.panic message) (i128.checkedSub x y)

def checkedMul (x y : Int) (message : String) : Contract Int :=
  Tx.expect (.panic message) (i128.checkedMul x y)

def checkedDiv (x y : Int) (message : String) : Contract Int :=
  Tx.expect (.panic message) (i128.checkedDiv x y)

/-- Native `+` and `-` abort on overflow. -/
def nativeSub (x y : Int) : Contract Int := checkedSub x y "attempt to subtract with overflow"

def nativeMul (x y : Int) : Contract Int := checkedMul x y "attempt to multiply with overflow"

/-! ## Totals and conversions -/

/-- `TotalAssets`, or `TotalDeposits` while it was never stored. -/
def Book.assets (b : Book) : Int := b.totalAssets.getD b.totalDeposits

def getTotalSharesInternal : Contract Int := do
  let w ← get
  pure w.book.totalShares

def getTotalAssetsInternal : Contract Int := do
  let w ← get
  pure w.book.assets

def readShares (user : Address) : Contract Int := do
  let w ← get
  pure (w.book.shares user)

/-- Panic texts of one copy of the conversion arithmetic. -/
structure ConversionTexts where
  mul : String
  sub : String := ""
  add : String := ""
  div : String

/-- `x * numerator / denominator`, rounded down. -/
def mulDivDown (texts : ConversionTexts) (x numerator denominator : Int) : Contract Int := do
  let product ← checkedMul x numerator texts.mul
  checkedDiv product denominator texts.div

/-- `x * numerator / denominator`, rounded up: `(a + b - 1) / b`. -/
def mulDivUp (texts : ConversionTexts) (x numerator denominator : Int) : Contract Int := do
  let product ← checkedMul x numerator texts.mul
  let round ← checkedSub denominator 1 texts.sub
  let sum ← checkedAdd product round texts.add
  checkedDiv sum denominator texts.div

/-- A share price: the totals one conversion works with. -/
def convertToSharesAt (texts : ConversionTexts) (totalShares totalAssets assets : Int) :
    Contract Int :=
  if assets = 0 then pure 0
  else if totalShares = 0 ∨ totalAssets = 0 then pure assets
  else mulDivDown texts assets totalShares totalAssets

def convertToSharesCeilAt (texts : ConversionTexts) (totalShares totalAssets assets : Int) :
    Contract Int :=
  if assets = 0 then pure 0
  else if totalShares = 0 ∨ totalAssets = 0 then pure assets
  else mulDivUp texts assets totalShares totalAssets

def convertToAssetsAt (texts : ConversionTexts) (totalShares totalAssets shares : Int) :
    Contract Int :=
  if shares = 0 then pure 0
  else if totalShares = 0 ∨ totalAssets = 0 then pure 0
  else mulDivDown texts shares totalAssets totalShares

def convertToSharesInternal (assets : Int) : Contract Int := do
  let w ← get
  convertToSharesAt
    { mul := "vault: share conversion overflow", div := "vault: conversion div error" }
    w.book.totalShares w.book.assets assets

def convertToSharesInternalCeil (assets : Int) : Contract Int := do
  let w ← get
  convertToSharesCeilAt
    { mul := "vault: conversion mul overflow"
      sub := "vault: conversion sub underflow"
      add := "vault: conversion add overflow"
      div := "vault: conversion div error" }
    w.book.totalShares w.book.assets assets

def convertToAssetsInternal (shares : Int) : Contract Int := do
  let w ← get
  convertToAssetsAt
    { mul := "vault: share to asset conversion overflow", div := "vault: conversion div error" }
    w.book.totalShares w.book.assets shares

/-! ## Deposit caps -/

def requireWithinDepositCap (user : Address) (amount : Int) : Contract Unit := do
  let w ← get
  let cap := w.limits.userDepositCap
  if 0 < cap then do
    let userShares ← readShares user
    let userUsdc ← convertToAssetsInternal userShares
    let newUserUsdc ← checkedAdd userUsdc amount "vault: total available overflow"
    Tx.require (newUserUsdc ≤ cap) .exceedsUserDepositCap
  else pure ()

def requireWithinTvlCap (amount : Int) : Contract Unit := do
  let w ← get
  let cap := w.limits.tvlCap
  if 0 < cap then do
    let total ← getTotalAssetsInternal
    let newTotal ← checkedAdd total amount "vault: total available overflow"
    Tx.require (newTotal ≤ cap) .exceedsTvlCap
  else pure ()

/-! ## Bookkeeping shared by the withdrawal paths -/

/-- Principal left after `amount` is returned: the returned amount may include yield, so the
    subtraction stops at zero. -/
def Book.depositsAfterWithdraw (b : Book) (amount : Int) : Int :=
  max (i128.saturatingSub b.totalDeposits amount) 0

def reduceTotalDepositsOnWithdraw (amount : Int) : Contract Unit := do
  let w ← get
  putBook { w.book with totalDeposits := w.book.depositsAfterWithdraw amount }

/-- The active-share index lists each holder once and never forgets one. -/
def addToUserIndex (user : Address) : Contract Unit :=
  modifyProfiles fun p =>
    if user ∈ p.userSharesIndex then p
    else { p with userSharesIndex := p.userSharesIndex ++ [user] }

def setCurrentProtocol (newProtocol : Protocol) : Contract Unit := do
  let w ← get
  let oldProtocol := w.deployment.currentProtocol
  if oldProtocol = newProtocol then pure ()
  else do
    putDeployment { w.deployment with currentProtocol := newProtocol }
    publish (.protocolChanged oldProtocol newProtocol)

/-- Folds a rebalance outcome into the circuit breaker, pausing the vault at the threshold. -/
def recordRebalanceOutcome (status : Status) : Contract Unit := do
  let w ← get
  let failures := saturatingAddU32 w.breaker.consecutiveFailures 1
  match status with
  | .failed => do
    modifyBreaker fun b => { b with consecutiveFailures := failures }
    if w.breaker.maxConsecutiveFailures ≤ failures ∧ w.breaker.paused = false then do
      modifyBreaker fun b => { b with paused := true }
      let owner ← getOwnerInternal
      publish (.emergencyPaused owner)
    else pure ()
  | .success => modifyBreaker fun b => { b with consecutiveFailures := 0 }
  | _ => pure ()

end NeuroWealth.Vault
