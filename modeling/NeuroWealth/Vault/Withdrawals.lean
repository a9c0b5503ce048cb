import NeuroWealth.Vault.Deposits
import NeuroWealth.Vault.Venues

/-!
# Withdrawing

`withdraw`, `withdraw_all` and `emergency_withdraw`. When the idle balance does not cover a
request they pull from the active protocol and settle for what arrived.
-/

namespace NeuroWealth.Vault

open Transaction MachineInt

/-! ## Checks of `withdraw` -/

/-- The minimum holding period since the user's latest deposit has passed. -/
def requireHoldingPeriodElapsed (user : Address) : Contract Unit := do
  let w ← get
  match w.holding.lastDepositLedger user with
  | some last =>
    Tx.require
      (¬ (0 < w.holding.minHoldingPeriod ∧ w.chain.sequence - last < w.holding.minHoldingPeriod))
      .holdingPeriodNotElapsed
  | none => pure ()

/-- The value of the unlocked shares, which bounds what a user with a lock may withdraw. -/
def maxWithdrawable (unlockedShares : Int) : Contract Int := do
  let totalShares ← getTotalSharesInternal
  let totalAssets ← getTotalAssetsInternal
  if 0 < totalShares ∧ 0 < totalAssets then convertToAssetsInternal unlockedShares else pure 0

def requireWithinUnlocked (user : Address) (amount : Int) : Contract Unit := do
  let w ← get
  let lockedShares := w.locks.lockedShares user
  if 0 < lockedShares then do
    let unlockedShares ← nativeSub (w.book.shares user) lockedShares
    let limit ← maxWithdrawable unlockedShares
    Tx.require (amount ≤ limit) .insufficientShares
  else pure ()

/-! ## Liquidity -/

/-- Pulls the missing part of `amount` from the active protocol and returns what the vault then
    holds. -/
def pullMissing (protocol : Protocol) (token : Address) (amount balance : Int) :
    Contract Int := do
  let needed ← checkedSub amount balance "vault: withdrawal underflow"
  let _ ← withdrawAmountFromProtocol protocol needed 0
  vaultBalance token

/-- How much of `amount` `withdraw` can pay after pulling from the active protocol. -/
def availableForWithdraw (token : Address) (amount : Int) : Contract Int := do
  let w ← get
  let protocol := w.deployment.currentProtocol
  if protocol.isActive = true then do
    let balance ← vaultBalance token
    if balance < amount then do
      let available ← pullMissing protocol token amount balance
      pure (min amount available)
    else pure amount
  else pure amount

/-! ## Burning shares -/

/-- Burns the shares worth `actualToReturn`, rounded up, and pays their value, rounded down.
    Returns both. -/
def redeem (user token : Address) (actualToReturn : Int) : Contract (Int × Int) := do
  let w ← get
  let userShares := w.book.shares user
  Tx.require (0 < userShares) .insufficientShares
  let totalShares ← getTotalSharesInternal
  let totalAssets ← getTotalAssetsInternal
  Tx.require (0 < totalShares ∧ 0 < totalAssets) .noAssetsToWithdraw
  let sharesToBurn ← convertToSharesInternalCeil actualToReturn
  Tx.require (0 < sharesToBurn) .sharesToBurnMustBePositive
  Tx.require (sharesToBurn ≤ userShares) .insufficientSharesForAmount
  let usdcToReturn ← convertToAssetsInternal sharesToBurn
  let newUserShares ← checkedSub userShares sharesToBurn "vault: withdrawal underflow"
  setUserShares user newUserShares
  let newTotalShares ← checkedSub totalShares sharesToBurn "vault: withdrawal underflow"
  setTotalShares newTotalShares
  let newTotalAssets ← checkedSub totalAssets usdcToReturn "vault: withdrawal underflow"
  setTotalAssets newTotalAssets
  reduceTotalDepositsOnWithdraw usdcToReturn
  transfer token w.self user usdcToReturn
  pure (usdcToReturn, sharesToBurn)

def withdraw (user : Address) (amount : Int) : Contract Unit := do
  requireInitialized
  requireAuth user
  requireNotPaused
  requirePositiveAmount amount
  enforceUserRateLimit user .withdraw
  requireHoldingPeriodElapsed user
  requireWithinUnlocked user amount
  let usdcToken ← getUsdcToken
  let actualToReturn ← availableForWithdraw usdcToken amount
  Tx.require (0 < actualToReturn) .insufficientLiquidity
  let paid ← redeem user usdcToken actualToReturn
  publish (.withdraw user paid.1 paid.2)

/-! ## `withdraw_all` -/

/-- The shares `withdraw_all` redeems: those not locked. -/
def sharesToWithdrawAll (userShares lockedShares : Int) : Contract Int :=
  if 0 < lockedShares then do
    let unlockedShares ← nativeSub userShares lockedShares
    Tx.require (unlockedShares ≠ 0) .insufficientShares
    pure unlockedShares
  else pure userShares

/-- What is paid and burned for an entitlement: all of it, or what the vault holds after the pull
    and the shares that buys, rounded up. -/
def settleAfterPull (entitledAmount sharesToWithdraw availableUsdc : Int) :
    Contract (Int × Int) :=
  if availableUsdc < entitledAmount then do
    Tx.require (0 < availableUsdc) .noLiquidityAvailable
    let sharesToBurn ← convertToSharesInternalCeil availableUsdc
    pure (availableUsdc, sharesToBurn)
  else pure (entitledAmount, sharesToWithdraw)

def settleWithdrawAll (token : Address) (entitledAmount sharesToWithdraw : Int) :
    Contract (Int × Int) := do
  let w ← get
  let protocol := w.deployment.currentProtocol
  if protocol.isActive = true then do
    let balance ← vaultBalance token
    if balance < entitledAmount then do
      let availableUsdc ← pullMissing protocol token entitledAmount balance
      settleAfterPull entitledAmount sharesToWithdraw availableUsdc
    else pure (entitledAmount, sharesToWithdraw)
  else pure (entitledAmount, sharesToWithdraw)

/-- Removes burned shares and the paid amount from the book, with the totals read before the
    pull, and pays. -/
def payOut (user token : Address) (userShares totalShares totalAssets usdcToReturn
    sharesToBurn : Int) : Contract Unit := do
  let newUserShares ← checkedSub userShares sharesToBurn "vault: withdrawal underflow"
  setUserShares user newUserShares
  let newTotalShares ← checkedSub totalShares sharesToBurn "vault: withdrawal underflow"
  setTotalShares newTotalShares
  let newTotalAssets ← checkedSub totalAssets usdcToReturn "vault: withdrawal underflow"
  setTotalAssets newTotalAssets
  reduceTotalDepositsOnWithdraw usdcToReturn
  let w ← get
  transfer token w.self user usdcToReturn

def withdrawAll (user : Address) : Contract Int := do
  requireInitialized
  requireAuth user
  requireNotPaused
  enforceUserRateLimit user .withdraw
  let w ← get
  let userShares := w.book.shares user
  let sharesToWithdraw ← sharesToWithdrawAll userShares (w.locks.lockedShares user)
  let usdcToken ← getUsdcToken
  Tx.require (0 < sharesToWithdraw) .noSharesToWithdraw
  let totalShares ← getTotalSharesInternal
  let totalAssets ← getTotalAssetsInternal
  Tx.require (0 < totalShares ∧ 0 < totalAssets) .noAssetsToWithdraw
  let entitledAmount ← convertToAssetsInternal sharesToWithdraw
  let paid ← settleWithdrawAll usdcToken entitledAmount sharesToWithdraw
  Tx.require (0 < paid.1) .noAssetsToReturn
  Tx.require (0 < paid.2) .noSharesToBurn
  payOut user usdcToken userShares totalShares totalAssets paid.1 paid.2
  publish (.withdraw user paid.1 paid.2)
  pure paid.1

/-! ## `emergency_withdraw` -/

/-- What the paused vault can pay of `amount`, and whether the idle balance covered it. -/
def availableForEmergency (token : Address) (amount : Int) : Contract (Int × Bool) := do
  let w ← get
  let protocol := w.deployment.currentProtocol
  let balance ← vaultBalance token
  if balance < amount then
    if protocol.isActive = true then do
      let available ← pullMissing protocol token amount balance
      pure (min amount available, false)
    else pure (balance, false)
  else pure (amount, true)

def emergencyWithdraw (user : Address) (amount : Int) : Contract Unit := do
  requireInitialized
  requireAuth user
  let w ← get
  Tx.require (w.breaker.paused = true) .emergencyWithdrawalNotAllowed
  requirePositiveAmount amount
  let usdcToken ← getUsdcToken
  let available ← availableForEmergency usdcToken amount
  Tx.require (0 < available.1) .insufficientLiquidity
  let paid ← redeem user usdcToken available.1
  publish (.emergencyWithdrawal user paid.1 paid.2 available.2)

end NeuroWealth.Vault
