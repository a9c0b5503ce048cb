import NeuroWealth.Foundation.MachineInt

/-!
# Data types of the vault contract
-/

namespace NeuroWealth.Vault

/-- An account or contract address. -/
structure Address where
  id : Nat
deriving DecidableEq, Repr

/-- The ed25519 key whose payload is all zeros, which nobody can sign for. -/
def Address.zero : Address := ⟨0⟩

/-- A ledger symbol; only equality of symbols matters to the contract. -/
structure Symbol where
  code : Nat
deriving DecidableEq, Repr

/-- The protocol symbols. `other` stands for every symbol the contract does not know. -/
inductive Protocol where
  | none
  | blend
  | dex
  | multi
  | other (symbol : Symbol)
deriving DecidableEq, Repr

/-- The two kinds of external pool. -/
inductive Venue where
  | blend
  | dex
deriving DecidableEq, Repr

/-- The protocol symbol that names a venue. -/
def Venue.protocol : Venue → Protocol
  | .blend => .blend
  | .dex => .dex

/-- Rate-limit categories. -/
inductive RateLimitCategory where
  | deposit
  | withdraw
  | rebalance
  | touchTtl
  | preview
  | batchDeposit
  | unknown (symbol : Symbol)
deriving DecidableEq, Repr

/-- Per-user strategy preferences; `empty` is the empty symbol. -/
inductive Strategy where
  | conservative
  | balanced
  | growth
  | empty
  | other (symbol : Symbol)
deriving DecidableEq, Repr

/-- Outcome symbols of a rebalance. -/
inductive Status where
  | success
  | partially
  | noop
  | failed
deriving DecidableEq, Repr

/-- Contract errors; `panic` carries the text of a failed `expect` or an arithmetic trap and
    `host` stands for a failure outside the contract's own checks (authorisation, token, callee). -/
inductive VaultError where
  | alreadyInitialized
  | unauthorizedDeployer
  | sharesToMintMustBePositive
  | insufficientLiquidity
  | insufficientShares
  | noAssetsToWithdraw
  | sharesToBurnMustBePositive
  | insufficientSharesForAmount
  | noSharesToWithdraw
  | noLiquidityAvailable
  | noAssetsToReturn
  | noSharesToBurn
  | minOutMustBeNonNegative
  | unsupportedProtocol
  | blendPoolNotConfigured
  | onlyOwnerCanPause
  | onlyOwnerCanUnpause
  | notPaused
  | onlyOwnerCanEmergencyPause
  | tvlCapCannotBeNegative
  | userDepositCapCannotBeNegative
  | tvlCapBelowUserDepositCap
  | onlyOwnerCanConfigurePool
  | callerIsNotPendingOwner
  | onlyAgentCanUpdateTotalAssets
  | totalAssetsDecreaseNotAllowed
  | decreaseExceedsMaximumAllowedBps
  | insufficientBalanceForAssets
  | callerIsNotOwner
  | paused
  | notInitialized
  | amountMustBePositive
  | belowMinimumDeposit
  | maximumDepositExceeded
  | exceedsUserDepositCap
  | exceedsTvlCap
  | minOutNotMet
  | rebalanceCooldownActive
  | approvalTtlTooLow
  | approvalTtlTooHigh
  | dexPoolNotConfigured
  | invalidStrategy
  | timelockAlreadyPending
  | noTimelockPending
  | timelockNotExpired
  | maximumDepositExceedsCeiling
  | migrationPaused
  | invalidMigrationTarget
  | noSharesToMigrate
  | sharesAlreadyLocked
  | lockPeriodNotEnded
  | invalidLockDuration
  | insufficientUnlockedShares
  | emergencyWithdrawalNotAllowed
  | holdingPeriodNotElapsed
  | invalidHoldingPeriod
  | invalidAllocation
  | multiProtocolNotEnabled
  | multiProtocolEnabledError
  | rateLimitExceeded
  | invalidRateLimitCategory
  | invalidRateLimitConfig
  | batchSizeExceeded
  | panic (message : String)
  | host (message : String)
deriving Repr

/-- Owner-configured allowance for one rate-limit category. -/
structure RateLimitConfig where
  maxCalls : Nat
  windowLedgers : Nat
deriving DecidableEq, Repr

/-- Usage of a rate-limit bucket. -/
structure RateLimitState where
  windowStart : Nat
  calls : Nat
deriving DecidableEq, Repr

/-- First-deposit snapshot used to compute a user's realized APY. -/
structure DepositSnapshot where
  shares : Int
  principal : Int
  depositedAt : Nat
deriving DecidableEq, Repr

/-- Configuration of one supported deposit asset; a zero limit is disabled. -/
structure AssetConfig where
  tokenAddress : Address
  minDeposit : Int
  depositLimit : Int
  tvlCap : Int
deriving DecidableEq, Repr

/-- Accounting totals of one asset's share pool. -/
structure AssetTotals where
  assets : Int := 0
  shares : Int := 0
  deposits : Int := 0
deriving DecidableEq, Repr

/-- One entry of a batched deposit. -/
structure BatchDepositItem where
  user : Address
  amount : Int
deriving DecidableEq, Repr

/-- An APY prediction submitted by the agent. -/
structure ApyPrediction where
  protocol : Protocol
  predictedApyBps : Int
  apy1hBps : Int
  apy6hBps : Int
  apy24hBps : Int
  confidenceBps : Nat
  submittedAtLedger : Nat
deriving DecidableEq, Repr

end NeuroWealth.Vault
