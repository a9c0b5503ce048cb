import NeuroWealth.Foundation.Runs
import NeuroWealth.Vault.MultiAsset
import NeuroWealth.Vault.Exits
import NeuroWealth.Vault.Rebalancing
import NeuroWealth.Vault.Reporting
import NeuroWealth.Vault.Administration

/-!
# The vault as a state machine

Every state-changing entrypoint is a `Call`. A step is an attempted call or a change of the chain
around the vault; a call that fails leaves no trace.
-/

namespace NeuroWealth.Vault

open Transaction

inductive Call where
  | initializeVault (deployer owner agent usdcToken : Address) (salt : Nat)
  | deposit (user : Address) (amount : Int)
  | batchDeposit (agent : Address) (entries : List BatchDepositItem)
  | withdraw (user : Address) (amount : Int)
  | withdrawAll (user : Address)
  | depositAsset (user : Address) (asset : Symbol) (amount : Int)
  | withdrawAsset (user : Address) (asset : Symbol) (amount : Int)
  | migrateShares (user : Address)
  | lockShares (user : Address) (shares : Int) (lockDurationDays : Nat)
  | unlockShares (user : Address)
  | emergencyWithdraw (user : Address) (amount : Int)
  | rebalance (protocol : Protocol) (expectedApy minOut : Int)
  | enableMultiProtocol (enabled : Bool)
  | rebalanceMulti (blendBps dexBps : Nat) (minOut : Int)
  | harvest (minOut : Int)
  | emergencyHarvest (minOut : Int)
  | updateTotalAssets (agent : Address) (newTotal : Int) (allowDecrease : Bool)
      (maxDecreaseBps : Nat)
  | setVenuePool (venue : Venue) (owner poolAddress : Address)
  | setProtocolApy (protocol : Protocol) (apyBps : Nat)
  | submitMevReport (protocol : Protocol) (estimatedLossStroops minOutUsed : Int)
  | setMaxAcceptableMevLoss (maxLossStroops : Int)
  | submitApyPrediction (prediction : ApyPrediction)
  | pause (owner : Address)
  | unpause (owner : Address)
  | emergencyPause (owner : Address)
  | resetCircuitBreaker (owner : Address)
  | setMigrationTarget (target : Address)
  | setMigrationPaused (paused : Bool)
  | setTvlCap (cap : Int)
  | setUserDepositCap (cap : Int)
  | setCaps (userDepositCap tvlCap : Int)
  | setLimits (min max : Int)
  | setDepositLimits (min max : Int)
  | setRebalanceCooldown (interval : Nat)
  | setRateLimit (category : RateLimitCategory) (maxCalls windowLedgers : Nat)
  | setMaxBatchSize (maxEntries : Nat)
  | setMinHoldingPeriod (ledgers : Nat)
  | setMaxConsecutiveFailures (threshold : Nat)
  | setApprovalTtl (ttl : Nat)
  | setBlendApprovalTtl (owner : Address) (ttl : Nat)
  | setUserStrategy (user : Address) (strategy : Strategy)
  | touchUserTtl (user : Address)
  | batchTouchTtl (users : List Address)
  | previewDepositToShares (assets : Int)
  | previewSharesToAssets (shares : Int)
  | previewWithdraw (assets : Int)
  | convertToShares (assets : Int)
  | convertToAssets (shares : Int)
  | updateAgent (newAgent : Address)
  | confirmAgentUpdate
  | cancelAgentUpdate
  | updateStandbyAgent (newStandby : Address)
  | switchToStandbyAgent
  | setGuardian (newGuardian : Address)
  | removeGuardian
  | addSupportedAsset (asset : Symbol) (tokenAddress : Address)
      (minDeposit depositLimit tvlCap : Int)
  | updateAssetLimits (asset : Symbol) (minDeposit depositLimit tvlCap : Int)
  | removeSupportedAsset (asset : Symbol)
  | transferOwnership (newOwner : Address)
  | acceptOwnership (newOwner : Address)
  | cancelOwnershipTransfer
  | scheduleUpgrade (owner : Address) (newWasmHash : Nat)
  | executeUpgrade (owner : Address)
  | cancelUpgrade (owner : Address)

/-- A value-returning entrypoint, for its effect. -/
def discard {α : Type} (x : Contract α) : Contract Unit := do
  let _ ← x

/-- The entrypoint a call runs. -/
def Call.run : Call → Contract Unit
  | .initializeVault deployer owner agent usdcToken salt =>
    Vault.initializeVault deployer owner agent usdcToken salt
  | .deposit user amount => Vault.deposit user amount
  | .batchDeposit agent entries => Vault.batchDeposit agent entries
  | .withdraw user amount => Vault.withdraw user amount
  | .withdrawAll user => discard (Vault.withdrawAll user)
  | .depositAsset user asset amount => Vault.depositAsset user asset amount
  | .withdrawAsset user asset amount => Vault.withdrawAsset user asset amount
  | .migrateShares user => Vault.migrateShares user
  | .lockShares user shares days => Vault.lockShares user shares days
  | .unlockShares user => Vault.unlockShares user
  | .emergencyWithdraw user amount => Vault.emergencyWithdraw user amount
  | .rebalance protocol expectedApy minOut => Vault.rebalance protocol expectedApy minOut
  | .enableMultiProtocol enabled => Vault.enableMultiProtocol enabled
  | .rebalanceMulti blendBps dexBps minOut => Vault.rebalanceMulti blendBps dexBps minOut
  | .harvest minOut => Vault.harvest minOut
  | .emergencyHarvest minOut => Vault.emergencyHarvest minOut
  | .updateTotalAssets agent newTotal allowDecrease bps =>
    Vault.updateTotalAssets agent newTotal allowDecrease bps
  | .setVenuePool venue owner poolAddress => Vault.setVenuePool venue owner poolAddress
  | .setProtocolApy protocol apyBps => Vault.setProtocolApy protocol apyBps
  | .submitMevReport protocol loss minOutUsed => Vault.submitMevReport protocol loss minOutUsed
  | .setMaxAcceptableMevLoss maxLoss => Vault.setMaxAcceptableMevLoss maxLoss
  | .submitApyPrediction prediction => Vault.submitApyPrediction prediction
  | .pause owner => Vault.pause owner
  | .unpause owner => Vault.unpause owner
  | .emergencyPause owner => Vault.emergencyPause owner
  | .resetCircuitBreaker owner => Vault.resetCircuitBreaker owner
  | .setMigrationTarget target => Vault.setMigrationTarget target
  | .setMigrationPaused paused => Vault.setMigrationPaused paused
  | .setTvlCap cap => Vault.setTvlCap cap
  | .setUserDepositCap cap => Vault.setUserDepositCap cap
  | .setCaps userDepositCap tvlCap => Vault.setCaps userDepositCap tvlCap
  | .setLimits min max => Vault.setLimits min max
  | .setDepositLimits min max => Vault.setDepositLimits min max
  | .setRebalanceCooldown interval => Vault.setRebalanceCooldown interval
  | .setRateLimit category maxCalls windowLedgers =>
    Vault.setRateLimit category maxCalls windowLedgers
  | .setMaxBatchSize maxEntries => Vault.setMaxBatchSize maxEntries
  | .setMinHoldingPeriod ledgers => Vault.setMinHoldingPeriod ledgers
  | .setMaxConsecutiveFailures threshold => Vault.setMaxConsecutiveFailures threshold
  | .setApprovalTtl ttl => Vault.setApprovalTtl ttl
  | .setBlendApprovalTtl owner ttl => Vault.setBlendApprovalTtl owner ttl
  | .setUserStrategy user strategy => Vault.setUserStrategy user strategy
  | .touchUserTtl user => Vault.touchUserTtl user
  | .batchTouchTtl users => Vault.batchTouchTtl users
  | .previewDepositToShares assets => discard (Vault.previewDepositToShares assets)
  | .previewSharesToAssets shares => discard (Vault.previewSharesToAssets shares)
  | .previewWithdraw assets => discard (Vault.previewWithdraw assets)
  | .convertToShares assets => discard (Vault.convertToShares assets)
  | .convertToAssets shares => discard (Vault.convertToAssets shares)
  | .updateAgent newAgent => Vault.updateAgent newAgent
  | .confirmAgentUpdate => Vault.confirmAgentUpdate
  | .cancelAgentUpdate => Vault.cancelAgentUpdate
  | .updateStandbyAgent newStandby => Vault.updateStandbyAgent newStandby
  | .switchToStandbyAgent => Vault.switchToStandbyAgent
  | .setGuardian newGuardian => Vault.setGuardian newGuardian
  | .removeGuardian => Vault.removeGuardian
  | .addSupportedAsset asset token minDeposit depositLimit tvlCap =>
    Vault.addSupportedAsset asset token minDeposit depositLimit tvlCap
  | .updateAssetLimits asset minDeposit depositLimit tvlCap =>
    Vault.updateAssetLimits asset minDeposit depositLimit tvlCap
  | .removeSupportedAsset asset => Vault.removeSupportedAsset asset
  | .transferOwnership newOwner => Vault.transferOwnership newOwner
  | .acceptOwnership newOwner => Vault.acceptOwnership newOwner
  | .cancelOwnershipTransfer => Vault.cancelOwnershipTransfer
  | .scheduleUpgrade owner newWasmHash => Vault.scheduleUpgrade owner newWasmHash
  | .executeUpgrade owner => Vault.executeUpgrade owner
  | .cancelUpgrade owner => Vault.cancelUpgrade owner

/-- The state a call starts from: no events and no pool calls of its own yet. -/
def World.entered (w : World) : World := { w with legs := 0, events := [] }

def invoke (call : Call) : Contract Unit := do
  modify World.entered
  call.run

/-- A call attempted in an environment, or a change of the chain around the vault. -/
inductive Step where
  | call (env : Env) (call : Call)
  | ambient (chain : Chain)

/-- The state after a step. -/
def World.after (w : World) : Step → World
  | .call env call => (invoke call).commit env w
  | .ambient chain => { w with chain := chain }

/-- The state after a sequence of steps. -/
def World.replay (w : World) (steps : List Step) : World := steps.foldl World.after w

/-- A deployed vault before `initialize`, with nothing stored. -/
structure World.Blank (w : World) : Prop where
  usdcToken : w.usdcToken = none
  book : w.book = {}
  assets : w.assets = {}
  locks : w.locks = {}
  holding : w.holding = {}
  deployment : w.deployment = {}
  roles : w.roles = {}
  limits : w.limits = {}
  buckets : w.buckets = {}
  breaker : w.breaker = {}
  migration : w.migration = {}
  profiles : w.profiles = {}
  reports : w.reports = {}

/-- A run of the machine whose steps all satisfy `admissible`, which may look at the state a step
    is taken in. -/
def Reaches (admissible : World → Step → Prop) : World → World → Prop :=
  Runs.Reaches World.after admissible

/-- Steps that are admissible one after the other. -/
def Admits (admissible : World → Step → Prop) : World → List Step → Prop :=
  Runs.Admits World.after admissible

/-- A vault right after its `initialize`. -/
def World.Opened (w : World) : Prop :=
  ∃ env blank deployer owner agent usdcToken salt, World.Blank blank ∧
    (invoke (.initializeVault deployer owner agent usdcToken salt)).Ok env blank () w

/-! ## A vault to try runs on -/

namespace Sample

def vault : Address := ⟨1⟩

def owner : Address := ⟨2⟩

def agent : Address := ⟨3⟩

def usdc : Address := ⟨4⟩

def alice : Address := ⟨5⟩

def bob : Address := ⟨6⟩

def blendPool : Address := ⟨7⟩

/-- Everybody signs, and the pools move what they are asked to. -/
def honest : Env where
  auths := [owner, agent, alice, bob]
  pool c := match c.kind with
    | .supply => some ⟨c.amount, c.position + c.amount⟩
    | .withdraw => some ⟨c.amount, c.position - c.amount⟩
  deployedAddress _ _ := vault

def blank : World where
  self := vault
  chain := { sequence := 1000, balances := fun _ h => if h = vault then 0 else 10000000000 }

/-- A freshly initialised vault in a world of rich holders. -/
def opened : World := blank.after (.call honest (.initializeVault owner owner agent usdc 0))

theorem opened_opened : opened.Opened := by
  refine ⟨honest, blank, owner, owner, agent, usdc, 0, ?_, rfl⟩
  constructor <;> rfl

end Sample

end NeuroWealth.Vault
