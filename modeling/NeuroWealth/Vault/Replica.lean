import NeuroWealth.Foundation.Recording
import NeuroWealth.Vault.Machine

/-!
# What an indexer knows

An indexer follows the vault through its events alone. `Replica` is what it keeps, `Replica.apply`
how one event changes it, and `World.replica` the part of the storage it is meant to equal.
-/

namespace NeuroWealth.Vault

open Transaction MachineInt Recording

/-- An indexer's copy of the vault. The deployer and the ledger of the latest rebalance are not
    among the published data, and the asset registry is known by name only. -/
structure Replica where
  usdcToken : Option Address := none
  shares : Address → Int := fun _ => 0
  totalShares : Int := 0
  totalAssets : Int := 0
  totalDeposits : Int := 0
  assetShares : Address → Symbol → Int := fun _ _ => 0
  assetTotals : Symbol → AssetTotals := fun _ => {}
  supported : List Symbol := []
  locks : Locks := {}
  roles : Roles := {}
  limits : Limits := {}
  breaker : Breaker := {}
  migration : Migration := {}
  currentProtocol : Protocol := .none
  pool : Venue → Option Address := fun _ => none
  multiProtocolEnabled : Bool := false
  allocationBps : Venue → Nat := fun _ => 0
  userStrategy : Address → Option Strategy := fun _ => none
  apyBps : Venue → Nat := fun _ => 0
  cumulativeMevLoss : Int := 0
  mevIncidentCount : Nat := 0

namespace Replica

variable (r : Replica)

/-- What every vault starts with, besides empty books. -/
def opened (owner agent usdcToken : Address) (tvlCap : Int) : Replica :=
  { r with
    usdcToken := some usdcToken
    roles := { r.roles with agent := some agent, owner := some owner, version := 1 }
    breaker := { r.breaker with paused := false, maxConsecutiveFailures := 3 }
    limits := { r.limits with
      tvlCap := tvlCap
      userDepositCap := 10000000000
      minDeposit := 1000000
      maxDeposit := 10000000000
      blendApprovalTtl := some 100000
      maxBatchSize := 50
      rateLimitConfig := fun c =>
        (rateLimitDefaults c).orElse fun _ => r.limits.rateLimitConfig c } }

/-- `shares` were minted for a user who paid `amount`. -/
def mint (user : Address) (amount shares : Int) : Replica :=
  { r with
    shares := fun u => if u = user then r.shares u + shares else r.shares u
    totalShares := r.totalShares + shares
    totalAssets := r.totalAssets + amount
    totalDeposits := r.totalDeposits + amount }

/-- `shares` of a user were burned for `amount`, leaving the principal `deposits`. -/
def burn (user : Address) (amount shares deposits : Int) : Replica :=
  { r with
    shares := fun u => if u = user then r.shares u - shares else r.shares u
    totalShares := r.totalShares - shares
    totalAssets := r.totalAssets - amount
    totalDeposits := deposits }

/-- The principal left after `amount` was returned; it stops at zero. -/
def depositsAfter (deposits amount : Int) : Int := max (i128.saturatingSub deposits amount) 0

def setAssetShares (user : Address) (asset : Symbol) (x : Int) : Address → Symbol → Int :=
  fun u s => if u = user ∧ s = asset then x else r.assetShares u s

def setAssetTotals (asset : Symbol) (t : AssetTotals) : Symbol → AssetTotals :=
  fun s => if s = asset then t else r.assetTotals s

/-- An asset pool and, with it, the global totals grow. -/
def mintAsset (user : Address) (asset : Symbol) (amount shares : Int) : Replica :=
  let t := r.assetTotals asset
  { r with
    assetShares := r.setAssetShares user asset (r.assetShares user asset + shares)
    assetTotals := r.setAssetTotals asset ⟨t.assets + amount, t.shares + shares, t.deposits + amount⟩
    totalAssets := i128.saturatingAdd r.totalAssets amount
    totalDeposits := i128.saturatingAdd r.totalDeposits amount }

/-- An asset pool and, with it, the global totals shrink. -/
def burnAsset (user : Address) (asset : Symbol) (amount shares : Int) : Replica :=
  let t := r.assetTotals asset
  { r with
    assetShares := r.setAssetShares user asset (r.assetShares user asset - shares)
    assetTotals := r.setAssetTotals asset
      ⟨t.assets - amount, t.shares - shares, depositsAfter t.deposits amount⟩
    totalAssets := max (i128.saturatingSub r.totalAssets amount) 0
    totalDeposits := depositsAfter r.totalDeposits amount }

/-- A completed rebalance: failures count up, a success starts over. -/
def outcome : Status → Replica
  | .failed =>
    { r with breaker := { r.breaker with
        consecutiveFailures := saturatingAddU32 r.breaker.consecutiveFailures 1 } }
  | .success => { r with breaker := { r.breaker with consecutiveFailures := 0 } }
  | _ => r

/-- An asset was registered or removed; a removed pool starts over. -/
def registry (asset : Symbol) (added : Bool) : Replica :=
  if added = true then
    { r with supported := if asset ∈ r.supported then r.supported else r.supported ++ [asset] }
  else
    { r with
      supported := r.supported.filter (· ≠ asset)
      assetTotals := r.setAssetTotals asset {} }

/-- The two venues' shares of an allocation. -/
def bps (blendBps dexBps : Nat) : Venue → Nat
  | .blend => blendBps
  | .dex => dexBps

/-- An APY report names the venue by its protocol. -/
def report (protocol : Protocol) (apyBps : Nat) : Replica :=
  match protocol with
  | .blend => { r with apyBps := fun v => if v = .blend then apyBps else r.apyBps v }
  | .dex => { r with apyBps := fun v => if v = .dex then apyBps else r.apyBps v }
  | _ => r

/-- What an event tells. Token operations, pool calls, harvests, yield attributions and summaries
    change nothing an indexer keeps. -/
def apply : Event → Replica
  | .initialized owner agent usdcToken tvlCap => r.opened owner agent usdcToken tvlCap
  | .deposit user amount shares => r.mint user amount shares
  | .withdraw user amount shares =>
    r.burn user amount shares (depositsAfter r.totalDeposits amount)
  | .emergencyWithdrawal user amount shares _ =>
    r.burn user amount shares (depositsAfter r.totalDeposits amount)
  | .sharesMigrated user _ _ sharesBurned assetsTransferred =>
    r.burn user assetsTransferred sharesBurned r.totalDeposits
  | .assetDeposit user asset amount shares => r.mintAsset user asset amount shares
  | .assetWithdraw user asset amount shares => r.burnAsset user asset amount shares
  | .supportedAssetsUpdated asset added _ _ => r.registry asset added
  | .assetsUpdated _ newTotal => { r with totalAssets := newTotal }
  | .sharesLocked user shares _ _ expiryLedger =>
    { r with locks := r.locks.set user shares (some expiryLedger) }
  | .sharesUnlocked user _ => { r with locks := r.locks.set user 0 none }
  | .migrationTargetUpdated _ newTarget _ =>
    { r with migration := { r.migration with target := some newTarget } }
  | .migrationPaused paused _ => { r with migration := { r.migration with paused := paused } }
  | .rebalance _ _ status _ _ _ _ => r.outcome status
  | .protocolChanged _ newProtocol => { r with currentProtocol := newProtocol }
  | .protocolAllocationChanged _ _ newBlendBps newDexBps _ _ =>
    { r with allocationBps := bps newBlendBps newDexBps }
  | .multiProtocolModeChanged enabled blendBps dexBps =>
    { r with multiProtocolEnabled := enabled, allocationBps := bps blendBps dexBps }
  | .protocolApyUpdated protocol apyBps => r.report protocol apyBps
  | .poolConfigured venue _ newPool _ =>
    { r with pool := fun v => if v = venue then some newPool else r.pool v }
  | .paused _ => { r with breaker := { r.breaker with paused := true } }
  | .emergencyPaused _ => { r with breaker := { r.breaker with paused := true } }
  | .unpaused _ => { r with breaker := { r.breaker with paused := false } }
  | .circuitBreakerReset _ =>
    { r with breaker := { r.breaker with consecutiveFailures := 0, paused := false } }
  | .maxConsecutiveFailuresUpdated _ newThreshold =>
    { r with breaker := { r.breaker with maxConsecutiveFailures := newThreshold } }
  | .tvlCapUpdated _ newCap _ => { r with limits := { r.limits with tvlCap := newCap } }
  | .userDepositCapUpdated _ newCap _ =>
    { r with limits := { r.limits with userDepositCap := newCap } }
  | .capsUpdated _ newUserCap _ newTvlCap =>
    { r with limits := { r.limits with userDepositCap := newUserCap, tvlCap := newTvlCap } }
  | .limitsUpdated _ newMin _ newMax =>
    { r with limits := { r.limits with userDepositCap := newMin, tvlCap := newMax } }
  | .depositLimitsUpdated _ newMin _ newMax =>
    { r with limits := { r.limits with minDeposit := newMin, maxDeposit := newMax } }
  | .rebalanceCooldownUpdated _ newInterval =>
    { r with limits := { r.limits with
        minRebalanceInterval := if newInterval = 0 then none else some newInterval } }
  | .approvalTtlUpdated _ newTtl =>
    { r with limits := { r.limits with approvalTtl := some newTtl } }
  | .rateLimitConfigUpdated category _ _ newMaxCalls newWindowLedgers _ =>
    { r with limits := r.limits.setRateLimitConfig category ⟨newMaxCalls, newWindowLedgers⟩ }
  | .batchSizeLimitUpdated _ newMaxEntries _ =>
    { r with limits := { r.limits with maxBatchSize := newMaxEntries } }
  | .mevExtractionSuspected _ _ _ cumulativeLossStroops incidentCount =>
    { r with cumulativeMevLoss := cumulativeLossStroops, mevIncidentCount := incidentCount }
  | .userStrategyUpdated user _ newStrategy =>
    { r with userStrategy := fun u => if u = user then some newStrategy else r.userStrategy u }
  | .agentUpdateProposed _ newAgent effectiveLedger =>
    { r with roles := { r.roles with
        pendingAgent := some newAgent, agentTimelockExpiry := effectiveLedger } }
  | .agentUpdateConfirmed _ newAgent =>
    { r with roles := { r.roles with
        agent := some newAgent, pendingAgent := none, agentTimelockExpiry := 0 } }
  | .agentUpdateCancelled _ _ =>
    { r with roles := { r.roles with pendingAgent := none, agentTimelockExpiry := 0 } }
  | .standbyAgentUpdated _ newStandby _ _ =>
    { r with roles := { r.roles with standbyAgent := some newStandby } }
  | .agentKeyRotated _ newPrimary newStandby _ _ =>
    { r with roles := { r.roles with
        agent := some newPrimary, standbyAgent := some newStandby } }
  | .guardianSet _ newGuardian _ => { r with roles := { r.roles with guardian := newGuardian } }
  | .ownershipTransferInitiated _ pendingOwner =>
    { r with roles := { r.roles with pendingOwner := some pendingOwner } }
  | .ownershipTransferred _ newOwner =>
    { r with roles := { r.roles with owner := some newOwner, pendingOwner := none } }
  | .ownershipTransferCancelled _ _ => { r with roles := { r.roles with pendingOwner := none } }
  | .upgradeScheduled newWasmHash effectiveLedger =>
    { r with roles := { r.roles with
        pendingUpgradeHash := some newWasmHash, upgradeTimelockExpiry := effectiveLedger } }
  | .upgraded _ newVersion =>
    { r with roles := { r.roles with
        pendingUpgradeHash := none
        upgradeTimelockExpiry := 0
        wasmHash := r.roles.pendingUpgradeHash
        version := newVersion } }
  | .upgradeCancelled _ =>
    { r with roles := { r.roles with pendingUpgradeHash := none, upgradeTimelockExpiry := 0 } }
  | _ => r

end Replica

/-- The storage an indexer copies. -/
def World.replica (w : World) : Replica where
  usdcToken := w.usdcToken
  shares := w.book.shares
  totalShares := w.book.totalShares
  totalAssets := w.book.assets
  totalDeposits := w.book.totalDeposits
  assetShares := w.assets.shares
  assetTotals := w.assets.totals
  supported := w.assets.supported
  locks := w.locks
  roles := { w.roles with deployer := none }
  limits := { w.limits with lastRebalanceLedger := none }
  breaker := w.breaker
  migration := w.migration
  currentProtocol := w.deployment.currentProtocol
  pool := w.deployment.pool
  multiProtocolEnabled := w.deployment.multiProtocolEnabled
  allocationBps := w.deployment.allocationBps
  userStrategy := w.profiles.userStrategy
  apyBps := w.reports.apyBps
  cumulativeMevLoss := w.reports.cumulativeMevLoss
  mevIncidentCount := w.reports.mevIncidentCount

/-- `initialize` has stored the total, which reports and deposits keep stored. -/
def World.Booked (w : World) : Prop := w.book.totalAssets.isSome = true

/-- The vault as an indexer follows it. -/
def indexed : Replication World Event Replica where
  log := World.events
  ready := World.Booked
  view := World.replica
  apply := Replica.apply

/-- What a step publishes: the events of its call, if that succeeds. -/
def World.emitted (w : World) : Step → List Event
  | .call env call =>
    if (invoke call).succeeds env w = true then ((invoke call).commit env w).events else []
  | .ambient _ => []

/-- The event log of a run. -/
def World.log (w : World) (steps : List Step) : List Event :=
  Replication.published World.after World.emitted w steps

end NeuroWealth.Vault
