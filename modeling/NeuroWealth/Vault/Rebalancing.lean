import NeuroWealth.Vault.Venues

/-!
# Rebalancing and harvesting

The agent's (and for emergencies the owner's) calls that move funds through the pools.
-/

namespace NeuroWealth.Vault

open Transaction MachineInt

/-- Amounts a rebalance reports. -/
structure RebalanceAmounts where
  attempted : Int := 0
  moved : Int := 0
  supplied : Int := 0
  withdrawn : Int := 0

def RebalanceAmounts.addWithdrawal (a : RebalanceAmounts) (expected withdrawn : Int) :
    RebalanceAmounts :=
  { a with
    attempted := i128.saturatingAdd a.attempted expected
    withdrawn := i128.saturatingAdd a.withdrawn withdrawn
    moved := i128.saturatingAdd a.moved withdrawn }

def RebalanceAmounts.addSupply (a : RebalanceAmounts) (balance supplied : Int) :
    RebalanceAmounts :=
  { a with
    attempted := i128.saturatingAdd a.attempted balance
    supplied := i128.saturatingAdd a.supplied supplied
    moved := i128.saturatingAdd a.moved supplied }

/-- Leaves `current` entirely. `none` means funds are left there: the failure was published and
    the rebalance must end without further changes. -/
def exitProtocol (current : Protocol) (minOut : Int) (amounts : RebalanceAmounts) :
    Contract (Option RebalanceAmounts) := do
  let expectedWithdrawal ← getProtocolBalance current
  let withdrawn ← withdrawFromProtocol current minOut
  let amounts' := amounts.addWithdrawal expectedWithdrawal withdrawn
  if 0 < expectedWithdrawal then do
    let remainingBalance ← getProtocolBalance current
    if 0 < remainingBalance then do
      publish (.rebalanceFailed current)
      pure none
    else pure (some amounts')
  else pure (some amounts')

def publishRebalance (protocol : Protocol) (expectedApy : Int) (status : Status)
    (a : RebalanceAmounts) : Contract Unit :=
  publish (.rebalance protocol expectedApy status a.attempted a.moved a.supplied a.withdrawn)

/-- How a supply of the whole idle balance ended. -/
def supplyStatus (supplied balance : Int) : Status :=
  if supplied = 0 then .failed else if supplied < balance then .partially else .success

/-- Supplies the whole idle balance to the target venue. Without one, and if nothing moved so
    far, only the marker is set. -/
def supplyIdle (venue : Venue) (minOut : Int) (amounts : RebalanceAmounts) :
    Contract (Status × RebalanceAmounts) := do
  let _ ← getPool venue
  let usdcToken ← getUsdcToken
  let balance ← vaultBalance usdcToken
  if 0 < balance then do
    let supplied ← supplyToVenue venue balance minOut
    pure (supplyStatus supplied balance, amounts.addSupply balance supplied)
  else if amounts.moved = 0 then do
    setCurrentProtocol venue.protocol
    pure (.noop, amounts)
  else pure (.success, amounts)

def recordRebalanceLedger : Contract Unit := do
  let w ← get
  modifyLimits fun l => { l with lastRebalanceLedger := some w.chain.sequence }

/-- The end of a completed rebalance. -/
def finishRebalance (protocol : Protocol) (expectedApy : Int) (status : Status)
    (amounts : RebalanceAmounts) : Contract Unit := do
  publishRebalance protocol expectedApy status amounts
  recordRebalanceOutcome status
  recordRebalanceLedger
  let _ ← syncDeployedSplit

def rebalanceToVenue (venue : Venue) (expectedApy minOut : Int) (amounts : RebalanceAmounts) :
    Contract Unit := do
  let result ← supplyIdle venue minOut amounts
  finishRebalance venue.protocol expectedApy result.1 result.2

/-- The `none` target. A protocol that was active is exited once more and the marker cleared. -/
def rebalanceToNone (current : Protocol) (expectedApy minOut : Int) (amounts : RebalanceAmounts) :
    Contract Unit :=
  if current ≠ .none then do
    let exited ← exitProtocol current minOut amounts
    match exited with
    | none => pure ()
    | some amounts' => do
      setCurrentProtocol .none
      finishRebalance .none expectedApy .success amounts'
  else
    finishRebalance .none expectedApy (if amounts.moved = 0 then .noop else .success) amounts

/-- Deploys to the requested protocol after the old one was left. -/
def enterProtocol (protocol current : Protocol) (expectedApy minOut : Int)
    (amounts : RebalanceAmounts) : Contract Unit :=
  match protocol with
  | .blend => rebalanceToVenue .blend expectedApy minOut amounts
  | .dex => rebalanceToVenue .dex expectedApy minOut amounts
  | _ => rebalanceToNone current expectedApy minOut amounts

def Protocol.isSupported : Protocol → Bool
  | .blend => true
  | .dex => true
  | .none => true
  | _ => false

def rebalance (protocol : Protocol) (expectedApy minOut : Int) : Contract Unit := do
  requireInitialized
  requireNotPaused
  requireIsAgent
  Tx.require (0 ≤ expectedApy ∧ expectedApy ≤ 10000) .invalidStrategy
  requireCooldownElapsed
  Tx.require (0 ≤ minOut) .minOutMustBeNonNegative
  Tx.require (protocol.isSupported = true) .unsupportedProtocol
  enforceGlobalRateLimit .rebalance
  let w ← get
  let current := w.deployment.currentProtocol
  if current ≠ protocol ∧ current ≠ .none then do
    let exited ← exitProtocol current minOut {}
    match exited with
    | none => pure ()
    | some amounts => enterProtocol protocol current expectedApy minOut amounts
  else enterProtocol protocol current expectedApy minOut {}

/-! ## Multi-protocol mode -/

def bpsDenominator : Nat := 10000

def requireValidAllocation (blendBps dexBps : Nat) : Contract Unit :=
  Tx.require (blendBps ≤ bpsDenominator ∧ dexBps ≤ bpsDenominator ∧
    saturatingAddU32 blendBps dexBps ≤ bpsDenominator) .invalidAllocation

def setAllocation (blendBps dexBps : Nat) : Contract Unit := do
  let w ← get
  putDeployment { w.deployment with
    allocationBps := fun v => match v with | .blend => blendBps | .dex => dexBps }

/-- The cast `as u32` keeps the low 32 bits. -/
def castU32 (x : Int) : Nat := (x % 4294967296).toNat

/-- The allocation that matches live positions without a single-venue marker. -/
def liveAllocation (blendBal dexBal : Int) : Contract (Nat × Nat) :=
  if 0 < blendBal ∨ 0 < dexBal then do
    let total := i128.saturatingAdd blendBal dexBal
    let scaled ← nativeMul blendBal bpsDenominator
    let quotient ← checkedDiv scaled total "attempt to divide by zero"
    let b := castU32 quotient
    Tx.require (b ≤ bpsDenominator) (.panic "attempt to subtract with overflow")
    pure (b, bpsDenominator - b)
  else pure (0, 0)

/-- The allocation `enable_multi_protocol` starts from. -/
def initialAllocation (enabled : Bool) (current : Protocol) (blendBal dexBal : Int) :
    Contract (Nat × Nat) :=
  if enabled = true then
    match current with
    | .blend => pure (bpsDenominator, 0)
    | .dex => pure (0, bpsDenominator)
    | _ => liveAllocation blendBal dexBal
  else do
    -- collapsing to one venue is lossless only if at most one is funded
    Tx.require (¬ (0 < blendBal ∧ 0 < dexBal)) .invalidAllocation
    pure (0, 0)

def setMultiProtocolEnabled (enabled : Bool) : Contract Unit := do
  let w ← get
  putDeployment { w.deployment with multiProtocolEnabled := enabled }

def enableMultiProtocol (enabled : Bool) : Contract Unit := do
  requireInitialized
  requireIsOwner
  let live ← syncDeployedSplit
  let w ← get
  let bps ← initialAllocation enabled w.deployment.currentProtocol live.1 live.2
  setMultiProtocolEnabled enabled
  setAllocation bps.1 bps.2
  setCurrentProtocol (deriveProtocolSummary live.1 live.2)
  publish (.multiProtocolModeChanged enabled bps.1 bps.2)

/-- Splits a total by basis points, rounding each part down. -/
def splitByBps (total : Int) (blendBps dexBps : Nat) : Contract (Int × Int) :=
  if total ≤ 0 then pure (0, 0)
  else do
    let blend ← checkedMul total blendBps "vault: allocation overflow"
    let dex ← checkedMul total dexBps "vault: allocation overflow"
    pure (blend.tdiv bpsDenominator, dex.tdiv bpsDenominator)

/-- A venue with a positive allocation must have a pool. -/
def requirePoolForAllocation (venue : Venue) (bps : Nat) : Contract Unit := do
  let w ← get
  Tx.require (¬ (0 < bps ∧ w.deployment.pool venue = none)) venue.notConfigured

/-- Withdraws what a venue holds above its target. Returns the excess and what came back. -/
def trimVenue (venue : Venue) (balance target minOut : Int) : Contract (Int × Int) :=
  if target < balance then do
    let excess ← nativeSub balance target
    let withdrawn ← withdrawFromVenue venue excess minOut
    pure (excess, withdrawn)
  else pure (0, 0)

/-- Supplies what a venue misses of its target, up to `available`. Returns what was asked for and
    what was supplied. -/
def topUpVenue (venue : Venue) (target available minOut : Int) : Contract (Int × Int) := do
  let now ← getVenueBalance venue
  if now < target ∧ 0 < available then do
    let missing ← nativeSub target now
    let want := min missing available
    if 0 < want then do
      let supplied ← supplyToVenue venue want minOut
      pure (want, supplied)
    else pure (0, 0)
  else pure (0, 0)

/-- The allocation-weighted APY of `get_composite_apy`. -/
def World.compositeApy (w : World) : Nat :=
  let (blendBps, dexBps) :=
    if w.deployment.multiProtocolEnabled then
      (w.deployment.allocationBps .blend, w.deployment.allocationBps .dex)
    else match w.deployment.currentProtocol with
      | .blend => (bpsDenominator, 0)
      | .dex => (0, bpsDenominator)
      | _ => (0, 0)
  (blendBps * w.reports.apyBps .blend + dexBps * w.reports.apyBps .dex) / bpsDenominator

/-- The outcome of a multi-protocol rebalance. -/
def multiStatus (attempted moved : Int) : Status :=
  if attempted = 0 then .noop
  else if moved = 0 then .failed
  else if moved < attempted then .partially
  else .success

def rebalanceMulti (blendBps dexBps : Nat) (minOut : Int) : Contract Unit := do
  requireInitialized
  requireNotPaused
  requireIsAgent
  let w ← get
  Tx.require (w.deployment.multiProtocolEnabled = true) .multiProtocolNotEnabled
  requireValidAllocation blendBps dexBps
  Tx.require (0 ≤ minOut) .minOutMustBeNonNegative
  requireCooldownElapsed
  requirePoolForAllocation .blend blendBps
  requirePoolForAllocation .dex dexBps
  let usdcToken ← getUsdcToken
  let idle ← vaultBalance usdcToken
  let blendBal ← getVenueBalance .blend
  let dexBal ← getVenueBalance .dex
  let deployable := i128.saturatingAdd (i128.saturatingAdd idle blendBal) dexBal
  let target ← splitByBps deployable blendBps dexBps
  -- exit over-allocated venues first, to free up liquidity
  let trimBlend ← trimVenue .blend blendBal target.1 minOut
  let trimDex ← trimVenue .dex dexBal target.2 minOut
  -- then top up the others from what is on hand
  let available ← vaultBalance usdcToken
  let topBlend ← topUpVenue .blend target.1 available minOut
  let topDex ← topUpVenue .dex target.2 (i128.saturatingSub available topBlend.2) minOut
  setAllocation blendBps dexBps
  let deployed ← syncDeployedSplit
  setCurrentProtocol (deriveProtocolSummary deployed.1 deployed.2)
  publish (.protocolAllocationChanged (w.deployment.allocationBps .blend)
    (w.deployment.allocationBps .dex) blendBps dexBps deployed.1 deployed.2)
  let attempted := [trimDex.1, topBlend.1, topDex.1].foldl i128.saturatingAdd
    (i128.saturatingAdd 0 trimBlend.1)
  let supplied := i128.saturatingAdd (i128.saturatingAdd 0 topBlend.2) topDex.2
  let withdrawn := i128.saturatingAdd (i128.saturatingAdd 0 trimBlend.2) trimDex.2
  let moved := i128.saturatingAdd supplied withdrawn
  let status := multiStatus attempted moved
  let w' ← get
  publishRebalance .multi w'.compositeApy status ⟨attempted, moved, supplied, withdrawn⟩
  recordRebalanceOutcome status
  recordRebalanceLedger

/-! ## Harvests -/

/-- Puts a harvest back where it came from; a multi-protocol exit stays idle. -/
def resupply (protocol : Protocol) (withdrawn minOut : Int) : Contract Unit :=
  if 0 < withdrawn then
    match protocol with
    | .blend => do let _ ← supplyToBlend withdrawn minOut
    | .dex => do let _ ← supplyToDex withdrawn minOut
    | _ => pure ()
  else pure ()

/-- The withdraw-and-resupply round trip of both harvest entrypoints; `event` is what it
    publishes. -/
def harvestRoundTrip (minOut : Int) (event : Protocol → Int → Event) : Contract Unit := do
  Tx.require (0 ≤ minOut) .minOutMustBeNonNegative
  requireCooldownElapsed
  let w ← get
  let current := w.deployment.currentProtocol
  Tx.require (current ≠ .none) .unsupportedProtocol
  enforceGlobalRateLimit .rebalance
  let withdrawn ← withdrawFromProtocol current minOut
  resupply current withdrawn minOut
  publish (event current withdrawn)
  recordRebalanceLedger

def harvest (minOut : Int) : Contract Unit := do
  requireInitialized
  requireNotPaused
  requireIsAgent
  harvestRoundTrip minOut .harvest

def emergencyHarvest (minOut : Int) : Contract Unit := do
  requireInitialized
  let owner ← getOwnerInternal
  requireOwnerArg owner .callerIsNotOwner
  harvestRoundTrip minOut .emergencyHarvest

end NeuroWealth.Vault
