import NeuroWealth.Vault.Guards

/-!
# Reports of the agent

`update_total_assets`, which reprices the shares, and the telemetry entrypoints.
-/

namespace NeuroWealth.Vault

open Transaction MachineInt

/-! ## Total assets -/

/-- The most a report may lower the total by. The cap is at least 100 bps. -/
def maxDecrease (oldTotal : Int) (maxDecreaseBps : Nat) : Contract Int := do
  let effectiveCapBps := max maxDecreaseBps 100
  let product ← checkedMul oldTotal effectiveCapBps "vault: total available overflow"
  checkedDiv product 10000 "vault: total available overflow"

/-- What a report below the stored total needs: permission, the owner's signature and a bounded
    decrease. -/
def requireDecreaseAllowed (oldTotal newTotal : Int) (allowDecrease : Bool)
    (maxDecreaseBps : Nat) : Contract Unit := do
  Tx.require (allowDecrease = true) .totalAssetsDecreaseNotAllowed
  requireIsOwner
  let limit ← maxDecrease oldTotal maxDecreaseBps
  let actualDecrease ← checkedSub oldTotal newTotal "vault: decrease underflow"
  Tx.require (actualDecrease ≤ limit) .decreaseExceedsMaximumAllowedBps

/-- Adds a venue's position to the total while the marker names the venue. -/
def addDeployed (venue : Venue) (total : Int) : Contract Int := do
  let w ← get
  if w.deployment.currentProtocol = venue.protocol then
    match w.deployment.pool venue with
    | some pool => do
      let deployedBalance ← poolBalance venue pool
      checkedAdd total deployedBalance "vault: total available overflow"
    | none => pure total
  else pure total

/-- The USDC the contract can see: its own and that of the venue the marker names. -/
def totalAvailable : Contract Int := do
  let usdcToken ← getUsdcToken
  let balance ← vaultBalance usdcToken
  let withBlend ← addDeployed .blend balance
  addDeployed .dex withBlend

/-- One holder's share of a yield. -/
def attributeYield (totalYield totalShares : Int) (protocol : Protocol) (timestamp : Nat)
    (user : Address) : Contract Unit := do
  let shares ← readShares user
  if shares = 0 then pure ()
  else do
    let product ← checkedMul totalYield shares "vault: yield attribution overflow"
    let yieldUser ← checkedDiv product totalShares "vault: yield attribution div error"
    Tx.onlyIf (yieldUser ≠ 0) (publish (.yieldAttributed user protocol yieldUser timestamp))

def emitYieldAttribution (totalYield : Int) : Contract Unit := do
  let w ← get
  if totalYield ≤ 0 ∨ w.book.totalShares = 0 then pure ()
  else
    Tx.each (attributeYield totalYield w.book.totalShares w.deployment.currentProtocol
      w.chain.timestamp) w.profiles.userSharesIndex

/-- The caller passed as an argument is one of the agent keys. -/
def requireReporter (agent : Address) : Contract Unit := do
  let storedAgent ← getAgentInternal
  let w ← get
  Tx.require (agent = storedAgent ∨ w.roles.standbyAgent = some agent)
    .onlyAgentCanUpdateTotalAssets
  requireAuth agent

def updateTotalAssets (agent : Address) (newTotal : Int) (allowDecrease : Bool)
    (maxDecreaseBps : Nat) : Contract Unit := do
  requireInitialized
  requireReporter agent
  let w ← get
  let oldTotal := w.book.assets
  Tx.onlyIf (newTotal < oldTotal)
    (requireDecreaseAllowed oldTotal newTotal allowDecrease maxDecreaseBps)
  let available ← totalAvailable
  Tx.require (newTotal ≤ available) .insufficientBalanceForAssets
  putBook { w.book with totalAssets := some newTotal }
  let yieldAmount := i128.saturatingSub newTotal oldTotal
  Tx.onlyIf (0 < yieldAmount) (emitYieldAttribution yieldAmount)
  publish (.assetsUpdated oldTotal newTotal)

/-! ## Telemetry -/

def setProtocolApy (protocol : Protocol) (apyBps : Nat) : Contract Unit := do
  requireInitialized
  requireIsAgent
  Tx.require (apyBps ≤ 10000) .invalidStrategy
  let venue ← Tx.expect .unsupportedProtocol
    (match protocol with | .blend => some Venue.blend | .dex => some Venue.dex | _ => none)
  modifyReports fun r => { r with apyBps := fun v => if v = venue then apyBps else r.apyBps v }
  publish (.protocolApyUpdated protocol apyBps)

def submitMevReport (protocol : Protocol) (estimatedLossStroops minOutUsed : Int) :
    Contract Unit := do
  requireInitialized
  requireIsAgent
  Tx.require (0 ≤ estimatedLossStroops) (.panic "estimated_loss_stroops must be non-negative")
  let w ← get
  let newCumulative ← checkedAdd w.reports.cumulativeMevLoss estimatedLossStroops
    "vault: mev cumulative overflow"
  let newCount := saturatingAddU32 w.reports.mevIncidentCount 1
  modifyReports fun r => { r with cumulativeMevLoss := newCumulative, mevIncidentCount := newCount }
  publish (.mevExtractionSuspected protocol estimatedLossStroops minOutUsed newCumulative newCount)

def setMaxAcceptableMevLoss (maxLossStroops : Int) : Contract Unit := do
  requireInitialized
  requireIsOwner
  Tx.require (0 ≤ maxLossStroops) (.panic "max_loss_stroops must be non-negative")
  modifyReports fun r => { r with maxAcceptableMevLoss := maxLossStroops }

def submitApyPrediction (prediction : ApyPrediction) : Contract Unit := do
  requireInitialized
  requireIsAgent
  let w ← get
  let record := { prediction with submittedAtLedger := w.chain.sequence }
  modifyReports fun r =>
    { r with apyPrediction := fun p =>
        if p = prediction.protocol then some record else r.apyPrediction p }

end NeuroWealth.Vault
